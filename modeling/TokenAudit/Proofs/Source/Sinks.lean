import TokenAudit.Proofs.Source.Lines

/-! The search for a source with its lines going to sinks. How a line is told is left open first, so
that noting it, as the search does, and handing it to a sink are two cases of one search; then the two
are run side by side. -/

namespace TokenAudit

def Ask.beside {σ α : Type} (τ : Type) (request : Ask σ α) : Ask (σ × τ) α := fun s =>
  let reply := (request s.1).1
  (⟨reply.delay, fun later =>
    ((reply.draw later.1).1, ((reply.draw later.1).2, later.2))⟩, ((request s.1).2, s.2))

def World.beside {σ κ τ : Type} (world : World σ κ) (memory : τ) : World (σ × τ) κ where
  now := world.now
  trace := world.trace
  state := (world.state, memory)

/-! ### The search, however lines are told -/

namespace Decompiler

variable {σ : Type}

def Transport.beside (τ : Type) (t : Transport σ) : Transport (σ × τ) where
  submit payload := (t.submit payload).beside τ
  jobStatus job := (t.jobStatus job).beside τ

theorem judge_client (answer : Except AuditError Response) :
    ∀ n ∈ (judge answer).2, n.ofClient = true := by
  rcases answer with e | r
  · exact List.forall_mem_singleton.mpr rfl
  · have hnone : (judge (.ok r)).2 = [] := by
      simp only [judge]
      split
      · split <;> rfl
      · rfl
    rw [hnone]
    exact List.forall_mem_nil _

section

variable (tell : SourceWorld σ → SourceNote → SourceWorld σ) (t : Transport σ) (limits : Limits)
  (w : Window)

def afterCutBy (output : List Char) (world : SourceWorld σ) : SourceWorld σ :=
  if limits.maxOutputChars < output.length then
    tell world (.truncated output.length limits.maxOutputChars)
  else world

def pollFromBy (job : String) :
    Nat → Budget → SourceWorld σ → Ran σ (Except AuditError String)
  | 0, b, world =>
    (some (.error (.timeout "decompilation" b.maxAttempts)),
      tell world (.pollTimedOut b.maxAttempts))
  | left + 1, b, world =>
    match b.begin? with
    | none =>
      (some (.error (.timeout "decompilation" b.maxAttempts)),
        tell world (.pollTimedOut b.maxAttempts))
    | some c =>
      World.andThen ((tell world (.pollAttempt c.attempts c.maxAttempts)).rest w
        c.intervalMs.toNat) fun woken world =>
          if woken = .cancelled then (some (.error (.cancelled "decompilation poll")), world)
          else World.andThen ((world.record (.statusAsked job)).ask w (t.jobStatus job))
            fun answer world =>
              match judge answer with
              | (some output, _) =>
                (some (.ok (String.ofList (truncateText output limits.maxOutputChars))),
                  afterCutBy tell limits output (tell world (.pollReady c.attempts)))
              | (none, notes) => pollFromBy job left c (notes.foldl tell world)

def pollBy (job : String) (world : SourceWorld σ) : Ran σ (Except AuditError String) :=
  let budget := Budget.fresh limits.maxPollAttempts limits.pollIntervalMs
  pollFromBy tell t limits w job budget.remaining budget world

def completedBy (text : String) (world : SourceWorld σ) : Ran σ (Except AuditError String) :=
  (some (.ok text), tell world (.complete text.toList.length))

def onPolledBy (answer : Except AuditError String) (world : SourceWorld σ) :
    Ran σ (Except AuditError String) :=
  match answer with
  | .ok text => completedBy tell text world
  | .error e => (some (.error e), world)

def followBy (r : Response) (world : SourceWorld σ) : Ran σ (Except AuditError String) :=
  if r.isPending then
    match r.job? with
    | none => (some (.error (.upstream "decompiler" r.status "pending response without job id")), world)
    | some job =>
      World.andThen (pollBy tell t limits w job (tell world (.jobPending job))) (onPolledBy tell)
  else
    completedBy tell (String.ofList (truncateText r.output limits.maxOutputChars))
      (afterCutBy tell limits r.output world)

def onSubmittedBy (answer : Except AuditError Response) (world : SourceWorld σ) :
    Ran σ (Except AuditError String) :=
  match answer with
  | .error e => (some (.error e), tell world (.networkError e))
  | .ok r =>
    if r.isSuccess then followBy tell t limits w r world
    else
      (some (.error (.upstream "decompiler" r.status
          s!"API returned {r.status.toNat}: {r.reason}")),
        tell world (.apiError r.status r.reason))

def submitBy (bytecode : String) (world : SourceWorld σ) : Ran σ (Except AuditError String) :=
  match Bytecode.submission bytecode with
  | .error e => (some (.error e), world)
  | .ok digits =>
    let text := String.ofList digits
    World.andThen (((tell world (.submitting digits.length)).record (.submitted text)).ask w
      (t.submit text)) (onSubmittedBy tell t limits w)

end

section

variable (t : Transport σ) (limits : Limits) (w : Window)

theorem pollFromBy_note (job : String) (left : Nat) (b : Budget) (world : SourceWorld σ) :
    pollFromBy note t limits w job left b world = pollFrom t limits w job left b world := by
  induction left generalizing b world with
  | zero => rfl
  | succ left ih =>
    rw [pollFromBy]
    cases hb : b.begin? with
    | none => simp only [pollFrom, hb]
    | some c =>
      rw [pollFrom_succ t limits w job left hb]
      simp only [ih]
      rfl

theorem pollBy_note (job : String) (world : SourceWorld σ) :
    pollBy note t limits w job world = poll t limits w job world :=
  pollFromBy_note t limits w job _ _ world

theorem followBy_note (r : Response) (world : SourceWorld σ) :
    followBy note t limits w r world = follow t limits w r world := by
  cases hp : r.isPending with
  | false =>
    rw [follow_of_whole hp, followBy, hp]
    rfl
  | true =>
    cases hj : r.job? with
    | none => simp only [followBy, follow, hp, hj, if_true]
    | some job =>
      rw [follow_of_job hp hj, ← pollBy_note]
      simp only [followBy, hp, hj, if_true]
      rfl

theorem onSubmittedBy_note (answer : Except AuditError Response) (world : SourceWorld σ) :
    onSubmittedBy note t limits w answer world = onSubmitted t limits w answer world := by
  cases answer with
  | error e => rfl
  | ok r => simp only [onSubmittedBy, onSubmitted, followBy_note]

theorem submitBy_note (bytecode : String) (world : SourceWorld σ) :
    submitBy note t limits w bytecode world = submit t limits w bytecode world := by
  cases hs : Bytecode.submission bytecode with
  | error e => simp only [submitBy, submit, hs]
  | ok digits =>
    have hanswered : onSubmittedBy note t limits w = onSubmitted t limits w := by
      funext answer told
      exact onSubmittedBy_note t limits w answer told
    rw [submit_of_ok hs]
    simp only [submitBy, hs, hanswered]
    rfl

end

end Decompiler

namespace Resolver

open Decompiler (SourceWorld Ran note)

variable {σ : Type}

section

variable (client own : SourceWorld σ → SourceNote → SourceWorld σ)
variable (explorer : Address → Ask σ (Except AuditError (Option VerifiedSource)))
variable (bytecode : Address → Ask σ (Except AuditError String))
variable (t : Decompiler.Transport σ) (limits : Decompiler.Limits) (w : Window) (address : Address)

def exhaustedBy (world : SourceWorld σ) : Ran σ SourceResult := (some .absent, own world .exhausted)

def concludeBy (answer : Except AuditError String) (world : SourceWorld σ) : Ran σ SourceResult :=
  match answer with
  | .ok source =>
    if isBlankText source then exhaustedBy own (own world .emptyOutput)
    else
      (some (.decompiled address source),
        own world (.decompiledAs address (decompiledName address) source.toList.length))
  | .error e => exhaustedBy own (own world (.decompilationFailed e))

def onBytecodeBy (answer : Except AuditError String) (world : SourceWorld σ) : Ran σ SourceResult :=
  match answer with
  | .error e => exhaustedBy own (own world (.bytecodeFailed e))
  | .ok code =>
    if Bytecode.isTrivial code then (some .absent, own world (.noBytecode address))
    else World.andThen (Decompiler.submitBy client t limits w code world) (concludeBy own address)

def fromBytecodeBy (world : SourceWorld σ) : Ran σ SourceResult :=
  World.andThen (((own world (.unverified address)).record (.bytecodeAsked address)).ask w
    (bytecode address)) (onBytecodeBy client own t limits w address)

def onExploredBy (answer : Except AuditError (Option VerifiedSource)) (world : SourceWorld σ) :
    Ran σ SourceResult :=
  match accepted answer with
  | some v =>
    (some (.verified v.source v.contractName), own world (.verifiedFound address v.contractName))
  | none =>
    match answer with
    | .error e =>
      fromBytecodeBy client own bytecode t limits w address (own world (.lookupFailed address e))
    | .ok _ => fromBytecodeBy client own bytecode t limits w address world

def resolveBy (world : SourceWorld σ) : Ran σ SourceResult :=
  World.andThen ((world.record (.explorerAsked address)).ask w (explorer address))
    (onExploredBy client own bytecode t limits w address)

end

section

variable (explorer : Address → Ask σ (Except AuditError (Option VerifiedSource)))
variable (bytecode : Address → Ask σ (Except AuditError String))
variable (t : Decompiler.Transport σ) (limits : Decompiler.Limits) (w : Window) (address : Address)

theorem concludeBy_note (answer : Except AuditError String) (world : SourceWorld σ) :
    concludeBy note address answer world = conclude address world answer := by
  cases answer <;> rfl

theorem onBytecodeBy_note (answer : Except AuditError String) (world : SourceWorld σ) :
    onBytecodeBy note note t limits w address answer world =
      (⟨explorer, bytecode, .service t limits⟩ : Resolver σ).onBytecode w address answer world := by
  cases answer with
  | error e => rfl
  | ok code =>
    have hconclude : concludeBy note address = fun answer (world : SourceWorld σ) =>
        conclude address world answer := by
      funext answer world
      exact concludeBy_note address answer world
    simp only [onBytecodeBy, onBytecode, Decompiler.submitBy_note, hconclude, Decompiler.decompile]

theorem fromBytecodeBy_note (world : SourceWorld σ) :
    fromBytecodeBy note note bytecode t limits w address world =
      (⟨explorer, bytecode, .service t limits⟩ : Resolver σ).fromBytecode w address world := by
  have hanswered : onBytecodeBy note note t limits w address =
      (⟨explorer, bytecode, .service t limits⟩ : Resolver σ).onBytecode w address := by
    funext answer world
    exact onBytecodeBy_note explorer bytecode t limits w address answer world
  rw [fromBytecodeBy, fromBytecode_eq, hanswered]

theorem resolveBy_note (world : SourceWorld σ) :
    resolveBy note note explorer bytecode t limits w address world =
      (⟨explorer, bytecode, .service t limits⟩ : Resolver σ).resolve w address world := by
  have hexplored : onExploredBy note note bytecode t limits w address =
      (⟨explorer, bytecode, .service t limits⟩ : Resolver σ).onExplored w address := by
    funext answer world
    unfold onExploredBy onExplored
    cases accepted answer with
    | some v => rfl
    | none => cases answer <;> exact fromBytecodeBy_note explorer bytecode t limits w address _
  rw [resolveBy, resolve_eq, hexplored]

end

end Resolver

/-! ### Lines that go to sinks -/

/-- Where lines go: those of the client, and those of the rest of the search. Each sink has a memory
and takes a line as it likes. -/
structure Sinks (τ : Type) where
  client : τ → String → τ
  own : τ → String → τ

namespace Sinks

variable {σ τ α β : Type}

def tell (sink : τ → String → τ) (world : Decompiler.SourceWorld (σ × τ)) (n : SourceNote) :
    Decompiler.SourceWorld (σ × τ) :=
  { world with state := (world.state.1, sink world.state.2 n.line) }

def hear (k : Sinks τ) (memory : τ) (n : SourceNote) : τ :=
  if n.ofClient then k.client memory n.line else k.own memory n.line

/-- One search notes its lines, the other hands them to sinks: the two are at the same moment, and the
sinks have heard what has been noted since. -/
structure Echoes (k : Sinks τ) (before : List SourceNote) (memory : τ)
    (u : Decompiler.SourceWorld σ) (v : Decompiler.SourceWorld (σ × τ)) : Prop where
  now : v.now = u.now
  state : v.state.1 = u.state
  heard : ∃ ns, Decompiler.notes u = before ++ ns ∧ v.state.2 = ns.foldl k.hear memory

structure EchoesAs (k : Sinks τ) (before : List SourceNote) (memory : τ)
    (m : Decompiler.Ran σ α) (m' : Decompiler.Ran (σ × τ) α) : Prop where
  answer : m'.1 = m.1
  world : k.Echoes before memory m.2 m'.2

section

variable {k : Sinks τ} {before : List SourceNote} {memory : τ} {u : Decompiler.SourceWorld σ}
  {v : Decompiler.SourceWorld (σ × τ)}

theorem Echoes.told (h : k.Echoes before memory u v) {sink : τ → String → τ} {n : SourceNote}
    (hsink : ∀ m, k.hear m n = sink m n.line) :
    k.Echoes before memory (Decompiler.note u n) (tell sink v n) := by
  obtain ⟨ns, hns, hmemory⟩ := h.heard
  refine ⟨h.now, h.state, ns ++ [n], ?_, ?_⟩
  · rw [Decompiler.notes_note, hns, List.append_assoc]
  · rw [List.foldl_append, ← hmemory]
    exact (hsink v.state.2).symm

theorem Echoes.tell_client (h : k.Echoes before memory u v) {n : SourceNote}
    (hn : n.ofClient = true) :
    k.Echoes before memory (Decompiler.note u n) (tell k.client v n) :=
  h.told fun _ => if_pos hn

theorem Echoes.tell_own (h : k.Echoes before memory u v) {n : SourceNote}
    (hn : n.ofClient = false) :
    k.Echoes before memory (Decompiler.note u n) (tell k.own v n) :=
  h.told fun _ => if_neg (Bool.eq_false_iff.mp hn)

theorem Echoes.record (h : k.Echoes before memory u v) (act : SourceAct) (hact : act.note? = none) :
    k.Echoes before memory (u.record act) (v.record act) := by
  refine ⟨h.now, h.state, ?_⟩
  rw [Decompiler.notes_record u hact]
  exact h.heard

theorem Echoes.rest (h : k.Echoes before memory u v) (w : Window) (duration : Nat) :
    k.EchoesAs before memory (u.rest w duration) (v.rest w duration) := by
  have hslept : w.sleep v.now duration = w.sleep u.now duration := by rw [h.now]
  have hheard := h.heard
  simp only [World.rest, World.sleep, hslept]
  rcases w.sleep u.now duration with ⟨_ | _ | _, now⟩
  all_goals exact ⟨rfl, rfl, h.state, hheard⟩

theorem Echoes.ask (h : k.Echoes before memory u v) (w : Window) (request : Ask σ α) :
    k.EchoesAs before memory (u.ask w request) (v.ask w (request.beside τ)) := by
  have hstate := h.state
  have hheard := h.heard
  have hdelay : ((request.beside τ) v.state).1.delay = (request u.state).1.delay := by
    rw [← hstate]
    rfl
  rcases hawait : w.await u.now (request u.state).1.delay with ⟨_ | _, now⟩
  · have hother : w.await v.now ((request.beside τ) v.state).1.delay = (false, now) := by
      rw [hdelay, h.now, hawait]
    rw [World.ask_of_await_false hawait, World.ask_of_await_false hother]
    refine ⟨rfl, rfl, ?_, hheard⟩
    rw [← hstate]
    rfl
  · have hother : w.await v.now ((request.beside τ) v.state).1.delay = (true, now) := by
      rw [hdelay, h.now, hawait]
    rw [World.ask_of_await_true hawait, World.ask_of_await_true hother]
    refine ⟨?_, rfl, ?_, hheard⟩ <;> rw [← hstate] <;> rfl

theorem EchoesAs.andThen {m : Decompiler.Ran σ α} {m' : Decompiler.Ran (σ × τ) α}
    {f : α → Decompiler.SourceWorld σ → Decompiler.Ran σ β}
    {g : α → Decompiler.SourceWorld (σ × τ) → Decompiler.Ran (σ × τ) β}
    (h : k.EchoesAs before memory m m')
    (hf : ∀ a u v, k.Echoes before memory u v → k.EchoesAs before memory (f a u) (g a v)) :
    k.EchoesAs before memory (World.andThen m f) (World.andThen m' g) := by
  obtain ⟨answer, u⟩ := m
  obtain ⟨answer', v⟩ := m'
  obtain ⟨hanswer, hworld⟩ := h
  cases hanswer
  cases answer with
  | none => exact ⟨rfl, hworld⟩
  | some a => exact hf a u v hworld

/-! ### The two searches side by side -/

theorem Echoes.tell_notes (h : k.Echoes before memory u v) {ns : List SourceNote}
    (hns : ∀ n ∈ ns, n.ofClient = true) :
    k.Echoes before memory (ns.foldl Decompiler.note u) (ns.foldl (tell k.client) v) := by
  induction ns generalizing u v with
  | nil => exact h
  | cons n ns ih =>
    obtain ⟨hn, hrest⟩ := List.forall_mem_cons.mp hns
    exact ih (h.tell_client hn) hrest

theorem Echoes.afterCut (h : k.Echoes before memory u v) (limits : Decompiler.Limits)
    (output : List Char) : k.Echoes before memory
      (Decompiler.afterCutBy Decompiler.note limits output u)
      (Decompiler.afterCutBy (tell k.client) limits output v) := by
  unfold Decompiler.afterCutBy
  split
  · exact h.tell_client rfl
  · exact h

section

variable (t : Decompiler.Transport σ) (limits : Decompiler.Limits) (w : Window)

theorem Echoes.pollFrom (h : k.Echoes before memory u v) (job : String) (left : Nat) (b : Budget) :
    k.EchoesAs before memory (Decompiler.pollFromBy Decompiler.note t limits w job left b u)
      (Decompiler.pollFromBy (tell k.client) (t.beside τ) limits w job left b v) := by
  induction left generalizing b u v with
  | zero => exact ⟨rfl, h.tell_client rfl⟩
  | succ left ih =>
    rw [Decompiler.pollFromBy, Decompiler.pollFromBy]
    cases b.begin? with
    | none => exact ⟨rfl, h.tell_client rfl⟩
    | some c =>
      have hbegun := h.tell_client (n := .pollAttempt c.attempts c.maxAttempts) rfl
      refine (hbegun.rest w c.intervalMs.toNat).andThen fun woken u v h => ?_
      by_cases hwoken : woken = .cancelled
      · simp only [hwoken, if_true]
        exact ⟨rfl, h⟩
      · simp only [hwoken, if_false]
        have hasked := (h.record (.statusAsked job) rfl).ask w (t.jobStatus job)
        refine hasked.andThen fun answer u v h => ?_
        rcases hjudged : Decompiler.judge answer with ⟨_ | output, notes⟩
        · have hnotes : ∀ n ∈ notes, n.ofClient = true := by
            have hclient := Decompiler.judge_client answer
            rwa [hjudged] at hclient
          exact ih (h.tell_notes hnotes) c
        · exact ⟨rfl, (h.tell_client rfl).afterCut limits output⟩

theorem Echoes.poll (h : k.Echoes before memory u v) (job : String) :
    k.EchoesAs before memory (Decompiler.pollBy Decompiler.note t limits w job u)
      (Decompiler.pollBy (tell k.client) (t.beside τ) limits w job v) :=
  h.pollFrom t limits w job _ _

theorem Echoes.onPolled (h : k.Echoes before memory u v) (answer : Except AuditError String) :
    k.EchoesAs before memory (Decompiler.onPolledBy Decompiler.note answer u)
      (Decompiler.onPolledBy (tell k.client) answer v) := by
  cases answer with
  | ok text => exact ⟨rfl, h.tell_client rfl⟩
  | error e => exact ⟨rfl, h⟩

theorem Echoes.follow (h : k.Echoes before memory u v) (r : Decompiler.Response) :
    k.EchoesAs before memory (Decompiler.followBy Decompiler.note t limits w r u)
      (Decompiler.followBy (tell k.client) (t.beside τ) limits w r v) := by
  unfold Decompiler.followBy
  cases r.isPending with
  | false => exact ⟨rfl, (h.afterCut limits r.output).tell_client rfl⟩
  | true =>
    cases r.job? with
    | none => exact ⟨rfl, h⟩
    | some job =>
      have hpolled := (h.tell_client (n := .jobPending job) rfl).poll t limits w job
      exact hpolled.andThen fun answer u v h => h.onPolled answer

theorem Echoes.onSubmitted (h : k.Echoes before memory u v)
    (answer : Except AuditError Decompiler.Response) :
    k.EchoesAs before memory (Decompiler.onSubmittedBy Decompiler.note t limits w answer u)
      (Decompiler.onSubmittedBy (tell k.client) (t.beside τ) limits w answer v) := by
  cases answer with
  | error e => exact ⟨rfl, h.tell_client rfl⟩
  | ok r =>
    simp only [Decompiler.onSubmittedBy]
    by_cases hr : r.isSuccess = true
    · simp only [hr, if_true]
      exact h.follow t limits w r
    · simp only [hr, if_false, Bool.false_eq_true]
      exact ⟨rfl, h.tell_client rfl⟩

theorem Echoes.submit (h : k.Echoes before memory u v) (code : String) :
    k.EchoesAs before memory (Decompiler.submitBy Decompiler.note t limits w code u)
      (Decompiler.submitBy (tell k.client) (t.beside τ) limits w code v) := by
  unfold Decompiler.submitBy
  cases Bytecode.submission code with
  | error e => exact ⟨rfl, h⟩
  | ok digits =>
    have htold := h.tell_client (n := .submitting digits.length) rfl
    have hasked := (htold.record (.submitted (String.ofList digits)) rfl).ask w
      (t.submit (String.ofList digits))
    exact hasked.andThen fun answer u v h => h.onSubmitted t limits w answer

variable (address : Address)

theorem Echoes.conclude (h : k.Echoes before memory u v) (answer : Except AuditError String) :
    k.EchoesAs before memory (Resolver.concludeBy Decompiler.note address answer u)
      (Resolver.concludeBy (tell k.own) address answer v) := by
  cases answer with
  | error e => exact ⟨rfl, (h.tell_own rfl).tell_own rfl⟩
  | ok text =>
    simp only [Resolver.concludeBy]
    by_cases hblank : isBlankText text = true
    · simp only [hblank, if_true]
      exact ⟨rfl, (h.tell_own rfl).tell_own rfl⟩
    · simp only [hblank, if_false, Bool.false_eq_true]
      exact ⟨rfl, h.tell_own rfl⟩

theorem Echoes.onBytecode (h : k.Echoes before memory u v) (answer : Except AuditError String) :
    k.EchoesAs before memory
      (Resolver.onBytecodeBy Decompiler.note Decompiler.note t limits w address answer u)
      (Resolver.onBytecodeBy (tell k.client) (tell k.own) (t.beside τ) limits w address answer v) := by
  cases answer with
  | error e => exact ⟨rfl, (h.tell_own rfl).tell_own rfl⟩
  | ok code =>
    simp only [Resolver.onBytecodeBy]
    by_cases htrivial : Bytecode.isTrivial code = true
    · simp only [htrivial, if_true]
      exact ⟨rfl, h.tell_own rfl⟩
    · simp only [htrivial, if_false, Bool.false_eq_true]
      exact (h.submit t limits w code).andThen fun answer u v h => h.conclude address answer

variable (explorer : Address → Ask σ (Except AuditError (Option VerifiedSource)))
variable (bytecode : Address → Ask σ (Except AuditError String))

theorem Echoes.fromBytecode (h : k.Echoes before memory u v) :
    k.EchoesAs before memory
      (Resolver.fromBytecodeBy Decompiler.note Decompiler.note bytecode t limits w address u)
      (Resolver.fromBytecodeBy (tell k.client) (tell k.own) (fun a => (bytecode a).beside τ)
        (t.beside τ) limits w address v) := by
  have htold := h.tell_own (n := .unverified address) rfl
  have hasked := (htold.record (.bytecodeAsked address) rfl).ask w (bytecode address)
  exact hasked.andThen fun answer u v h => h.onBytecode t limits w address answer

theorem Echoes.resolve (h : k.Echoes before memory u v) :
    k.EchoesAs before memory
      (Resolver.resolveBy Decompiler.note Decompiler.note explorer bytecode t limits w address u)
      (Resolver.resolveBy (tell k.client) (tell k.own) (fun a => (explorer a).beside τ)
        (fun a => (bytecode a).beside τ) (t.beside τ) limits w address v) := by
  have hasked := (h.record (.explorerAsked address) rfl).ask w (explorer address)
  refine hasked.andThen fun answer u v h => ?_
  unfold Resolver.onExploredBy
  cases Resolver.accepted answer with
  | some source => exact ⟨rfl, h.tell_own rfl⟩
  | none =>
    cases answer with
    | error e => exact (h.tell_own rfl).fromBytecode t limits w address bytecode
    | ok found => exact h.fromBytecode t limits w address bytecode

end

end

/-- A task with sinks returns what it returns without, at the same moment, and the sinks have heard
each note, in order. -/
structure Hears (k : Sinks τ) (memory : τ) (ns : List SourceNote) (ran : Decompiler.Ran σ α)
    (heard : Decompiler.Ran (σ × τ) α) : Prop where
  answer : heard.1 = ran.1
  now : heard.2.now = ran.2.now
  state : heard.2.state = (ran.2.state, ns.foldl k.hear memory)

section

variable (k : Sinks τ) (memory : τ) (start : Decompiler.SourceWorld σ) {ns : List SourceNote}

theorem echoes_start :
    k.Echoes (Decompiler.notes start) memory start (start.beside memory) :=
  ⟨rfl, rfl, [], (List.append_nil _).symm, rfl⟩

variable {k memory start}

theorem EchoesAs.hears {m : Decompiler.Ran σ α} {m' : Decompiler.Ran (σ × τ) α}
    (h : k.EchoesAs (Decompiler.notes start) memory m m')
    (hns : Decompiler.notes m.2 = Decompiler.notes start ++ ns) : k.Hears memory ns m m' := by
  obtain ⟨ns', hns', hmemory⟩ := h.world.heard
  have hsame : ns' = ns := List.append_cancel_left (hns'.symm.trans hns)
  refine ⟨h.answer, h.world.now, Prod.ext h.world.state ?_⟩
  rw [hmemory, hsame]

variable (k memory) (t : Decompiler.Transport σ) (limits : Decompiler.Limits) (w : Window)

theorem hears_poll (job : String)
    (hns : Decompiler.notes (Decompiler.poll t limits w job start).2 =
      Decompiler.notes start ++ ns) :
    k.Hears memory ns (Decompiler.poll t limits w job start)
      (Decompiler.pollBy (tell k.client) (t.beside τ) limits w job (start.beside memory)) := by
  rw [← Decompiler.pollBy_note] at hns ⊢
  exact ((k.echoes_start memory start).poll t limits w job).hears hns

theorem hears_submit (code : String)
    (hns : Decompiler.notes (Decompiler.submit t limits w code start).2 =
      Decompiler.notes start ++ ns) :
    k.Hears memory ns (Decompiler.submit t limits w code start)
      (Decompiler.submitBy (tell k.client) (t.beside τ) limits w code (start.beside memory)) := by
  rw [← Decompiler.submitBy_note] at hns ⊢
  exact ((k.echoes_start memory start).submit t limits w code).hears hns

theorem hears_resolve (explorer : Address → Ask σ (Except AuditError (Option VerifiedSource)))
    (bytecode : Address → Ask σ (Except AuditError String)) (address : Address)
    (hns : Decompiler.notes (Resolver.resolve ⟨explorer, bytecode, .service t limits⟩ w address start).2 =
      Decompiler.notes start ++ ns) :
    k.Hears memory ns (Resolver.resolve ⟨explorer, bytecode, .service t limits⟩ w address start)
      (Resolver.resolveBy (tell k.client) (tell k.own) (fun a => (explorer a).beside τ)
        (fun a => (bytecode a).beside τ) (t.beside τ) limits w address (start.beside memory)) := by
  rw [← Resolver.resolveBy_note] at hns ⊢
  exact ((k.echoes_start memory start).resolve t limits w address explorer bytecode).hears hns

end

end Sinks

end TokenAudit
