import TokenAudit.Proofs.Wait.TimeLimit
import TokenAudit.Source.Resolver

/-! The search for a contract's source waits, asks and notes, and does nothing else: what it finds
under a time limit is what it would find alone, if it ends by then. -/

namespace TokenAudit

open World (Regular)

namespace Decompiler

variable {σ : Type}

theorem sameMoment_note (world : SourceWorld σ) (n : SourceNote) :
    (note world n).SameMoment world := World.sameMoment_record world _

theorem sameMoment_notes (world : SourceWorld σ) (ns : List SourceNote) :
    (ns.foldl note world).SameMoment world := by
  induction ns generalizing world with
  | nil => exact .rfl
  | cons n ns ih => exact (ih (note world n)).trans (sameMoment_note world n)

def afterCut (limits : Limits) (output : List Char) (world : SourceWorld σ) : SourceWorld σ :=
  if limits.maxOutputChars < output.length then
    note world (.truncated output.length limits.maxOutputChars)
  else world

theorem bounded_eq (limits : Limits) (world : SourceWorld σ) (output : List Char) :
    bounded limits world output = (String.ofList (truncateText output limits.maxOutputChars),
      afterCut limits output world) := by
  unfold bounded afterCut
  split <;> rfl

theorem sameMoment_afterCut (limits : Limits) (output : List Char) (world : SourceWorld σ) :
    (afterCut limits output world).SameMoment world := by
  unfold afterCut
  split
  · exact sameMoment_note world _
  · exact .rfl

/-! ### Polling -/

def onStatus (t : Transport σ) (limits : Limits) (w : Window) (job : String) (left : Nat)
    (b : Budget) (answer : Except AuditError Response) (world : SourceWorld σ) :
    Ran σ (Except AuditError String) :=
  match judge answer with
  | (some output, _) =>
    (some (.ok (String.ofList (truncateText output limits.maxOutputChars))),
      afterCut limits output (note world (.pollReady b.attempts)))
  | (none, notes) => pollFrom t limits w job left b (notes.foldl note world)

theorem pollFrom_succ (t : Transport σ) (limits : Limits) (w : Window) (job : String) (left : Nat)
    {b c : Budget} (hb : b.begin? = some c) (world : SourceWorld σ) :
    pollFrom t limits w job (left + 1) b world =
      World.andThen ((note world (.pollAttempt c.attempts c.maxAttempts)).rest w
        c.intervalMs.toNat) fun woken world =>
          if woken = .cancelled then (some (.error (.cancelled "decompilation poll")), world)
          else World.andThen ((world.record (.statusAsked job)).ask w (t.jobStatus job))
            (onStatus t limits w job left c) := by
  simp only [pollFrom, hb, World.rest, bounded_eq]
  rcases (note world (.pollAttempt c.attempts c.maxAttempts)).sleep w c.intervalMs.toNat with
    ⟨_ | _ | _, world⟩
  · simp only [World.andThen, reduceCtorEq, if_false]
    rcases (world.record (.statusAsked job)).ask w (t.jobStatus job) with ⟨_ | answer, world⟩
    · rfl
    · rfl
  · rfl
  · rfl

theorem regular_pollFrom (t : Transport σ) (limits : Limits) (job : String) (left : Nat)
    (b : Budget) : Regular fun w world => pollFrom t limits w job left b world := by
  induction left generalizing b with
  | zero => exact .ended _ fun world => sameMoment_note world _
  | succ left ih =>
    cases hb : b.begin? with
    | none =>
      simp only [pollFrom, hb]
      exact .ended _ fun world => sameMoment_note world _
    | some c =>
      have hstatus : ∀ answer, Regular fun w world => onStatus t limits w job left c answer world := by
        intro answer
        unfold onStatus
        rcases judge answer with ⟨_ | output, notes⟩
        · exact (ih c).after fun world => sameMoment_notes world notes
        · exact .ended _ fun world =>
            (sameMoment_afterCut limits output _).trans (sameMoment_note world _)
      refine .congr (.andThen ((Regular.rest _).after fun world => sameMoment_note world _)
        fun woken => ?_) fun w world => pollFrom_succ t limits w job left hb world
      by_cases hwoken : woken = .cancelled
      · simp only [hwoken, if_true]
        exact .ended _ fun _ => .rfl
      · simp only [hwoken, if_false]
        exact .andThen ((Regular.ask _).after fun world => World.sameMoment_record world _) hstatus

/-! ### A decompilation -/

theorem regular_completed (text : String) :
    Regular fun _ (world : SourceWorld σ) => completed text world :=
  .ended _ fun world => sameMoment_note world _

def onPolled (answer : Except AuditError String) (world : SourceWorld σ) :
    Ran σ (Except AuditError String) :=
  match answer with
  | .ok text => completed text world
  | .error e => (some (.error e), world)

theorem follow_of_job {r : Response} {job : String} (hp : r.isPending = true)
    (hj : r.job? = some job) (t : Transport σ) (limits : Limits) (w : Window) (world : SourceWorld σ) :
    follow t limits w r world =
      World.andThen (poll t limits w job (note world (.jobPending job))) onPolled := by
  simp only [follow, hp, hj, if_true]
  rcases poll t limits w job (note world (.jobPending job)) with ⟨_ | _ | text, world⟩ <;> rfl

theorem follow_of_whole {r : Response} (hp : r.isPending = false) (t : Transport σ) (limits : Limits)
    (w : Window) (world : SourceWorld σ) :
    follow t limits w r world =
      completed (String.ofList (truncateText r.output limits.maxOutputChars))
        (afterCut limits r.output world) := by
  simp only [follow, hp, Bool.false_eq_true, if_false, bounded_eq]

theorem regular_follow (t : Transport σ) (limits : Limits) (r : Response) :
    Regular fun w world => follow t limits w r world := by
  cases hp : r.isPending with
  | true =>
    cases hj : r.job? with
    | none =>
      simp only [follow, hp, hj, if_true]
      exact .ended _ fun _ => .rfl
    | some job =>
      refine .congr (.andThen ?_ fun answer => ?_) fun w world => follow_of_job hp hj t limits w world
      · exact (regular_pollFrom t limits job _ _).after fun world => sameMoment_note world _
      · cases answer with
        | ok text => exact regular_completed text
        | error e => exact .ended _ fun _ => .rfl
  | false =>
    refine .congr ?_ fun w world => follow_of_whole hp t limits w world
    exact (regular_completed _).after fun world => sameMoment_afterCut limits r.output world

def onSubmitted (t : Transport σ) (limits : Limits) (w : Window)
    (answer : Except AuditError Response) (world : SourceWorld σ) :
    Ran σ (Except AuditError String) :=
  match answer with
  | .error e => (some (.error e), note world (.networkError e))
  | .ok r =>
    if r.isSuccess then follow t limits w r world
    else
      (some (.error (.upstream "decompiler" r.status
          s!"API returned {r.status.toNat}: {r.reason}")),
        note world (.apiError r.status r.reason))

theorem regular_onSubmitted (t : Transport σ) (limits : Limits)
    (answer : Except AuditError Response) :
    Regular fun w world => onSubmitted t limits w answer world := by
  unfold onSubmitted
  cases answer with
  | error e => exact .ended _ fun world => sameMoment_note world _
  | ok r =>
    by_cases hr : r.isSuccess = true
    · simp only [hr, if_true]
      exact regular_follow t limits r
    · simp only [hr, if_false, Bool.false_eq_true]
      exact .ended _ fun world => sameMoment_note world _

def handedIn (digits : List Char) (world : SourceWorld σ) : SourceWorld σ :=
  (note world (.submitting digits.length)).record (.submitted (String.ofList digits))

theorem sameMoment_handedIn (digits : List Char) (world : SourceWorld σ) :
    (handedIn digits world).SameMoment world :=
  (World.sameMoment_record _ _).trans (sameMoment_note world _)

theorem submit_of_error {bytecode : String} {e : AuditError}
    (h : Bytecode.submission bytecode = .error e) (t : Transport σ) (limits : Limits) (w : Window)
    (world : SourceWorld σ) : submit t limits w bytecode world = (some (.error e), world) := by
  rw [submit, h]

theorem submit_of_ok {bytecode : String} {digits : List Char}
    (h : Bytecode.submission bytecode = .ok digits) (t : Transport σ) (limits : Limits) (w : Window)
    (world : SourceWorld σ) :
    submit t limits w bytecode world =
      World.andThen ((handedIn digits world).ask w (t.submit (String.ofList digits)))
        (onSubmitted t limits w) := by
  rw [submit, h]
  dsimp only
  rw [← handedIn]
  rcases (handedIn digits world).ask w (t.submit (String.ofList digits)) with ⟨_ | _ | r, world⟩ <;> rfl

theorem regular_submit (t : Transport σ) (limits : Limits) (bytecode : String) :
    Regular fun w world => submit t limits w bytecode world := by
  cases hs : Bytecode.submission bytecode with
  | error e =>
    exact .congr (.ended (.error e) fun _ => .rfl) fun w world => submit_of_error hs t limits w world
  | ok digits =>
    refine .congr (.andThen ?_ fun answer => regular_onSubmitted t limits answer) fun w world =>
      submit_of_ok hs t limits w world
    exact (Regular.ask (t.submit (String.ofList digits))).after (sameMoment_handedIn digits)

theorem regular_decompile (d : Decompiler σ) (bytecode : String) :
    Regular fun w world => d.decompile w bytecode world := by
  cases d with
  | service t limits => exact regular_submit t limits bytecode
  | answering ask =>
    refine .after (f := fun w world =>
        world.ask w (ask bytecode (w.cancelAt.map fun t => t - world.now)))
      (.askAt (fun cancelAt world => ask bytecode (cancelAt.map fun t => t - world.now))
        fun c u v h => by rw [h.now]) fun world => World.sameMoment_record world _

end Decompiler

namespace Resolver

open Decompiler (SourceWorld Ran note sameMoment_note)

variable {σ : Type}

theorem regular_conclude (address : Address) (answer : Except AuditError String) :
    Regular fun _ (world : SourceWorld σ) => conclude address world answer := by
  unfold conclude exhausted
  cases answer with
  | error e => exact .ended _ fun world => (sameMoment_note _ _).trans (sameMoment_note world _)
  | ok text =>
    by_cases hblank : isBlankText text = true
    · simp only [hblank, if_true]
      exact .ended _ fun world => (sameMoment_note _ _).trans (sameMoment_note world _)
    · simp only [hblank, if_false, Bool.false_eq_true]
      exact .ended _ fun world => sameMoment_note world _

def onBytecode (r : Resolver σ) (w : Window) (address : Address) (answer : Except AuditError String)
    (world : SourceWorld σ) : Ran σ SourceResult :=
  match answer with
  | .error e => exhausted (note world (.bytecodeFailed e))
  | .ok code =>
    if Bytecode.isTrivial code then (some .absent, note world (.noBytecode address))
    else World.andThen (r.decompiler.decompile w code world) fun answer world =>
      conclude address world answer

theorem fromBytecode_eq (r : Resolver σ) (w : Window) (address : Address) (world : SourceWorld σ) :
    r.fromBytecode w address world =
      World.andThen (((note world (.unverified address)).record (.bytecodeAsked address)).ask w
        (r.bytecode address)) (r.onBytecode w address) := by
  unfold fromBytecode
  dsimp only
  rcases ((note world (.unverified address)).record (.bytecodeAsked address)).ask w
    (r.bytecode address) with ⟨_ | _ | code, world⟩
  · rfl
  · rfl
  · simp only [World.andThen, onBytecode]
    split
    · rfl
    · rcases r.decompiler.decompile w code world with ⟨_ | answer, world⟩ <;> rfl

theorem regular_onBytecode (r : Resolver σ) (address : Address) (answer : Except AuditError String) :
    Regular fun w world => r.onBytecode w address answer world := by
  unfold onBytecode
  cases answer with
  | error e =>
    exact .ended _ fun world => (sameMoment_note _ _).trans (sameMoment_note world _)
  | ok code =>
    by_cases htrivial : Bytecode.isTrivial code = true
    · simp only [htrivial, if_true]
      exact .ended _ fun world => sameMoment_note world _
    · simp only [htrivial, if_false, Bool.false_eq_true]
      exact .andThen (Decompiler.regular_decompile r.decompiler code) fun answer =>
        regular_conclude address answer

theorem regular_fromBytecode (r : Resolver σ) (address : Address) :
    Regular fun w world => r.fromBytecode w address world :=
  .congr (.andThen ((Regular.ask (r.bytecode address)).after fun world =>
    (World.sameMoment_record _ (.bytecodeAsked address)).trans
      (sameMoment_note world (.unverified address))) fun answer =>
        r.regular_onBytecode address answer) fun w world => r.fromBytecode_eq w address world

def onExplored (r : Resolver σ) (w : Window) (address : Address)
    (answer : Except AuditError (Option VerifiedSource)) (world : SourceWorld σ) :
    Ran σ SourceResult :=
  match accepted answer with
  | some v =>
    (some (.verified v.source v.contractName), note world (.verifiedFound address v.contractName))
  | none =>
    match answer with
    | .error e => fromBytecode r w address (note world (.lookupFailed address e))
    | .ok _ => fromBytecode r w address world

theorem resolve_eq (r : Resolver σ) (w : Window) (address : Address) (world : SourceWorld σ) :
    r.resolve w address world =
      World.andThen ((world.record (.explorerAsked address)).ask w (r.explorer address))
        (r.onExplored w address) := by
  unfold resolve
  rcases (world.record (.explorerAsked address)).ask w (r.explorer address) with
    ⟨_ | answer, world⟩ <;> rfl

theorem regular_onExplored (r : Resolver σ) (address : Address)
    (answer : Except AuditError (Option VerifiedSource)) :
    Regular fun w world => r.onExplored w address answer world := by
  unfold onExplored
  cases accepted answer with
  | some v => exact .ended _ fun world => sameMoment_note world _
  | none =>
    cases answer with
    | error e => exact (r.regular_fromBytecode address).after fun world => sameMoment_note world _
    | ok found => exact r.regular_fromBytecode address

theorem regular_resolve (r : Resolver σ) (address : Address) :
    Regular fun w world => r.resolve w address world :=
  .congr (.andThen ((Regular.ask (r.explorer address)).after fun world =>
    World.sameMoment_record world (.explorerAsked address)) fun answer =>
      r.regular_onExplored address answer) fun w world => r.resolve_eq w address world

end Resolver

end TokenAudit
