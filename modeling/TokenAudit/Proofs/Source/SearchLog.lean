import TokenAudit.Proofs.Source.PollLog
import TokenAudit.Proofs.Source.Sinks

/-! What the log tells of a search for a source. Every line is under the tag of its origin; the poll is
told of attempt by attempt; and a search without a source tells that it has been through all ways, or
that there is no code. -/

namespace TokenAudit

open SourceNote (decompilerTag explorerTag)

namespace Resolver

open Decompiler (SourceWorld Ran note notes notes_note notes_record notes_of_ask TellsOfPolling
  tells_of_unpolled)

variable {σ : Type}

def noBytecodeLine (address : Address) : String :=
  decompilerTag ++ " " ++ s!"No bytecode at {address.checksummed} (EOA or self-destructed)"

def exhaustedLine : String :=
  decompilerTag ++ " " ++ "All source retrieval methods exhausted, AI will be skipped"

def FoundNothing (result : Option SourceResult) : Prop :=
  ∃ x, result = some x ∧ x.isAvailable = false

section

variable (r : Resolver σ) (w : Window) (address : Address)

def Gives (before : SourceWorld σ) (code : String) (fetched : SourceWorld σ) : Prop :=
  ((note before (.unverified address)).record (.bytecodeAsked address)).ask w (r.bytecode address) =
    (some (.ok code), fetched)

inductive TurnsToNode (start : SourceWorld σ) : SourceWorld σ → Prop
  | unverified (found : Option VerifiedSource) (explored : SourceWorld σ)
    (hask : (start.record (.explorerAsked address)).ask w (r.explorer address) =
      (some (.ok found), explored))
    (hno : accepted (.ok found) = none) : TurnsToNode start explored
  | failed (e : AuditError) (explored : SourceWorld σ)
    (hask : (start.record (.explorerAsked address)).ask w (r.explorer address) =
      (some (.error e), explored)) : TurnsToNode start (note explored (.lookupFailed address e))

def LacksCode (start : SourceWorld σ) : Prop :=
  ∃ before code fetched, r.TurnsToNode w address start before ∧
    r.Gives w address before code fetched ∧ Bytecode.isTrivial code = true

def PollsFor (t : Decompiler.Transport σ) (start : SourceWorld σ) (job : String)
    (polling : SourceWorld σ) : Prop :=
  ∃ before code fetched, r.TurnsToNode w address start before ∧
    r.Gives w address before code fetched ∧ Bytecode.isTrivial code = false ∧
    Decompiler.PollsFor t w code fetched job polling

end

/-- What the log of a search tells: of the poll, whether nothing has been found, and whether that is
so for want of code. -/
structure SearchTold (t : Decompiler.Transport σ) (limits : Decompiler.Limits) (w : Window)
    (address : Address) (polled : String → SourceWorld σ → Prop) (lacking : Prop)
    (result : Option SourceResult) (logged : List String) : Prop where
  polling : TellsOfPolling t limits w polled logged
  exhausted : Topic.exhausted.ToldIff exhaustedLine (FoundNothing result ∧ ¬lacking) logged
  noBytecode : Topic.noBytecode.ToldIff (noBytecodeLine address) lacking logged
  absent : lacking → result = some .absent

section

variable {t : Decompiler.Transport σ} {limits : Decompiler.Limits} {w : Window} {address : Address}
  {polled : String → SourceWorld σ → Prop} {lacking : Prop} {result : Option SourceResult}

theorem SearchTold.congr {logged more : List String}
    (h : SearchTold t limits w address polled lacking result logged)
    (hsame : ∀ k : Topic, k.among more = k.among logged) :
    SearchTold t limits w address polled lacking result more where
  polling := h.polling.congr (hsame .attempt) (hsame .timeout)
  exhausted := h.exhausted.congr (hsame .exhausted)
  noBytecode := h.noBytecode.congr (hsame .noBytecode)
  absent := h.absent

theorem SearchTold.cons {n : SourceNote} {ns : List SourceNote} (hn : n.topic? = none)
    (h : SearchTold t limits w address polled lacking result (ns.map SourceNote.line)) :
    SearchTold t limits w address polled lacking result ((n :: ns).map SourceNote.line) :=
  h.congr fun k => k.among_cons_of_ne ns (by simp [hn])

theorem topic_of_client {n : SourceNote} (h : n.ofClient = true) :
    n.topic? ≠ some .exhausted ∧ n.topic? ≠ some .noBytecode := by
  cases n with
  | noBytecode | exhausted => cases h
  | _ => exact ⟨nofun, nofun⟩

theorem searchTold_open (ns more : List SourceNote) (hlacking : ¬lacking)
    (hpolling : TellsOfPolling t limits w polled (ns.map SourceNote.line))
    (hns : ∀ n ∈ ns, n.ofClient = true) (hmore : ∀ n ∈ more, n.topic? = none)
    (hresult : ¬FoundNothing result) :
    SearchTold t limits w address polled lacking result ((ns ++ more).map SourceNote.line) := by
  have hsame : ∀ k : Topic, k.among ((ns ++ more).map SourceNote.line) =
      k.among (ns.map SourceNote.line) := fun k => k.among_around (List.forall_mem_nil _) ns hmore
  refine SearchTold.congr ⟨hpolling, ?_, ?_, fun h => absurd h hlacking⟩ hsame
  · refine Topic.toldIff_of_not (fun h => hresult h.1) ?_
    exact Topic.among_eq_nil _ fun n hn => (topic_of_client (hns n hn)).1
  · refine Topic.toldIff_of_not hlacking ?_
    exact Topic.among_eq_nil _ fun n hn => (topic_of_client (hns n hn)).2

theorem searchTold_exhausted (ns : List SourceNote) {n : SourceNote} (hlacking : ¬lacking)
    (hpolling : TellsOfPolling t limits w polled (ns.map SourceNote.line))
    (hns : ∀ n ∈ ns, n.ofClient = true) (hn : n.topic? = none) :
    SearchTold t limits w address polled lacking (some .absent)
      ((ns ++ [n, .exhausted]).map SourceNote.line) := by
  have hsplit : ∀ k : Topic, k.among ((ns ++ [n, .exhausted]).map SourceNote.line) =
      k.among (ns.map SourceNote.line) ++ k.among ([.exhausted].map SourceNote.line) := by
    intro k
    rw [List.map_append, Topic.among_append, k.among_cons_of_ne [.exhausted] (by simp [hn])]
  have hother : ∀ k : Topic, k ≠ .exhausted →
      k.among ((ns ++ [n, .exhausted]).map SourceNote.line) = k.among (ns.map SourceNote.line) := by
    intro k hk
    have hnone : k.among ([SourceNote.exhausted].map SourceNote.line) = [] :=
      k.among_cons_of_ne [] fun h => hk (Option.some.inj h).symm
    rw [hsplit, hnone, List.append_nil]
  have hnoBytecode : Topic.noBytecode.among (ns.map SourceNote.line) = [] :=
    Topic.among_eq_nil _ fun n hn => (topic_of_client (hns n hn)).2
  have hexhausted : Topic.exhausted.among (ns.map SourceNote.line) = [] :=
    Topic.among_eq_nil _ fun n hn => (topic_of_client (hns n hn)).1
  refine ⟨hpolling.congr (hother _ (by decide)) (hother _ (by decide)), ?_, ?_,
    fun h => absurd h hlacking⟩
  · refine Topic.toldIff_of ⟨⟨_, rfl, rfl⟩, hlacking⟩ ?_
    rw [hsplit, hexhausted, Topic.among_lines]
    rfl
  · exact Topic.toldIff_of_not hlacking ((hother _ (by decide)).trans hnoBytecode)

theorem searchTold_lacking (hlacking : lacking) (hno : ∀ job start, ¬polled job start)
    {n : SourceNote} (hn : n.topic? = none) :
    SearchTold t limits w address polled lacking (some .absent)
      ([n, .noBytecode address].map SourceNote.line) := by
  have hother : ∀ k : Topic, k ≠ .noBytecode →
      k.among ([n, .noBytecode address].map SourceNote.line) = [] := by
    intro k hk
    have hlast : k.among ([SourceNote.noBytecode address].map SourceNote.line) = [] :=
      k.among_cons_of_ne (n := .noBytecode address) [] fun h => hk (Option.some.inj h).symm
    rw [k.among_cons_of_ne _ (by simp [hn]), hlast]
  refine ⟨?_, ?_, ?_, fun _ => rfl⟩
  · have hunpolled : TellsOfPolling t limits w polled (([] : List SourceNote).map SourceNote.line) :=
      tells_of_unpolled hno (List.forall_mem_nil _)
    exact hunpolled.congr (hother _ (by decide)) (hother _ (by decide))
  · exact Topic.toldIff_of_not (fun h => h.2 hlacking) (hother _ (by decide))
  · refine Topic.toldIff_of hlacking ?_
    rw [Topic.among_cons_of_ne _ _ (by simp [hn]), Topic.among_lines]
    rfl

end

theorem not_foundNothing_none : ¬FoundNothing none := by
  rintro ⟨x, hx, -⟩
  cases hx

theorem not_foundNothing {x : SourceResult} (h : x.isAvailable = true) : ¬FoundNothing (some x) := by
  rintro ⟨y, hy, hno⟩
  cases hy
  exact absurd h (Bool.eq_false_iff.mp hno)

theorem conclude_cases (address : Address) (answer : Except AuditError String) :
    (∃ n : SourceNote, n.topic? = none ∧ ∀ world : SourceWorld σ,
      conclude address world answer = exhausted (note world n)) ∨
    ∃ (x : SourceResult) (n : SourceNote), x.isAvailable = true ∧ n.topic? = none ∧
      ∀ world : SourceWorld σ, conclude address world answer = (some x, note world n) := by
  rcases answer with e | text
  · exact .inl ⟨.decompilationFailed e, rfl, fun _ => rfl⟩
  · by_cases hblank : isBlankText text = true
    · exact .inl ⟨.emptyOutput, rfl, fun world => by simp only [conclude, hblank, if_true]⟩
    · refine .inr ⟨.decompiled address text,
        .decompiledAs address (decompiledName address) text.toList.length, rfl, rfl, fun world => ?_⟩
      simp only [conclude, hblank, if_false, Bool.false_eq_true]
      rfl

theorem told_concluded {t : Decompiler.Transport σ} {limits : Decompiler.Limits} {w : Window}
    {polled : String → SourceWorld σ → Prop} {lacking : Prop} {ns : List SourceNote}
    (address : Address) (ran : Ran σ (Except AuditError String)) (hlacking : ¬lacking)
    (hpolling : TellsOfPolling t limits w polled (ns.map SourceNote.line))
    (hns : ∀ n ∈ ns, n.ofClient = true) :
    let concluded := World.andThen ran fun answer world => conclude address world answer
    ∃ more, notes concluded.2 = notes ran.2 ++ more ∧
      SearchTold t limits w address polled lacking concluded.1
        ((ns ++ more).map SourceNote.line) := by
  intro concluded
  rcases ran with ⟨_ | answer, world⟩
  · exact ⟨[], (List.append_nil _).symm, searchTold_open ns _ hlacking hpolling hns
      (List.forall_mem_nil _) not_foundNothing_none⟩
  · rcases conclude_cases (σ := σ) address answer with ⟨n, hn, hran⟩ | ⟨x, n, hx, hn, hran⟩
    · have hconcluded : concluded = exhausted (note world n) := hran world
      rw [hconcluded]
      refine ⟨[n, .exhausted], ?_, searchTold_exhausted ns hlacking hpolling hns hn⟩
      simp only [exhausted, notes_note, List.append_assoc]
      rfl
    · have hconcluded : concluded = (some x, note world n) := hran world
      rw [hconcluded]
      exact ⟨[n], notes_note world n, searchTold_open ns _ hlacking hpolling hns
        (List.forall_mem_singleton.mpr hn) (not_foundNothing hx)⟩

theorem told_decompiled (t : Decompiler.Transport σ) (limits : Decompiler.Limits) (w : Window)
    (address : Address) (code : String) (fetched : SourceWorld σ) {lacking : Prop}
    (hlacking : ¬lacking) :
    let concluded := World.andThen (Decompiler.submit t limits w code fetched) fun answer world =>
      conclude address world answer
    ∃ ns, notes concluded.2 = notes fetched ++ ns ∧
      SearchTold t limits w address (Decompiler.PollsFor t w code fetched) lacking concluded.1
        (ns.map SourceNote.line) := by
  obtain ⟨ns, hns, hclient, hpolling⟩ := Decompiler.told_submit t limits w code fetched
  obtain ⟨more, hmore, htells⟩ := told_concluded address
    (Decompiler.submit t limits w code fetched) hlacking hpolling hclient
  refine ⟨ns ++ more, ?_, htells⟩
  rw [hmore, hns, List.append_assoc]

section

variable {r : Resolver σ} {t : Decompiler.Transport σ} {limits : Decompiler.Limits} {w : Window}
  {address : Address}

theorem told_fromBytecode (hd : r.decompiler = .service t limits) (before : SourceWorld σ)
    {polled : String → SourceWorld σ → Prop} {lacking : Prop}
    (hpolled : ∀ job polling, polled job polling ↔ ∃ code fetched,
      r.Gives w address before code fetched ∧ Bytecode.isTrivial code = false ∧
        Decompiler.PollsFor t w code fetched job polling)
    (hlacking : lacking ↔ ∃ code fetched, r.Gives w address before code fetched ∧
      Bytecode.isTrivial code = true) :
    ∃ ns, notes (r.fromBytecode w address before).2 = notes before ++ ns ∧
      SearchTold t limits w address polled lacking (r.fromBytecode w address before).1
        (ns.map SourceNote.line) := by
  rw [fromBytecode_eq]
  rcases hask : ((note before (.unverified address)).record (.bytecodeAsked address)).ask w
    (r.bytecode address) with ⟨answer, fetched⟩
  have hgives : ∀ code f, r.Gives w address before code f ↔ answer = some (.ok code) ∧ fetched = f := by
    intro code f
    rw [Gives, hask, Prod.mk.injEq]
  have hfetched : notes fetched = notes before ++ [.unverified address] := by
    rw [notes_of_ask hask, notes_record _ rfl, notes_note]
  simp only [hgives] at hpolled hlacking
  rcases answer with _ | e | code
  · rw [World.andThen_none]
    refine ⟨[.unverified address], hfetched, SearchTold.cons rfl ?_⟩
    exact searchTold_open [] [] (by simp [hlacking])
      (tells_of_unpolled (by simp [hpolled]) (List.forall_mem_nil _)) (List.forall_mem_nil _)
      (List.forall_mem_nil _) not_foundNothing_none
  · refine ⟨[.unverified address, .bytecodeFailed e, .exhausted], ?_, SearchTold.cons rfl ?_⟩
    · simp only [World.andThen_some, onBytecode, exhausted, notes_note, hfetched, List.append_assoc]
      rfl
    · exact searchTold_exhausted [] (by simp [hlacking])
        (tells_of_unpolled (by simp [hpolled]) (List.forall_mem_nil _)) (List.forall_mem_nil _) rfl
  · rw [World.andThen_some]
    simp only [onBytecode]
    by_cases htrivial : Bytecode.isTrivial code = true
    · rw [if_pos htrivial]
      refine ⟨[.unverified address, .noBytecode address], ?_, ?_⟩
      · rw [notes_note, hfetched, List.append_assoc]
        rfl
      · exact searchTold_lacking (by simp [hlacking, htrivial]) (by simp [hpolled, htrivial]) rfl
    · rw [if_neg htrivial, hd, Decompiler.decompile]
      have hsame : polled = Decompiler.PollsFor t w code fetched := by
        funext job polling
        refine propext ((hpolled job polling).trans ⟨?_, fun hpolls => ?_⟩)
        · rintro ⟨_, _, ⟨hcode, rfl⟩, -, hpolls⟩
          cases hcode
          exact hpolls
        · exact ⟨code, fetched, ⟨rfl, rfl⟩, Bool.eq_false_iff.mpr htrivial, hpolls⟩
      have hgiven : ¬lacking := by simp [hlacking, htrivial]
      obtain ⟨ns, hns, htells⟩ := told_decompiled t limits w address code fetched hgiven
      rw [← hsame] at htells
      refine ⟨.unverified address :: ns, ?_, SearchTold.cons rfl htells⟩
      rw [hns, hfetched, List.append_assoc]
      rfl

theorem TurnsToNode.unique {start before before' : SourceWorld σ}
    (h : r.TurnsToNode w address start before) (h' : r.TurnsToNode w address start before') :
    before = before' := by
  cases h with
  | unverified found explored hask =>
    cases h' with
    | unverified found' explored' hask' =>
      cases hask.symm.trans hask'
      rfl
    | failed e explored' hask' => cases hask.symm.trans hask'
  | failed e explored hask =>
    cases h' with
    | unverified found' explored' hask' => cases hask.symm.trans hask'
    | failed e' explored' hask' =>
      cases hask.symm.trans hask'
      rfl

theorem told_of_turns (hd : r.decompiler = .service t limits) {start before : SourceWorld σ}
    (h : r.TurnsToNode w address start before) :
    ∃ ns, notes (r.fromBytecode w address before).2 = notes before ++ ns ∧
      SearchTold t limits w address (r.PollsFor w address t start) (r.LacksCode w address start)
        (r.fromBytecode w address before).1 (ns.map SourceNote.line) := by
  refine told_fromBytecode hd before (fun job polling => ⟨?_, ?_⟩) ⟨?_, ?_⟩
  · rintro ⟨before', code, fetched, hturns, hgives, hcode, hpolls⟩
    cases h.unique hturns
    exact ⟨code, fetched, hgives, hcode, hpolls⟩
  · rintro ⟨code, fetched, hgives, hcode, hpolls⟩
    exact ⟨before, code, fetched, h, hgives, hcode, hpolls⟩
  · rintro ⟨before', code, fetched, hturns, hgives, hcode⟩
    cases h.unique hturns
    exact ⟨code, fetched, hgives, hcode⟩
  · rintro ⟨code, fetched, hgives, hcode⟩
    exact ⟨before, code, fetched, h, hgives, hcode⟩

theorem searchTold_of_no_turn {start : SourceWorld σ}
    (h : ∀ before, ¬r.TurnsToNode w address start before) {result : Option SourceResult}
    (hresult : ¬FoundNothing result) {ns : List SourceNote} (hns : ∀ n ∈ ns, n.topic? = none) :
    SearchTold t limits w address (r.PollsFor w address t start) (r.LacksCode w address start) result
      (ns.map SourceNote.line) := by
  have hunpolled : ∀ job polling, ¬r.PollsFor w address t start job polling := by
    rintro job polling ⟨before, code, fetched, hturns, -⟩
    exact h before hturns
  have hgiven : ¬r.LacksCode w address start := by
    rintro ⟨before, code, fetched, hturns, -⟩
    exact h before hturns
  exact searchTold_open [] ns hgiven (tells_of_unpolled hunpolled (List.forall_mem_nil _))
    (List.forall_mem_nil _) hns hresult

variable (r w address) in
theorem told_resolve (hd : r.decompiler = .service t limits) (start : SourceWorld σ) :
    ∃ ns, notes (r.resolve w address start).2 = notes start ++ ns ∧
      SearchTold t limits w address (r.PollsFor w address t start) (r.LacksCode w address start)
        (r.resolve w address start).1 (ns.map SourceNote.line) := by
  rw [resolve_eq]
  rcases hask : (start.record (.explorerAsked address)).ask w (r.explorer address) with
    ⟨answer, explored⟩
  have hexplored : notes explored = notes start := by
    rw [notes_of_ask hask, notes_record _ rfl]
  rcases answer with _ | answer
  · have hno : ∀ before, ¬r.TurnsToNode w address start before := by
      rintro before (⟨_, _, hask', -⟩ | ⟨_, _, hask'⟩) <;> cases hask.symm.trans hask'
    exact ⟨[], hexplored.trans (List.append_nil _).symm,
      searchTold_of_no_turn hno not_foundNothing_none (List.forall_mem_nil _)⟩
  simp only [World.andThen, onExplored]
  cases haccepted : accepted answer with
  | some v =>
    have hno : ∀ before, ¬r.TurnsToNode w address start before := by
      rintro before (⟨_, _, hask', hno⟩ | ⟨_, _, hask'⟩)
      · cases hask.symm.trans hask'
        cases haccepted.symm.trans hno
      · cases hask.symm.trans hask'
        cases haccepted
    refine ⟨[.verifiedFound address v.contractName], ?_,
      searchTold_of_no_turn hno (not_foundNothing rfl) (List.forall_mem_singleton.mpr rfl)⟩
    rw [notes_note, hexplored]
  | none =>
    cases answer with
    | error e =>
      obtain ⟨ns, hns, htells⟩ := told_of_turns hd (.failed e explored hask)
      refine ⟨.lookupFailed address e :: ns, ?_, htells.cons rfl⟩
      change notes (r.fromBytecode w address (note explored (.lookupFailed address e))).2 = _
      rw [hns, notes_note, hexplored, List.append_assoc]
      rfl
    | ok found =>
      obtain ⟨ns, hns, htells⟩ := told_of_turns hd (.unverified found explored hask haccepted)
      exact ⟨ns, hns.trans (congrArg (· ++ ns) hexplored), htells⟩

end

end Resolver

/-! ### What the log tells -/

namespace Decompiler

variable {σ τ : Type}

/-- The lines logged from one world to another, as the notes that they are made from: each is under one
of the two tags, and each of the client under its own. -/
structure Logged (start after : SourceWorld σ) (ns : List SourceNote) : Prop where
  lines : lines after = lines start ++ ns.map SourceNote.line
  tagged : ∀ n ∈ ns, ∃ message,
    n.line = decompilerTag ++ " " ++ message ∨ n.line = explorerTag ++ " " ++ message
  client : ∀ n ∈ ns, n.ofClient = true → ∃ message, n.line = decompilerTag ++ " " ++ message

theorem logged_of_notes {start after : SourceWorld σ} {ns : List SourceNote}
    (h : notes after = notes start ++ ns) : Logged start after ns where
  lines := by rw [lines, lines, h, List.map_append]
  tagged n _ := by
    refine ⟨n.message, ?_⟩
    cases n with
    | verifiedFound | lookupFailed => exact .inr rfl
    | _ => exact .inl rfl
  client n _ hn := by
    refine ⟨n.message, ?_⟩
    cases n with
    | verifiedFound | lookupFailed => cases hn
    | _ => rfl

theorem tells_poll {t : Transport σ} {limits : Limits} {w : Window} {job : String}
    {start : SourceWorld σ} {ns : List SourceNote}
    (h : PollTold t w job (Budget.fresh limits.maxPollAttempts limits.pollIntervalMs) start
      (TimedOut (poll t limits w job start).1) ns) :
    TellsOfPolling t limits w (fun j polling => j = job ∧ polling = start)
      (ns.map SourceNote.line) := by
  have htells := tells_of_polled [] [] (fun j s => Iff.rfl) h
    (List.forall_mem_nil _) (List.forall_mem_nil _)
  rwa [List.nil_append, List.append_nil] at htells

/-- A poll, a submission and a search, whoever their collaborators are and whenever they are cancelled
or dropped: what is logged is under the tags, the attempts of the poll are told one by one with the
timeout, a search that finds nothing tells so once, and with any sinks for the lines all is returned as
it is, and the sinks have heard what is logged. -/
theorem log_tells_the_course (explorer : Address → Ask σ (Except AuditError (Option VerifiedSource)))
    (bytecode : Address → Ask σ (Except AuditError String)) (t : Transport σ) (limits : Limits)
    (w : Window) (start : SourceWorld σ) (k : Sinks τ) (memory : τ) :
    (∀ job, let ran := poll t limits w job start
      ∃ ns, Logged start ran.2 ns ∧ (∀ n ∈ ns, n.ofClient = true) ∧
        TellsOfPolling t limits w (fun j polling => j = job ∧ polling = start)
          (ns.map SourceNote.line) ∧
        k.Hears memory ns ran (pollBy (Sinks.tell k.client) (t.beside τ) limits w job
          (start.beside memory))) ∧
    (∀ code, let ran := submit t limits w code start
      ∃ ns, Logged start ran.2 ns ∧ (∀ n ∈ ns, n.ofClient = true) ∧
        TellsOfPolling t limits w (PollsFor t w code start) (ns.map SourceNote.line) ∧
        k.Hears memory ns ran (submitBy (Sinks.tell k.client) (t.beside τ) limits w code
          (start.beside memory))) ∧
    ∀ address, let r : Resolver σ := ⟨explorer, bytecode, .service t limits⟩
      let ran := r.resolve w address start
      ∃ ns, Logged start ran.2 ns ∧
        Resolver.SearchTold t limits w address (r.PollsFor w address t start)
          (r.LacksCode w address start) ran.1 (ns.map SourceNote.line) ∧
        k.Hears memory ns ran (Resolver.resolveBy (Sinks.tell k.client) (Sinks.tell k.own)
          (fun a => (explorer a).beside τ) (fun a => (bytecode a).beside τ) (t.beside τ) limits w
          address (start.beside memory)) := by
  refine ⟨fun job => ?_, fun code => ?_, fun address => ?_⟩
  · obtain ⟨ns, hns, htold⟩ := told_poll t limits w job start
    exact ⟨ns, logged_of_notes hns, htold.client, tells_poll htold,
      k.hears_poll memory t limits w job hns⟩
  · obtain ⟨ns, hns, hclient, hpolling⟩ := told_submit t limits w code start
    exact ⟨ns, logged_of_notes hns, hclient, hpolling, k.hears_submit memory t limits w code hns⟩
  · let r : Resolver σ := ⟨explorer, bytecode, .service t limits⟩
    obtain ⟨ns, hns, htold⟩ := r.told_resolve w address rfl start
    exact ⟨ns, logged_of_notes hns, htold,
      k.hears_resolve memory t limits w explorer bytecode address hns⟩

end Decompiler

end TokenAudit
