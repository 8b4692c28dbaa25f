import TokenAudit.Proofs.Source.Lines
import TokenAudit.Proofs.Source.Submission

/-! What the log tells of a poll and of a submission: each attempt that has begun, one by one, and the
timeout. -/

namespace TokenAudit

open SourceNote (decompilerTag)

theorem Budget.begin?_of_remaining {b : Budget} (h : b.remaining = 0) : b.begin? = none := by
  cases hb : b.begin? with
  | none => rfl
  | some c =>
    have hc := remaining_of_begin? hb
    omega

namespace Decompiler

variable {σ : Type}

/-! ### Polling -/

def attemptLine (k n : Nat) : String := decompilerTag ++ " " ++ s!"Poll attempt {k}/{n}..."

def timeoutLine (n : Nat) : String :=
  decompilerTag ++ " " ++ s!"Decompilation timed out after {n} attempts"

inductive Begins (t : Transport σ) (w : Window) (job : String) : Budget → SourceWorld σ → Nat → Prop
  | first {b c : Budget} {world : SourceWorld σ} (h : b.begin? = some c) : Begins t w job b world 0
  | later {b c : Budget} {world after : SourceWorld σ} {answer : Except AuditError Response} {k : Nat}
    (h : Attempt t w job b world c answer after) (hno : ∀ output, ¬Ready answer output)
    (hrest : Begins t w job c ((failures answer).foldl note after) k) :
    Begins t w job b world (k + 1)

section

variable {t : Transport σ} {w : Window} {job : String} {b c : Budget} {world after : SourceWorld σ}
  {answer : Except AuditError Response}

theorem Attempt.unique {c' : Budget} {answer' : Except AuditError Response}
    {after' : SourceWorld σ} (h : Attempt t w job b world c answer after)
    (h' : Attempt t w job b world c' answer' after') : c = c' ∧ answer = answer' ∧ after = after' := by
  obtain ⟨hb, rested, hrest, hask⟩ := h
  obtain ⟨hb', rested', hrest', hask'⟩ := h'
  cases hb.symm.trans hb'
  cases hrest.symm.trans hrest'
  cases hask.symm.trans hask'
  exact ⟨rfl, rfl, rfl⟩

theorem not_attempt_of_rest {woken : Option Woken} {rested : SourceWorld σ}
    (hrest : (note world (.pollAttempt c.attempts c.maxAttempts)).rest w c.intervalMs.toNat =
      (woken, rested))
    (hwoken : woken ≠ some .ok) (answer : Except AuditError Response) (after : SourceWorld σ) :
    ¬Attempt t w job b world c answer after := by
  rintro ⟨-, rested', hrest', -⟩
  cases hrest.symm.trans hrest'
  exact hwoken rfl

theorem not_begins (h : b.begin? = none) (k : Nat) : ¬Begins t w job b world k := by
  intro hk
  cases hk with
  | first hc => cases h.symm.trans hc
  | later hattempt => cases h.symm.trans hattempt.begins

theorem begins_last_iff (hb : b.begin? = some c)
    (hlast : ∀ answer after, Attempt t w job b world c answer after → ∃ output, Ready answer output)
    (k : Nat) : Begins t w job b world k ↔ k < 1 := by
  constructor
  · intro hk
    cases hk with
    | first => exact Nat.one_pos
    | later h hno =>
      cases hb.symm.trans h.begins
      obtain ⟨output, hready⟩ := hlast _ _ h
      exact absurd hready (hno output)
  · intro hk
    rw [Nat.lt_one_iff.mp hk]
    exact .first hb

theorem begins_succ_iff (h : Attempt t w job b world c answer after)
    (hno : ∀ output, ¬Ready answer output) (k : Nat) :
    Begins t w job b world (k + 1) ↔ Begins t w job c ((failures answer).foldl note after) k := by
  constructor
  · intro hk
    cases hk with
    | later h' hno' hrest =>
      obtain ⟨rfl, rfl, rfl⟩ := h.unique h'
      exact hrest
  · exact .later h hno

/-- What the notes of a poll tell of it: each attempt that has begun, by its number and in order, and
whether the budget was spent. -/
structure PollTold (t : Transport σ) (w : Window) (job : String) (b : Budget) (world : SourceWorld σ)
    (timedOut : Prop) (ns : List SourceNote) : Prop where
  client : ∀ n ∈ ns, n.ofClient = true
  attempts : ∃ m, (∀ k, Begins t w job b world k ↔ k < m) ∧
    Topic.attempt.among (ns.map SourceNote.line) =
      (List.range m).map fun k => attemptLine (b.attempts.toNat + (k + 1)) b.maxAttempts.toNat
  timeout : Topic.timeout.ToldIff (timeoutLine b.maxAttempts.toNat) timedOut (ns.map SourceNote.line)

theorem pollTold_spent (hb : b.begin? = none) {timedOut : Prop} (h : timedOut) :
    PollTold t w job b world timedOut [.pollTimedOut b.maxAttempts] where
  client := by
    intro n hn
    rw [List.mem_singleton.mp hn]
    rfl
  attempts := by
    refine ⟨0, fun k => iff_of_false (not_begins hb k) (Nat.not_lt_zero k), ?_⟩
    exact Topic.among_cons_of_ne _ [] nofun
  timeout := Topic.toldIff_of h (Topic.among_cons _ [] rfl)

theorem among_timeout_attempt (c : Budget) (ns : List SourceNote) :
    Topic.timeout.among ((.pollAttempt c.attempts c.maxAttempts :: ns).map SourceNote.line) =
      Topic.timeout.among (ns.map SourceNote.line) := Topic.among_cons_of_ne _ ns nofun

theorem among_attempt (hb : b.begin? = some c) (ns : List SourceNote) :
    Topic.attempt.among ((.pollAttempt c.attempts c.maxAttempts :: ns).map SourceNote.line) =
      attemptLine (b.attempts.toNat + 1) b.maxAttempts.toNat ::
        Topic.attempt.among (ns.map SourceNote.line) := by
  obtain ⟨-, hattempts, hmax, -⟩ := Budget.attempts_of_begin? hb
  have hline : SourceNote.line (.pollAttempt c.attempts c.maxAttempts) =
      attemptLine c.attempts.toNat c.maxAttempts.toNat := rfl
  rw [Topic.among_cons _ ns rfl, hline, hattempts, hmax]

theorem pollTold_last (hb : b.begin? = some c)
    (hlast : ∀ answer after, Attempt t w job b world c answer after → ∃ output, Ready answer output)
    {timedOut : Prop} (h : ¬timedOut) {ns : List SourceNote}
    (hns : ∀ n ∈ ns, n.ofClient = true ∧ n.topic? = none) :
    PollTold t w job b world timedOut (.pollAttempt c.attempts c.maxAttempts :: ns) where
  client := List.forall_mem_cons.mpr ⟨rfl, fun n hn => (hns n hn).1⟩
  attempts := by
    refine ⟨1, begins_last_iff hb hlast, ?_⟩
    rw [among_attempt hb, Topic.among_of_no_topic _ fun n hn => (hns n hn).2]
    rfl
  timeout := by
    refine Topic.toldIff_of_not h ?_
    rw [among_timeout_attempt, Topic.among_of_no_topic _ fun n hn => (hns n hn).2]

theorem among_failures {k : Topic} (answer : Except AuditError Response) (ns : List SourceNote) :
    k.among ((failures answer ++ ns).map SourceNote.line) = k.among (ns.map SourceNote.line) := by
  cases answer with
  | ok r => rfl
  | error e => exact Topic.among_cons_of_ne _ ns nofun

theorem pollTold_next (h : Attempt t w job b world c answer after)
    (hno : ∀ output, ¬Ready answer output) {timedOut : Prop} {ns : List SourceNote}
    (hrest : PollTold t w job c ((failures answer).foldl note after) timedOut ns) :
    PollTold t w job b world timedOut
      (.pollAttempt c.attempts c.maxAttempts :: (failures answer ++ ns)) where
  client := by
    have hfailures : ∀ n ∈ failures answer, n.ofClient = true := by
      cases answer with
      | ok r => exact List.forall_mem_nil _
      | error e =>
        intro n hn
        rw [List.mem_singleton.mp hn]
        rfl
    refine List.forall_mem_cons.mpr ⟨rfl, fun n hn => ?_⟩
    rcases List.mem_append.mp hn with hn | hn
    · exact hfailures n hn
    · exact hrest.client n hn
  attempts := by
    obtain ⟨m, hm, hlines⟩ := hrest.attempts
    obtain ⟨-, hattempts, hmax, -⟩ := Budget.attempts_of_begin? h.begins
    refine ⟨m + 1, fun k => ?_, ?_⟩
    · cases k with
      | zero => exact iff_of_true (.first h.begins) (Nat.succ_pos m)
      | succ k => rw [begins_succ_iff h hno, hm, Nat.add_lt_add_iff_right]
    · have hshift : ∀ k ∈ List.range m, attemptLine (c.attempts.toNat + (k + 1)) b.maxAttempts.toNat =
          attemptLine (b.attempts.toNat + (k + 1 + 1)) b.maxAttempts.toNat := by
        intro k _
        have hnumber : c.attempts.toNat + (k + 1) = b.attempts.toNat + (k + 1 + 1) := by omega
        rw [hnumber]
      rw [among_attempt h.begins, among_failures, hlines, hmax, List.range_succ_eq_map, List.map_cons,
        List.map_map, List.map_congr_left hshift]
      rfl
  timeout := by
    obtain ⟨-, -, hmax, -⟩ := Budget.attempts_of_begin? h.begins
    have hsame := (among_timeout_attempt c (failures answer ++ ns)).trans (among_failures answer ns)
    rw [← hmax]
    exact hrest.timeout.congr hsame

end

def TimedOut (result : Option (Except AuditError String)) : Prop :=
  ∃ operation n, result = some (.error (.timeout operation n))

theorem not_timedOut_none : ¬TimedOut none := by
  rintro ⟨operation, n, h⟩
  cases h

theorem not_timedOut_cancelled (operation : String) :
    ¬TimedOut (some (.error (.cancelled operation))) := by
  rintro ⟨operation', n, h⟩
  cases h

theorem not_timedOut_ok (text : String) : ¬TimedOut (some (.ok text)) := by
  rintro ⟨operation, n, h⟩
  cases h

theorem pollFrom_of_spent (t : Transport σ) (limits : Limits) (w : Window) (job : String) (left : Nat)
    {b : Budget} (hb : b.begin? = none) (world : SourceWorld σ) :
    pollFrom t limits w job left b world =
      (some (.error (.timeout "decompilation" b.maxAttempts)),
        note world (.pollTimedOut b.maxAttempts)) := by
  cases left with
  | zero => rfl
  | succ left => simp only [pollFrom, hb]

theorem attempt_or_end (t : Transport σ) (limits : Limits) (w : Window) (job : String) (left : Nat)
    {b c : Budget} (hb : b.begin? = some c) (world : SourceWorld σ) :
    (∃ answer told, Attempt t w job b world c answer told ∧
      notes told = notes world ++ [.pollAttempt c.attempts c.maxAttempts]) ∨
    (∀ answer after, ¬Attempt t w job b world c answer after) ∧
      ¬TimedOut (pollFrom t limits w job (left + 1) b world).1 ∧
      notes (pollFrom t limits w job (left + 1) b world).2 =
        notes world ++ [.pollAttempt c.attempts c.maxAttempts] := by
  rcases World.rest_cases (note world (.pollAttempt c.attempts c.maxAttempts)) w
    c.intervalMs.toNat with ⟨rested, hrest⟩ | ⟨rested, hrest⟩ | ⟨rested, hrest⟩
  all_goals
    have hrested : notes rested = notes world ++ [.pollAttempt c.attempts c.maxAttempts] :=
      (notes_of_rest hrest).trans (notes_note world _)
  · rcases hask : (rested.record (.statusAsked job)).ask w (t.jobStatus job) with ⟨_ | answer, told⟩
    all_goals
      have htold : notes told = notes world ++ [.pollAttempt c.attempts c.maxAttempts] :=
        (notes_of_ask hask).trans ((notes_record rested rfl).trans hrested)
    · refine .inr ⟨fun answer after h => ?_, ?_⟩
      · obtain ⟨-, rested', hrest', hask'⟩ := h
        cases hrest.symm.trans hrest'
        cases hask.symm.trans hask'
      · have hran : pollFrom t limits w job (left + 1) b world = (none, told) := by
          simp only [pollFrom_succ t limits w job left hb, hrest, World.andThen, reduceCtorEq,
            if_false, hask]
        rw [hran]
        exact ⟨not_timedOut_none, htold⟩
    · exact .inl ⟨answer, told, ⟨hb, rested, hrest, hask⟩, htold⟩
  · refine .inr ⟨not_attempt_of_rest hrest (by decide), ?_⟩
    rw [pollFrom_succ t limits w job left hb, hrest]
    exact ⟨not_timedOut_cancelled _, hrested⟩
  · refine .inr ⟨not_attempt_of_rest hrest (by decide), ?_⟩
    rw [pollFrom_succ t limits w job left hb, hrest]
    exact ⟨not_timedOut_none, hrested⟩

theorem mem_cutNotes {limits : Limits} {output : List Char} {n : SourceNote}
    (h : n ∈ cutNotes limits output) : n.ofClient = true ∧ n.topic? = none := by
  unfold cutNotes at h
  split at h
  · rw [List.mem_singleton.mp h]
    exact ⟨rfl, rfl⟩
  · cases h

theorem told_pollFrom (t : Transport σ) (limits : Limits) (w : Window) (job : String) (left : Nat)
    (b : Budget) (world : SourceWorld σ) (hleft : b.remaining = left) :
    ∃ ns, notes (pollFrom t limits w job left b world).2 = notes world ++ ns ∧
      PollTold t w job b world (TimedOut (pollFrom t limits w job left b world).1) ns := by
  induction left generalizing b world with
  | zero =>
    have hb := Budget.begin?_of_remaining hleft
    exact ⟨_, notes_note world _, pollTold_spent hb ⟨_, _, rfl⟩⟩
  | succ left ih =>
    cases hb : b.begin? with
    | none =>
      rw [pollFrom_of_spent t limits w job (left + 1) hb]
      exact ⟨_, notes_note world _, pollTold_spent hb ⟨_, _, rfl⟩⟩
    | some c =>
      rcases attempt_or_end t limits w job left hb world with
        ⟨answer, told, hattempt, htold⟩ | ⟨hnone, hend, hnotes⟩
      · rw [hattempt.pollFrom_eq, onStatus]
        by_cases hready : ∃ output, Ready answer output
        · obtain ⟨output, hr⟩ := hready
          rw [judge_of_ready hr]
          refine ⟨.pollAttempt c.attempts c.maxAttempts ::
            .pollReady c.attempts :: cutNotes limits output, ?_, ?_⟩
          · rw [notes_afterCut, notes_note, htold, List.append_assoc, List.append_assoc]
            rfl
          · refine pollTold_last hb (fun answer' after h => ?_) (not_timedOut_ok _) ?_
            · obtain ⟨-, rfl, -⟩ := hattempt.unique h
              exact ⟨output, hr⟩
            · exact List.forall_mem_cons.mpr ⟨⟨rfl, rfl⟩, fun n hn => mem_cutNotes hn⟩
        · have hno : ∀ output, ¬Ready answer output := not_exists.mp hready
          have hmore : c.remaining = left := by
            have hc := Budget.remaining_of_begin? hb
            omega
          obtain ⟨ns, hns, htells⟩ := ih c ((failures answer).foldl note told) hmore
          rw [judge_of_unready hno]
          refine ⟨_, ?_, pollTold_next hattempt hno htells⟩
          rw [hns, notes_notes, htold, List.append_assoc, List.append_assoc]
          rfl
      · exact ⟨_, hnotes, pollTold_last hb (fun answer after h => absurd h (hnone answer after)) hend
          (List.forall_mem_nil _)⟩

/-- What a log tells of the poll for a job, if there was one: its attempts one by one from the first
to the last, and its timeout. -/
structure TellsOfPolling (t : Transport σ) (limits : Limits) (w : Window)
    (polled : String → SourceWorld σ → Prop) (logged : List String) : Prop where
  attempts : ∀ job start, polled job start → ∃ m,
    (∀ k, Begins t w job (Budget.fresh limits.maxPollAttempts limits.pollIntervalMs) start k ↔
      k < m) ∧
    Topic.attempt.among logged =
      (List.range m).map fun k => attemptLine (k + 1) limits.maxPollAttempts.toNat
  noAttempts : (∀ job start, ¬polled job start) → Topic.attempt.among logged = []
  timeout : Topic.timeout.ToldIff (timeoutLine limits.maxPollAttempts.toNat)
    (∃ job start, polled job start ∧ TimedOut (poll t limits w job start).1) logged

section

variable {t : Transport σ} {limits : Limits} {w : Window} {polled : String → SourceWorld σ → Prop}

theorem TellsOfPolling.congr {logged more : List String} (h : TellsOfPolling t limits w polled logged)
    (hattempt : Topic.attempt.among more = Topic.attempt.among logged)
    (htimeout : Topic.timeout.among more = Topic.timeout.among logged) :
    TellsOfPolling t limits w polled more where
  attempts job start hp := by
    obtain ⟨m, hm, hlines⟩ := h.attempts job start hp
    exact ⟨m, hm, hattempt.trans hlines⟩
  noAttempts hno := hattempt.trans (h.noAttempts hno)
  timeout := h.timeout.congr htimeout

theorem tells_of_unpolled (h : ∀ job start, ¬polled job start) {ns : List SourceNote}
    (hns : ∀ n ∈ ns, n.topic? = none) :
    TellsOfPolling t limits w polled (ns.map SourceNote.line) := by
  have hnone : ∀ k : Topic, k.among (ns.map SourceNote.line) = [] := fun k =>
    k.among_of_no_topic hns
  constructor
  · intro job start hp
    exact absurd hp (h job start)
  · exact fun _ => hnone .attempt
  · exact Topic.toldIff_of_not (fun ⟨job, start, hp, _⟩ => h job start hp) (hnone .timeout)

theorem tells_of_polled {job : String} {start : SourceWorld σ} (before after : List SourceNote)
    {ns : List SourceNote}
    (hpolled : ∀ j s, polled j s ↔ j = job ∧ s = start)
    (h : PollTold t w job (Budget.fresh limits.maxPollAttempts limits.pollIntervalMs) start
      (TimedOut (poll t limits w job start).1) ns)
    (hbefore : ∀ n ∈ before, n.topic? = none) (hafter : ∀ n ∈ after, n.topic? = none) :
    TellsOfPolling t limits w polled ((before ++ (ns ++ after)).map SourceNote.line) := by
  have hsame : ∀ k : Topic, k.among ((before ++ (ns ++ after)).map SourceNote.line) =
      k.among (ns.map SourceNote.line) := fun k => k.among_around hbefore ns hafter
  have htimedOut : (∃ j s, polled j s ∧ TimedOut (poll t limits w j s).1) ↔
      TimedOut (poll t limits w job start).1 := by
    simp only [hpolled]
    constructor
    · rintro ⟨j, s, ⟨rfl, rfl⟩, hp⟩
      exact hp
    · exact fun hp => ⟨job, start, ⟨rfl, rfl⟩, hp⟩
  constructor
  · intro j s hp
    obtain ⟨rfl, rfl⟩ := (hpolled j s).mp hp
    obtain ⟨m, hm, hlines⟩ := h.attempts
    refine ⟨m, hm, (hsame .attempt).trans (hlines.trans ?_)⟩
    simp only [Budget.fresh, UInt32.toNat_zero, Nat.zero_add]
  · intro hno
    exact absurd ((hpolled job start).mpr ⟨rfl, rfl⟩) (hno job start)
  · rw [htimedOut]
    exact h.timeout.congr (hsame .timeout)

end

theorem told_poll (t : Transport σ) (limits : Limits) (w : Window) (job : String)
    (world : SourceWorld σ) :
    ∃ ns, notes (poll t limits w job world).2 = notes world ++ ns ∧
      PollTold t w job (Budget.fresh limits.maxPollAttempts limits.pollIntervalMs) world
        (TimedOut (poll t limits w job world).1) ns :=
  told_pollFrom t limits w job _ _ world rfl

/-! ### A submission -/

inductive PollsFor (t : Transport σ) (w : Window) (code : String) (world : SourceWorld σ) :
    String → SourceWorld σ → Prop
  | pending (payload job : String) (r : Response) (told : SourceWorld σ)
    (hp : Bytecode.Payload code payload)
    (hask : (handedIn payload.toList world).ask w (t.submit payload) = (some (.ok r), told))
    (hr : r.isSuccess = true) (hpending : r.isPending = true) (hj : r.job? = some job) :
    PollsFor t w code world job (note told (.jobPending job))

section

variable {t : Transport σ} {limits : Limits} {w : Window} {code payload : String}
  {world told : SourceWorld σ}

theorem pollsFor_iff {answer : Option (Except AuditError Response)}
    (hp : Bytecode.Payload code payload)
    (hask : (handedIn payload.toList world).ask w (t.submit payload) = (answer, told))
    (job : String) (start : SourceWorld σ) : PollsFor t w code world job start ↔
      ∃ r, answer = some (.ok r) ∧ r.isSuccess = true ∧ r.isPending = true ∧ r.job? = some job ∧
        start = note told (.jobPending job) := by
  constructor
  · rintro ⟨payload', job, r, told', hp', hask', hr, hpending, hj⟩
    have hsame : payload = payload' := by
      have hdigits := (Bytecode.payload_iff.mp hp).symm.trans (Bytecode.payload_iff.mp hp')
      exact String.toList_inj.mp (Except.ok.inj hdigits)
    subst hsame
    cases hask.symm.trans hask'
    exact ⟨r, rfl, hr, hpending, hj, rfl⟩
  · rintro ⟨r, rfl, hr, hpending, hj, rfl⟩
    exact .pending payload job r told hp hask hr hpending hj

theorem notes_onPolled (ran : Ran σ (Except AuditError String)) :
    ∃ more, notes (World.andThen ran onPolled).2 = notes ran.2 ++ more ∧
      ∀ n ∈ more, n.ofClient = true ∧ n.topic? = none := by
  rcases ran with ⟨_ | e | text, polled⟩
  · exact ⟨[], (List.append_nil _).symm, List.forall_mem_nil _⟩
  · exact ⟨[], (List.append_nil _).symm, List.forall_mem_nil _⟩
  · refine ⟨_, notes_note polled _, fun n hn => ?_⟩
    rw [List.mem_singleton.mp hn]
    exact ⟨rfl, rfl⟩

structure SubmissionTold (t : Transport σ) (limits : Limits) (w : Window) (code : String)
    (world : SourceWorld σ) (ns : List SourceNote) : Prop where
  client : ∀ n ∈ ns, n.ofClient = true
  polling : TellsOfPolling t limits w (PollsFor t w code world) (ns.map SourceNote.line)

theorem submissionTold_of_unpolled (h : ∀ job start, ¬PollsFor t w code world job start)
    {ns : List SourceNote} (hns : ∀ n ∈ ns, n.ofClient = true ∧ n.topic? = none) :
    SubmissionTold t limits w code world ns :=
  ⟨fun n hn => (hns n hn).1, tells_of_unpolled h fun n hn => (hns n hn).2⟩

theorem told_of_pending {job : String} {r : Response} (hp : Bytecode.Payload code payload)
    (hask : (handedIn payload.toList world).ask w (t.submit payload) = (some (.ok r), told))
    (hr : r.isSuccess = true) (hpending : r.isPending = true) (hj : r.job? = some job) :
    ∃ ns, notes (follow t limits w r told).2 = notes told ++ ns ∧
      SubmissionTold t limits w code world (.submitting payload.toList.length :: ns) := by
  obtain ⟨ns, hns, hpoll⟩ := told_poll t limits w job (note told (.jobPending job))
  obtain ⟨more, hmore, hquiet⟩ := notes_onPolled (poll t limits w job (note told (.jobPending job)))
  have hpolled : ∀ j s, PollsFor t w code world j s ↔ j = job ∧ s = note told (.jobPending job) := by
    intro j s
    rw [pollsFor_iff hp hask]
    constructor
    · rintro ⟨r', hr', -, -, hj', rfl⟩
      cases hr'
      cases hj.symm.trans hj'
      exact ⟨rfl, rfl⟩
    · rintro ⟨rfl, rfl⟩
      exact ⟨r, rfl, hr, hpending, hj, rfl⟩
  refine ⟨.jobPending job :: (ns ++ more), ?_, ?_, ?_⟩
  · rw [follow_of_job hpending hj, hmore, hns, notes_note, List.append_assoc, List.append_assoc]
    rfl
  · refine List.forall_mem_cons.mpr ⟨rfl, List.forall_mem_cons.mpr ⟨rfl, fun n hn => ?_⟩⟩
    rcases List.mem_append.mp hn with hn | hn
    · exact hpoll.client n hn
    · exact (hquiet n hn).1
  · have hbefore : ∀ n ∈ [SourceNote.submitting payload.toList.length, .jobPending job],
        n.topic? = none :=
      List.forall_mem_cons.mpr ⟨rfl, List.forall_mem_singleton.mpr rfl⟩
    exact tells_of_polled _ more hpolled hpoll hbefore fun n hn => (hquiet n hn).2

theorem told_of_whole {r : Response} (hwhole : r.isPending = false) :
    ∃ ns, notes (follow t limits w r told).2 = notes told ++ ns ∧
      ∀ n ∈ ns, n.ofClient = true ∧ n.topic? = none := by
  rw [follow_of_whole hwhole, completed, notes_note, notes_afterCut, List.append_assoc]
  refine ⟨_, rfl, fun n hn => ?_⟩
  rcases List.mem_append.mp hn with hn | hn
  · exact mem_cutNotes hn
  · rw [List.mem_singleton.mp hn]
    exact ⟨rfl, rfl⟩

theorem told_onSubmitted {answer : Except AuditError Response} (hp : Bytecode.Payload code payload)
    (hask : (handedIn payload.toList world).ask w (t.submit payload) = (some answer, told)) :
    ∃ ns, notes (onSubmitted t limits w answer told).2 = notes told ++ ns ∧
      SubmissionTold t limits w code world (.submitting payload.toList.length :: ns) := by
  have hpolls := pollsFor_iff hp hask
  have hquiet : ∀ {ns : List SourceNote}, (∀ job start, ¬PollsFor t w code world job start) →
      (∀ n ∈ ns, n.ofClient = true ∧ n.topic? = none) →
      SubmissionTold t limits w code world (.submitting payload.toList.length :: ns) := fun hno hns =>
    submissionTold_of_unpolled hno (List.forall_mem_cons.mpr ⟨⟨rfl, rfl⟩, hns⟩)
  cases answer with
  | error e =>
    have hunpolled : ∀ job start, ¬PollsFor t w code world job start := by simp [hpolls]
    exact ⟨_, notes_note told _, hquiet hunpolled (List.forall_mem_singleton.mpr ⟨rfl, rfl⟩)⟩
  | ok r =>
    by_cases hr : r.isSuccess = true
    · simp only [onSubmitted, hr, if_true]
      cases hpending : r.isPending with
      | false =>
        have hunpolled : ∀ job start, ¬PollsFor t w code world job start := by
          simp [hpolls, hpending]
        obtain ⟨ns, hns, hall⟩ := told_of_whole hpending
        exact ⟨ns, hns, hquiet hunpolled hall⟩
      | true =>
        cases hj : r.job? with
        | none =>
          have hunpolled : ∀ job start, ¬PollsFor t w code world job start := by simp [hpolls, hj]
          simp only [follow, hpending, hj, if_true]
          exact ⟨[], (List.append_nil _).symm, hquiet hunpolled (List.forall_mem_nil _)⟩
        | some job => exact told_of_pending hp hask hr hpending hj
    · have hunpolled : ∀ job start, ¬PollsFor t w code world job start := by simp [hpolls, hr]
      simp only [onSubmitted, hr, Bool.false_eq_true, if_false]
      exact ⟨_, notes_note told _, hquiet hunpolled (List.forall_mem_singleton.mpr ⟨rfl, rfl⟩)⟩

end

theorem told_submit (t : Transport σ) (limits : Limits) (w : Window) (code : String)
    (world : SourceWorld σ) :
    ∃ ns, notes (submit t limits w code world).2 = notes world ++ ns ∧
      SubmissionTold t limits w code world ns := by
  cases hs : Bytecode.submission code with
  | error e =>
    have hunpolled : ∀ job start, ¬PollsFor t w code world job start := by
      rintro job start ⟨payload, -, r, told, hp, -, -, -, -⟩
      cases hs.symm.trans (Bytecode.payload_iff.mp hp)
    rw [submit_of_error hs]
    exact ⟨[], (List.append_nil _).symm, submissionTold_of_unpolled hunpolled (List.forall_mem_nil _)⟩
  | ok digits =>
    have hp : Bytecode.Payload code (String.ofList digits) := by
      rw [Bytecode.payload_iff, String.toList_ofList, hs]
    rw [submit_of_payload hp]
    rcases hask : (handedIn (String.ofList digits).toList world).ask w
      (t.submit (String.ofList digits)) with ⟨answer, told⟩
    have htold : notes told = notes world ++ [.submitting (String.ofList digits).toList.length] := by
      rw [notes_of_ask hask, handedIn, notes_record _ rfl, notes_note]
    cases answer with
    | none =>
      have hunpolled : ∀ job start, ¬PollsFor t w code world job start := by
        simp [pollsFor_iff hp hask]
      exact ⟨_, htold, submissionTold_of_unpolled hunpolled
        (List.forall_mem_singleton.mpr ⟨rfl, rfl⟩)⟩
    | some answer =>
      obtain ⟨ns, hns, htells⟩ := told_onSubmitted hp hask
      refine ⟨_, ?_, htells⟩
      change notes (onSubmitted t limits w answer told).2 = _
      rw [hns, htold, List.append_assoc]
      rfl

end Decompiler

end TokenAudit
