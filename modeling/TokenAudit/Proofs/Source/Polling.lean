import TokenAudit.Proofs.Source.Waits
import TokenAudit.Proofs.Wait.Timetable

/-! Polling for a job on a service that answers at once. Every attempt rests for an interval and then
asks for the status. What comes of it, and when, is read off the answers and the instant of the signal. -/

namespace TokenAudit.Decompiler

variable {σ : Type}

def Ready (answer : Except AuditError Response) (output : List Char) : Prop :=
  ∃ r, answer = .ok r ∧ r.isSuccess = true ∧ r.output = output ∧ output ≠ []

def failures : Except AuditError Response → List SourceNote
  | .ok _ => []
  | .error e => [.pollFailed e]

theorem judge_of_ready {answer : Except AuditError Response} {output : List Char}
    (h : Ready answer output) : judge answer = (some output, []) := by
  obtain ⟨r, rfl, hr, rfl, hne⟩ := h
  simp only [judge, hr, if_true, hne, if_false]

theorem judge_of_unready {answer : Except AuditError Response}
    (h : ∀ output, ¬Ready answer output) : judge answer = (none, failures answer) := by
  rcases answer with e | r
  · rfl
  · by_cases hr : r.isSuccess = true
    · have hempty : r.output = [] := by
        by_contra hne
        exact h r.output ⟨r, rfl, hr, rfl, hne⟩
      simp only [judge, hr, hempty, if_true, failures]
    · simp only [judge, hr, failures]
      rfl

/-- An attempt begins, rests until its lookup is due, and has its answer. -/
structure Attempt (t : Transport σ) (w : Window) (job : String) (b : Budget) (world : SourceWorld σ)
    (c : Budget) (answer : Except AuditError Response) (after : SourceWorld σ) : Prop where
  begins : b.begin? = some c
  asks : ∃ rested, (note world (.pollAttempt c.attempts c.maxAttempts)).rest w c.intervalMs.toNat =
      (some .ok, rested) ∧
    (rested.record (.statusAsked job)).ask w (t.jobStatus job) = (some answer, after)

theorem Attempt.pollFrom_eq {t : Transport σ} {w : Window} {job : String} {b c : Budget}
    {world after : SourceWorld σ} {answer : Except AuditError Response}
    (h : Attempt t w job b world c answer after) (limits : Limits) (left : Nat) :
    pollFrom t limits w job (left + 1) b world = onStatus t limits w job left c answer after := by
  obtain ⟨rested, hrest, hask⟩ := h.asks
  rw [pollFrom_succ t limits w job left h.begins, hrest]
  simp only [World.andThen, reduceCtorEq, if_false, hask]

def lookups (world : SourceWorld σ) : List (Nat × String) :=
  world.trace.filterMap fun
    | (time, .statusAsked job) => some (time, job)
    | _ => none

@[simp] theorem lookups_note (world : SourceWorld σ) (n : SourceNote) :
    lookups (note world n) = lookups world := by
  simp [lookups, note]

@[simp] theorem lookups_afterCut (limits : Limits) (output : List Char) (world : SourceWorld σ) :
    lookups (afterCut limits output world) = lookups world := by
  unfold afterCut
  split
  · exact lookups_note world _
  · rfl

section

variable (t : Transport σ) (limits : Limits) (job : String) (cancelAt : Option Nat)
variable (start : SourceWorld σ)

def times : Times := ⟨start.now, limits.pollIntervalMs.toNat⟩

def timetable : Timetable where
  toTimes := times limits start
  attempts := limits.maxPollAttempts.toNat
  cancelAt := cancelAt

def status (k : Nat) : Except AuditError Response := Draws.heard (t.jobStatus job).answer start.state k

def Unready (k : Nat) : Prop := ∀ output, ¬Ready (status t job start k) output

def budgetAt (k : Nat) : Budget :=
  ⟨UInt32.ofNat k, limits.maxPollAttempts, limits.pollIntervalMs⟩

def attempted (k : Nat) : List (Nat × SourceAct) :=
  ((times limits start).dueAt k, .noted (.pollAttempt (UInt32.ofNat (k + 1)) limits.maxPollAttempts)) ::
    ((times limits start).dueAt (k + 1), .statusAsked job) ::
      (failures (status t job start k)).map fun n => ((times limits start).dueAt (k + 1), .noted n)

def worldAfter (k : Nat) : SourceWorld σ where
  now := (times limits start).dueAt k
  trace := start.trace ++ (List.range k).flatMap (attempted t limits job start)
  state := Draws.stateAfter (t.jobStatus job).answer start.state k

def begun (k : Nat) : SourceWorld σ :=
  note (worldAfter t limits job start k) (.pollAttempt (UInt32.ofNat (k + 1)) limits.maxPollAttempts)

def answered (k : Nat) : SourceWorld σ where
  now := (times limits start).dueAt (k + 1)
  trace := (begun t limits job start k).trace ++ [((times limits start).dueAt (k + 1), .statusAsked job)]
  state := Draws.stateAfter (t.jobStatus job).answer start.state (k + 1)

/-- How polling ends: after how many lookups, with which result, and in which world. -/
inductive Polls : Nat → Except AuditError String → SourceWorld σ → Prop
  | ready (k : Nat) (output : List Char)
    (hk : (timetable limits cancelAt start).Passes (Unready t job start) k)
    (hmore : k < limits.maxPollAttempts.toNat) (huncut : ¬(timetable limits cancelAt start).Cut k)
    (hr : Ready (status t job start k) output) :
    Polls (k + 1) (.ok (String.ofList (truncateText output limits.maxOutputChars)))
      (afterCut limits output
        (note (answered t limits job start k) (.pollReady (UInt32.ofNat (k + 1)))))
  | cut (k instant : Nat) (hk : (timetable limits cancelAt start).Passes (Unready t job start) k)
    (hmore : k < limits.maxPollAttempts.toNat) (hi : cancelAt = some instant)
    (hcut : instant ≤ (times limits start).dueAt k ∨ instant < (times limits start).dueAt (k + 1)) :
    Polls k (.error (.cancelled "decompilation poll"))
      { begun t limits job start k with now := max instant ((times limits start).dueAt k) }
  | spent
    (hn : (timetable limits cancelAt start).Passes (Unready t job start)
      limits.maxPollAttempts.toNat) :
    Polls limits.maxPollAttempts.toNat (.error (.timeout "decompilation" limits.maxPollAttempts))
      (note (worldAfter t limits job start limits.maxPollAttempts.toNat)
        (.pollTimedOut limits.maxPollAttempts))

variable {t limits job cancelAt start}

/-! ### One attempt -/

theorem now_begun (k : Nat) : (begun t limits job start k).now = (times limits start).dueAt k := rfl

theorem rest_of_uncut {k : Nat} (h : ¬(timetable limits cancelAt start).Cut k) :
    (begun t limits job start k).rest ⟨cancelAt, none⟩ limits.pollIntervalMs.toNat =
      (some .ok, { begun t limits job start k with now := (times limits start).dueAt (k + 1) }) := by
  have hslept : (⟨cancelAt, none⟩ : Window).sleep ((times limits start).dueAt k)
      limits.pollIntervalMs.toNat = (.ok, (times limits start).dueAt (k + 1)) :=
    Timetable.sleep_of_uncut (t := timetable limits cancelAt start) h
  simp only [World.rest, World.sleep, now_begun, hslept]

theorem rest_of_cut {k instant : Nat} (hi : cancelAt = some instant)
    (h : instant ≤ (times limits start).dueAt k ∨ instant < (times limits start).dueAt (k + 1)) :
    (begun t limits job start k).rest ⟨cancelAt, none⟩ limits.pollIntervalMs.toNat =
      (some .cancelled,
        { begun t limits job start k with now := max instant ((times limits start).dueAt k) }) := by
  have hslept : (⟨cancelAt, none⟩ : Window).sleep ((times limits start).dueAt k)
      limits.pollIntervalMs.toNat = (.cancelled, max instant ((times limits start).dueAt k)) :=
    Timetable.sleep_of_cut (t := timetable limits cancelAt start) hi h
  simp only [World.rest, World.sleep, now_begun, hslept]

theorem worldAfter_zero : worldAfter t limits job start 0 = start := by
  simp [worldAfter, Times.dueAt_zero, times, Draws.stateAfter]

theorem notes_answered (k : Nat) :
    (failures (status t job start k)).foldl note (answered t limits job start k) =
      worldAfter t limits job start (k + 1) := by
  have htrace : (worldAfter t limits job start (k + 1)).trace =
      (answered t limits job start k).trace ++
        (failures (status t job start k)).map fun n => ((times limits start).dueAt (k + 1), .noted n) := by
    simp [worldAfter, answered, begun, note, attempted, List.range_succ]
  have hnone : (answered t limits job start k).trace = (worldAfter t limits job start (k + 1)).trace →
      answered t limits job start k = worldAfter t limits job start (k + 1) := by
    intro h
    exact congrArg (World.mk _ · _) h
  rcases hanswer : status t job start k with e | r
  · rw [hanswer] at htrace
    exact congrArg (World.mk _ · _) htrace.symm
  · rw [hanswer] at htrace
    exact hnone (htrace.trans (List.append_nil _)).symm

theorem begin?_budgetAt {k : Nat} (h : k < limits.maxPollAttempts.toNat) :
    (budgetAt limits k).begin? = some (budgetAt limits (k + 1)) :=
  Budget.begin?_ofNat h limits.pollIntervalMs

section

variable (h : ∀ s, (t.jobStatus job s).1.delay = some 0)

include h

theorem attempt_of_uncut {k : Nat} (hmore : k < limits.maxPollAttempts.toNat)
    (hk : ¬(timetable limits cancelAt start).Cut k) :
    Attempt t ⟨cancelAt, none⟩ job (budgetAt limits k) (worldAfter t limits job start k)
      (budgetAt limits (k + 1)) (status t job start k) (answered t limits job start k) where
  begins := begin?_budgetAt hmore
  asks := ⟨_, rest_of_uncut hk, World.ask_prompt _ cancelAt (h _)⟩

theorem poll_of_passes {k left : Nat} (hleft : limits.maxPollAttempts.toNat = k + left)
    (hk : (timetable limits cancelAt start).Passes (Unready t job start) k) :
    poll t limits ⟨cancelAt, none⟩ job start =
      pollFrom t limits ⟨cancelAt, none⟩ job left (budgetAt limits k)
        (worldAfter t limits job start k) := by
  induction k generalizing left with
  | zero =>
    have hall : limits.maxPollAttempts.toNat = left := hleft.trans (Nat.zero_add left)
    rw [worldAfter_zero, ← hall]
    rfl
  | succ k ih =>
    have hmore : k < limits.maxPollAttempts.toNat := hk.inBudget
    have hunready := judge_of_unready (hk.undecided k (Nat.lt_succ_self k))
    have hcurrent : limits.maxPollAttempts.toNat = k + (left + 1) := by omega
    have hattempt := attempt_of_uncut h hmore (hk.uncut k (Nat.lt_succ_self k))
    rw [ih hcurrent hk.before, hattempt.pollFrom_eq, onStatus, hunready]
    dsimp only
    rw [notes_answered]

theorem poll_of_polls {made : Nat} {result : Except AuditError String} {after : SourceWorld σ}
    (hp : Polls t limits job cancelAt start made result after) :
    poll t limits ⟨cancelAt, none⟩ job start = (some result, after) := by
  cases hp with
  | ready k output hk hmore huncut hr =>
    obtain ⟨left, hleft⟩ := Nat.exists_eq_add_of_lt hmore
    rw [poll_of_passes h (hleft.trans (Nat.add_assoc _ _ _)) hk,
      (attempt_of_uncut h hmore huncut).pollFrom_eq, onStatus, judge_of_ready hr]
    rfl
  | cut _ instant hk hmore hi hcut =>
    obtain ⟨left, hleft⟩ := Nat.exists_eq_add_of_lt hmore
    have hrest : (begun t limits job start made).rest ⟨cancelAt, none⟩ limits.pollIntervalMs.toNat = _ :=
      rest_of_cut hi hcut
    rw [poll_of_passes h (hleft.trans (Nat.add_assoc _ _ _)) hk,
      pollFrom_succ t limits ⟨cancelAt, none⟩ job left (begin?_budgetAt hmore)]
    change World.andThen ((begun t limits job start made).rest ⟨cancelAt, none⟩
      limits.pollIntervalMs.toNat) _ = _
    rw [hrest]
    rfl
  | spent hn =>
    rw [poll_of_passes h (Nat.add_zero _).symm hn]
    rfl

end

variable (t limits job cancelAt start) in
theorem exists_polls : ∃ made result after, Polls t limits job cancelAt start made result after := by
  obtain ⟨k, hk, hmore, hstop⟩ | hn :=
    (timetable limits cancelAt start).exists_end (Unready t job start)
  · rcases hstop with ⟨instant, hi, hcut⟩ | ⟨huncut, hready⟩
    · exact ⟨_, _, _, .cut k instant hk hmore hi hcut⟩
    · obtain ⟨output, hr⟩ : ∃ output, Ready (status t job start k) output := by
        simpa [Unready] using hready
      exact ⟨_, _, _, .ready k output hk hmore huncut hr⟩
  · exact ⟨_, _, _, .spent hn⟩

/-! ### The lookups -/

theorem lookups_answered (k : Nat) :
    lookups (answered t limits job start k) = lookups (worldAfter t limits job start (k + 1)) := by
  rw [← notes_answered]
  rcases status t job start k with e | r
  · exact (lookups_note _ _).symm
  · rfl

theorem lookups_worldAfter (k : Nat) :
    lookups (worldAfter t limits job start k) =
      lookups start ++ (List.range k).map fun j => ((times limits start).dueAt (j + 1), job) := by
  induction k with
  | zero => rw [worldAfter_zero, List.range_zero, List.map_nil, List.append_nil]
  | succ k ih =>
    have hasked : lookups (answered t limits job start k) =
        lookups (worldAfter t limits job start k) ++ [((times limits start).dueAt (k + 1), job)] := by
      simp [lookups, answered, begun, note]
    rw [← lookups_answered, hasked, ih, List.range_succ, List.map_append, List.append_assoc]
    rfl

theorem lookups_of_polls {made : Nat} {result : Except AuditError String} {after : SourceWorld σ}
    (hp : Polls t limits job cancelAt start made result after) :
    lookups after = lookups start ++ (List.range made).map fun k =>
      (start.now + (k + 1) * limits.pollIntervalMs.toNat, job) := by
  have hmade : lookups (worldAfter t limits job start made) = _ := lookups_worldAfter made
  cases hp with
  | ready k output => rw [lookups_afterCut, lookups_note, lookups_answered, hmade]; rfl
  | cut _ instant => exact (lookups_note _ _).trans hmade
  | spent => exact (lookups_note _ _).trans hmade

end

/-- On a service that answers at once, a poll asks for the status of its job at the end of each
interval. It ends at the first answer that is ready, with the output cut to its bound, in the first
rest that the signal cuts off, or with the last lookup of the budget. -/
theorem poll_follows_schedule (t : Transport σ) (limits : Limits) (job : String)
    (cancelAt : Option Nat) (start : SourceWorld σ)
    (h : ∀ s, (t.jobStatus job s).1.delay = some 0) :
    (∃ made result after, Polls t limits job cancelAt start made result after) ∧
    ∀ made result after, Polls t limits job cancelAt start made result after →
      poll t limits ⟨cancelAt, none⟩ job start = (some result, after) ∧
      lookups after = lookups start ++ (List.range made).map fun k =>
        (start.now + (k + 1) * limits.pollIntervalMs.toNat, job) :=
  ⟨exists_polls t limits job cancelAt start, fun _ _ _ hp =>
    ⟨poll_of_polls h hp, lookups_of_polls hp⟩⟩

def slow : Transport Nat where
  submit _ := Ask.pure (.error (.transport "http://service" "connection refused"))
  jobStatus _ := Ask.now fun n =>
    (if n = 0 then .error (.transport "http://service" "connection reset")
      else if n = 1 then .ok ⟨200, "OK", .obj [("status", .str "pending")]⟩
      else .ok ⟨201, "Created", .obj [("decompiled", .str "contract D")]⟩, n + 1)

theorem slow_poll_follows_schedule :
    (∀ s, (slow.jobStatus "j" s).1.delay = some 0) ∧
    (let ran := poll slow ⟨700, 5, 8⟩ ⟨some 2500, none⟩ "j" (World.start 100 0)
    ran.1 = some (.ok "contract") ∧ ran.2.now = 2200 ∧
      lookups ran.2 = [(800, "j"), (1500, "j"), (2200, "j")]) := by
  have hprompt : ∀ s, (slow.jobStatus "j" s).1.delay = some 0 := fun _ => rfl
  refine ⟨hprompt, ?_⟩
  intro ran
  have hpasses : (timetable ⟨700, 5, 8⟩ (some 2500) (World.start 100 0)).Passes
      (Unready slow "j" (World.start 100 0)) 2 := by
    refine ⟨by decide, fun k hk => ?_, fun k hk => ?_⟩
    · obtain rfl | rfl : k = 0 ∨ k = 1 := by omega
      · rintro output ⟨r, hr, -⟩
        cases hr
      · rintro output ⟨r, hr, -, houtput, hne⟩
        cases hr
        exact hne houtput.symm
    · rintro ⟨_, ⟨⟩, hcut⟩
      obtain rfl | rfl : k = 0 ∨ k = 1 := by omega
      · exact absurd hcut (by decide)
      · exact absurd hcut (by decide)
  have huncut : ¬(timetable ⟨700, 5, 8⟩ (some 2500) (World.start 100 0)).Cut 2 := by
    rintro ⟨_, ⟨⟩, hcut⟩
    exact absurd hcut (by decide)
  have hready : Ready (status slow "j" (World.start 100 0) 2) "contract D".toList :=
    ⟨_, rfl, rfl, rfl, by decide⟩
  have hpolls : Polls slow ⟨700, 5, 8⟩ "j" (some 2500) (World.start 100 0) 3 _ _ :=
    .ready 2 _ hpasses (by decide) huncut hready
  obtain ⟨hran, hlookups⟩ :=
    (poll_follows_schedule slow ⟨700, 5, 8⟩ "j" (some 2500) (World.start 100 0) hprompt).2 _ _ _ hpolls
  have hresult : ran = _ := hran
  rw [hresult]
  exact ⟨rfl, rfl, hlookups⟩

end TokenAudit.Decompiler
