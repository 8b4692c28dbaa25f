import Mathlib.Order.Bounds.Basic
import TokenAudit.Proofs.Detector.Findings
import TokenAudit.Proofs.Wait.TimeLimit

/-! How long the detectors take. They wait side by side, so that the last of them, and not all of
them together, sets the time; that their ends are awaited in slot order adds nothing to it. -/

namespace TokenAudit.Panel

open World (within)

variable {σ : Type}

theorem endOf_eq_within (timeoutMs : Nat) (delay : Option Nat) :
    (endOf timeoutMs delay).1 = within timeoutMs delay := by
  cases delay with
  | none => rfl
  | some d =>
    by_cases h : d ≤ timeoutMs
    · simp only [endOf, within, if_pos h, Nat.min_eq_left h]
    · simp only [endOf, within, if_neg h, Nat.min_eq_right (Nat.le_of_not_le h)]

/-! ### The detectors of a run -/

def started (p : Panel σ) (source : SourceResult) : List (Slot σ) :=
  if source.isAvailable then p.slots else []

def delays (p : Panel σ) (token : Address) (source : SourceResult) (s : σ) : List (Option Nat) :=
  let input := DetectorInput.ofSource token source
  (p.security token s).1.delay ::
    (p.asked input (p.started source) (p.workSecurity token source s).2).map fun q =>
      (q.1.ask systemPrompt input.prompt q.2).1.delay

def modelWork (p : Panel σ) (token : Address) (source : SourceResult) (s : σ) :
    List (Worked Assessment) :=
  (p.workSlots (.ofSource token source) (p.started source) (p.workSecurity token source s).2).1

theorem endsAt_workSecurity (p : Panel σ) (token : Address) (source : SourceResult) (s : σ) :
    (p.workSecurity token source s).1.endsAt = within p.timeoutMs (p.security token s).1.delay :=
  endOf_eq_within p.timeoutMs _

theorem endsAt_workSlots (p : Panel σ) (input : DetectorInput) (slots : List (Slot σ)) (s : σ) :
    (p.workSlots input slots s).1.map Worked.endsAt = (p.asked input slots s).map fun q =>
      within p.timeoutMs (q.1.ask systemPrompt input.prompt q.2).1.delay := by
  induction slots generalizing s with
  | nil => rfl
  | cons slot slots ih =>
    have hfirst : (p.workSlot input slot s).1.endsAt =
        within p.timeoutMs (slot.ask systemPrompt input.prompt s).1.delay :=
      endOf_eq_within p.timeoutMs _
    rw [workSlots, asked, List.map_cons, List.map_cons, ih, hfirst]

theorem endsAt_works (p : Panel σ) (token : Address) (source : SourceResult) (s : σ) :
    (p.workSecurity token source s).1.endsAt :: (p.modelWork token source s).map Worked.endsAt =
      (p.delays token source s).map (within p.timeoutMs) := by
  rw [modelWork, endsAt_workSlots, endsAt_workSecurity, delays, List.map_cons, List.map_map]
  rfl

/-! ### The latest end -/

theorem latest_cons (start : Nat) (w : Worked Assessment) (ws : List (Worked Assessment)) :
    latest start (w :: ws) = latest (max start w.endsAt) ws := rfl

theorem isGreatest_latest (start : Nat) (ws : List (Worked Assessment)) :
    IsGreatest {n | n ∈ start :: ws.map Worked.endsAt} (latest start ws) := by
  induction ws generalizing start with
  | nil => exact ⟨List.mem_singleton_self _, fun n hn => Nat.le_of_eq (List.mem_singleton.mp hn)⟩
  | cons w ws ih =>
    obtain ⟨hmem, hupper⟩ := ih (max start w.endsAt)
    have hfirst := hupper List.mem_cons_self
    rw [latest_cons]
    refine ⟨?_, fun n hn => ?_⟩
    · rcases List.mem_cons.mp hmem with hmax | hlater
      · rw [hmax]
        rcases Nat.le_total start w.endsAt with hle | hle
        · simp [Nat.max_eq_right hle]
        · simp [Nat.max_eq_left hle]
      · exact List.mem_cons_of_mem _ (List.mem_cons_of_mem _ hlater)
    · rcases List.mem_cons.mp hn with rfl | hn
      · exact Nat.le_trans (Nat.le_max_left _ _) hfirst
      rcases List.mem_cons.mp hn with rfl | hn
      · exact Nat.le_trans (Nat.le_max_right _ _) hfirst
      · exact hupper (List.mem_cons_of_mem _ hn)

theorem isGreatest_duration (p : Panel σ) (token : Address) (source : SourceResult) (s : σ) :
    IsGreatest {n | ∃ delay ∈ p.delays token source s, within p.timeoutMs delay = n}
      (p.run token source s).duration := by
  have hlatest := isGreatest_latest (p.workSecurity token source s).1.endsAt
    (p.modelWork token source s)
  have hduration : (p.run token source s).duration =
      latest (p.workSecurity token source s).1.endsAt (p.modelWork token source s) := rfl
  rw [endsAt_works] at hlatest
  rw [hduration]
  simpa only [List.mem_map] using hlatest

theorem last_noticedAt (now : Nat) (ws : List (Worked Assessment)) :
    (now :: (timedModels now ws).map Timed.noticedAt).getLast (List.cons_ne_nil _ _) =
      latest now ws := by
  -- The ends are awaited one after another: after the last wait no time has been lost.
  induction ws generalizing now with
  | nil => rfl
  | cons w ws ih =>
    have hnext := ih (max now w.endsAt)
    simp only [timedModels, List.map_cons, Timed.noticedAt_ofWorked, latest_cons]
    rw [List.getLast_cons (List.cons_ne_nil _ _)]
    exact hnext

/-- The instants at which one who waits for the detectors in turn takes note of their ends. -/
def noticed (p : Panel σ) (token : Address) (source : SourceResult) (s : σ) : List Nat :=
  (timed (p.workSecurity token source s).1 (p.modelWork token source s)).map Timed.noticedAt

theorem last_noticed (p : Panel σ) (token : Address) (source : SourceResult) (s : σ) :
    (p.noticed token source s).getLast? = some (p.run token source s).duration := by
  have hlast := last_noticedAt (p.workSecurity token source s).1.endsAt (p.modelWork token source s)
  have hnoticed : p.noticed token source s = (p.workSecurity token source s).1.endsAt ::
      (timedModels (p.workSecurity token source s).1.endsAt (p.modelWork token source s)).map
        Timed.noticedAt := by
    rw [noticed, timed, List.map_cons, Timed.noticedAt_ofWorked]
  rw [hnoticed, List.getLast?_eq_some_getLast (List.cons_ne_nil _ _), hlast]
  rfl

/-! ### What is accepted -/

theorem staticMask_run (p : Panel σ) (token : Address) (source : SourceResult) (s : σ) :
    (∀ r, p.Reports token s r → (p.run token source s).aggregation.staticMask =
      Rules.evaluate p.sellTaxThreshold (some r) source) ∧
    ((∀ r, ¬p.Reports token s r) → (p.run token source s).aggregation.staticMask =
      Rules.evaluate p.sellTaxThreshold none source) := by
  have hmask : (p.run token source s).aggregation.staticMask = Rules.evaluate p.sellTaxThreshold
      (p.workSecurity token source s).1.outcome.answer? source := rfl
  have hanswer := p.answer?_workSecurity token source s
  refine ⟨fun r hr => ?_, fun hno => ?_⟩
  · rw [hmask, (hanswer r).mpr hr]
  · have hnone : (p.workSecurity token source s).1.outcome.answer? = none :=
      Option.eq_none_iff_forall_not_mem.mpr fun r hr => hno r ((hanswer r).mp hr)
    rw [hmask, hnone]

theorem mem_assessments_run (p : Panel σ) (token : Address) (source : SourceResult) (s : σ)
    (x : Assessment) : x ∈ (p.run token source s).aggregation.assessments ↔
      source.isAvailable = true ∧ p.Given token source s x := by
  have hanswers := p.mem_answers_workSlots (.ofSource token source) (p.started source)
    (p.workSecurity token source s).2 x
  refine Iff.trans hanswers ?_
  cases hs : source.isAvailable with
  | true => simp [started, hs, Given]
  | false => simp [started, hs, asked]

end TokenAudit.Panel
