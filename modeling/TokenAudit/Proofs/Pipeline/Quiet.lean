import TokenAudit.Pipeline
import TokenAudit.Proofs.Detector.Calls
import TokenAudit.Proofs.Stream.PhaseLog

/-! What the detectors and the committer tell while they work: nothing about phases and nothing about
the end of the run. -/

namespace TokenAudit

theorem Call.isQuiet_of_ofDetector {c : Call} (h : c.ofDetector = true) : c.isQuiet = true := by
  cases c with
  | phase | finalVerdict | fatal => cases h
  | _ => rfl

namespace Committer

open Commit

variable {σ : Type}

theorem isQuiet_open {v : RiskVerdict} {cancelled : Bool} {l : Ledger} :
    ∀ c ∈ (open_ v cancelled l).calls, c.isQuiet = true := by
  unfold open_
  repeat' split
  all_goals simp

theorem isQuiet_submitted {v : RiskVerdict} {budget : Budget} {l : Ledger}
    {answer : Except AuditError Hash} :
    ∀ c ∈ (submitted v budget l answer).calls, c.isQuiet = true := by
  cases answer <;> simp [submitted, Call.isQuiet]

theorem isQuiet_looked {v : RiskVerdict} {hash : Hash} {b : Budget} {l : Ledger}
    {answer : Except AuditError (Option Rpc.Receipt)} :
    ∀ c ∈ (looked v hash b l answer).calls, c.isQuiet = true := by
  unfold looked
  split
  · split <;> simp [Call.isQuiet]
  · split <;> simp

theorem isQuiet_rested {hash : Hash} {b : Budget} {l : Ledger} {cancelled : Bool} :
    ∀ c ∈ (rested hash b l cancelled).calls, c.isQuiet = true := by
  unfold rested
  split <;> simp

variable {log : List (Phase × PhaseStatus)}

theorem openAt_take {r : Run σ} (h : r.stream.OpenAt log) {step : Step}
    (hq : ∀ c ∈ step.calls, c.isQuiet = true) : (r.take step).2.stream.OpenAt log :=
  h.quiets hq

theorem openAt_confirm (c : Committer σ) (w : Window) (v : RiskVerdict) (left : Nat) (s : Stage)
    {r : Run σ} (h : r.stream.OpenAt log) : (c.confirm w v left s r).2.stream.OpenAt log := by
  induction left generalizing s r with
  | zero => cases s <;> exact h
  | succ left ih =>
    cases s with
    | fresh | submitting | returned => exact h
    | looking hash b =>
      rw [Committer.confirm]
      split
      · exact h
      · exact ih _ (openAt_take h isQuiet_looked)
    | resting hash b =>
      rw [Committer.confirm]
      split
      · exact h
      · exact ih _ (openAt_take h isQuiet_rested)

theorem openAt_submit (c : Committer σ) (w : Window) (v : RiskVerdict) {r : Run σ}
    (h : r.stream.OpenAt log) : (c.submit w v r).2.stream.OpenAt log := by
  simp only [Committer.submit]
  split
  · exact h
  · exact openAt_confirm c w v _ _ (openAt_take h isQuiet_submitted)

theorem openAt_commit (c : Committer σ) (w : Window) (v : RiskVerdict) {r : Run σ}
    (h : r.stream.OpenAt log) : (c.commit w v r).2.stream.OpenAt log := by
  have hopen : (r.take (open_ v (w.isCancelled r.world.now) r.ledger)).2.stream.OpenAt log :=
    openAt_take h isQuiet_open
  unfold Committer.commit
  generalize r.take (open_ v (w.isCancelled r.world.now) r.ledger) = taken at hopen ⊢
  obtain ⟨stage, r⟩ := taken
  cases stage with
  | submitting => exact openAt_submit c w v hopen
  | _ => exact hopen

end Committer

end TokenAudit
