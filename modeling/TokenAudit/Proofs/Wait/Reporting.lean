import TokenAudit.Wait.Scope

/-! What signals report. A cancellation is kept for good exactly when a signal is there to see it;
one that comes while there is none leaves no trace. -/

namespace TokenAudit.CancelScope

/-- There is an owner to cancel, and a signal to see it. -/
def Heeded (s : CancelScope) : Prop := s.owned = true ∧ s.signals ≠ []

theorem fired_act_iff (s : CancelScope) (a : Act) :
    (s.act a).fired = true ↔ s.fired = true ∨ a = .cancel ∧ s.Heeded := by
  cases a with
  | cancel =>
    by_cases ho : s.owned = true
    · by_cases hs : s.signals = []
      · simp [act, cancel, Heeded, ho, hs]
      · simp [act, cancel, Heeded, ho, hs]
    · simp [act, Heeded, ho]
  | subscribe => by_cases ho : s.owned = true <;> simp [act, addSignal, ho]
  | clone i => by_cases hi : i ∈ s.signals <;> simp [act, addSignal, hi]
  | drop i => simp [act]
  | release => simp [act]

theorem run_cons (s : CancelScope) (a : Act) (acts : List Act) :
    s.run (a :: acts) = (s.act a).run acts := rfl

def Reaches (s : CancelScope) (acts : List Act) : Prop :=
  ∃ before after, acts = before ++ .cancel :: after ∧ (s.run before).Heeded

theorem reaches_cons_iff (s : CancelScope) (a : Act) (acts : List Act) :
    s.Reaches (a :: acts) ↔ (a = .cancel ∧ s.Heeded) ∨ (s.act a).Reaches acts := by
  constructor
  · rintro ⟨_ | ⟨b, before⟩, after, h, hheeded⟩
    · exact .inl ⟨(List.cons.inj h).1, hheeded⟩
    · obtain ⟨rfl, hrest⟩ := List.cons.inj h
      exact .inr ⟨before, after, hrest, hheeded⟩
  · rintro (⟨rfl, hheeded⟩ | ⟨before, after, rfl, hheeded⟩)
    · exact ⟨[], acts, rfl, hheeded⟩
    · exact ⟨a :: before, after, rfl, hheeded⟩

theorem fired_run_iff (s : CancelScope) (acts : List Act) :
    (s.run acts).fired = true ↔ s.fired = true ∨ s.Reaches acts := by
  induction acts generalizing s with
  | nil => exact ⟨.inl, fun h => h.resolve_right fun ⟨_, _, h, _⟩ => by simp at h⟩
  | cons a acts ih => rw [run_cons, ih, fired_act_iff, reaches_cons_iff, or_assoc]

theorem isCancelled?_of_mem {s : CancelScope} {i : Nat} (h : i ∈ s.signals) :
    s.isCancelled? i = some s.fired := if_pos h

/-- Signals report a cancellation exactly if one came while a signal was there, so all signals do
once it finds a single one, and none does before the first. -/
theorem cancels_are_kept_unless_unseen (acts : List Act) :
    let s := opened.run acts
    (∀ i ∈ s.signals, s.isCancelled? i = some true ↔ opened.Reaches acts) ∧
    (∀ before after, acts = before ++ .cancel :: after → (opened.run before).owned = true →
      ∀ i ∈ (opened.run before).signals, ∀ j ∈ s.signals, s.isCancelled? j = some true) ∧
    (.cancel ∉ acts → ∀ i ∈ s.signals, s.isCancelled? i = some false) := by
  intro s
  have hfired : s.fired = true ↔ opened.Reaches acts :=
    (fired_run_iff opened acts).trans (or_iff_right nofun)
  have hreports : ∀ i ∈ s.signals, s.isCancelled? i = some true ↔ opened.Reaches acts := by
    intro i hi
    rw [isCancelled?_of_mem hi, Option.some_inj, hfired]
  refine ⟨hreports, ?_, ?_⟩
  · intro before after hacts howned i hi j hj
    exact (hreports j hj).mpr ⟨before, after, hacts, howned, List.ne_nil_of_mem hi⟩
  · intro hnone i hi
    have hunfired : s.fired = false := by
      refine Bool.eq_false_iff.mpr fun h => ?_
      obtain ⟨before, after, rfl, -⟩ := hfired.mp h
      exact hnone (List.mem_append_right _ List.mem_cons_self)
    rw [isCancelled?_of_mem hi, hunfired]

theorem unseen_cancel_is_lost :
    ∃ before after i, (opened.run before).owned = true ∧
      i ∈ (opened.run (before ++ .cancel :: after)).signals ∧
      (opened.run (before ++ .cancel :: after)).isCancelled? i = some false :=
  ⟨[.drop 0], [.subscribe], 1, by decide⟩

end TokenAudit.CancelScope
