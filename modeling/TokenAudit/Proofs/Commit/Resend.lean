import TokenAudit.Proofs.Commit.AtMostOnce

/-! When a trade is sent again. A call that starts hands its verdict over as soon as no other call
holds the trade id, and a call under way gives the id up only on an answer that ends it in
failure. -/

namespace TokenAudit.Commit

variable {ι α β : Type} [DecidableEq ι] {t : Terms ι α β} {d : Desk ι α β} {i j : ι}

theorem open_of_free {v : RiskVerdict} {l : Ledger} (hv : v.isCommittable = true)
    (hl : v.tradeId ∉ l) : (open_ v false l).stage = .submitting := by
  have h : l.reserve? v.tradeId = some (v.tradeId :: l) :=
    (Ledger.reserve?_eq_some_iff _ _ _).mpr ⟨hl, rfl⟩
  simp [open_, hv, h]

theorem open_of_reserved {v : RiskVerdict} {l : Ledger} (cancelled : Bool)
    (hl : v.tradeId ∈ l) : (open_ v cancelled l).stage ≠ .submitting := by
  have h : l.reserve? v.tradeId = none := by
    cases h : l.reserve? v.tradeId with
    | none => rfl
    | some l' => exact absurd hl ((Ledger.reserve?_eq_some_iff _ _ _).mp h).1
  unfold open_
  split
  · exact nofun
  · split
    · exact nofun
    · rw [h]
      exact nofun

theorem handed_start_iff (hd : d.Sound t) (hj : d.stages j = .fresh)
    (hv : (t.verdict j).isCommittable = true) (c : Bytes) :
    .handed j c ∈ (t.move d (j, .start false)).history ↔
      c = t.calldata j ∧ t.tradeId j ∉ d.ledger := by
  have hm : t.step? j d.ledger (d.stages j) (.start false) =
      some (open_ (t.verdict j) false d.ledger, []) := by
    rw [hj, Terms.step?]
  -- A fresh call has handed over nothing, so the entry can only be new.
  have hnew : .handed j c ∉ d.history := by
    intro h
    have told := hd.told j
    rw [hj] at told
    have hmem : .handed j c ∈ own d.history j := mem_own.mpr ⟨h, rfl⟩
    rw [told.of_fresh] at hmem
    cases hmem
  simp only [Terms.move, hm, List.nil_append, List.mem_append, hnew, false_or]
  by_cases hl : t.tradeId j ∈ d.ledger
  · have hs := open_of_reserved false hl
    refine ⟨fun h => ?_, fun h => absurd hl h.2⟩
    unfold Terms.entering at h
    split at h
    · exact absurd (by assumption) hs
    · cases List.mem_singleton.mp h
    · cases h
  · rw [open_of_free hv hl, Terms.entering, List.mem_singleton, Entry.handed.injEq]
    simp only [true_and, hl, not_false_eq_true, and_true]

theorem resent_iff (hd : d.Sound t) {m : Move α β} {step : Step} {heard : List (Entry ι α β)}
    (hm : t.step? i d.ledger (d.stages i) m = some (step, heard)) (hi : d.stages i ≠ .fresh)
    (hj : d.stages j = .fresh) (hij : t.tradeId j = t.tradeId i)
    (hv : (t.verdict j).isCommittable = true) :
    .handed j (t.calldata j) ∈ (t.run d [(i, m), (j, .start false)]).history ↔
      t.tradeId i ∉ step.ledger := by
  have hne : j ≠ i := fun h => hi (h ▸ hj)
  have hstage : (t.move d (i, m)).stages j = .fresh := by
    simp only [Terms.move, hm, Function.update_of_ne hne, hj]
  have hledger : (t.move d (i, m)).ledger = step.ledger := by
    simp only [Terms.move, hm]
  change _ ∈ (t.move (t.move d (i, m)) (j, .start false)).history ↔ _
  rw [handed_start_iff (hd.move (i, m)) hstage hv, hledger, hij]
  exact and_iff_right rfl

theorem resent_after_answer_iff (hd : d.Sound t) (hi : d.stages i = .submitting)
    (hj : d.stages j = .fresh) (hij : t.tradeId j = t.tradeId i)
    (hv : (t.verdict j).isCommittable = true) (a : α) :
    .handed j (t.calldata j) ∈ (t.run d [(i, .answer a), (j, .start false)]).history ↔
      ∃ e, t.reading.submission a = .error e := by
  have hbooked : t.tradeId i ∈ d.ledger :=
    hd.booked i (hd.stands_of_busy (congrArg Stage.isBusy hi))
  have hm : t.step? i d.ledger (d.stages i) (.answer a) =
      some (submitted (t.verdict i) t.budget d.ledger (t.reading.submission a),
        [.answered i a]) := by
    rw [hi, Terms.step?]
  rw [resent_iff hd hm (hi ▸ nofun) hj hij hv]
  cases t.reading.submission a with
  | error e =>
    refine iff_of_true (fun h => ?_) ⟨e, rfl⟩
    exact ((Ledger.mem_release _ _ _).mp h).2 rfl
  | ok hash => exact iff_of_false (fun h => h hbooked) nofun

theorem resent_after_lookup_iff (hd : d.Sound t) {hash : Hash} {b : Budget}
    (hi : d.stages i = .looking hash b) (hj : d.stages j = .fresh)
    (hij : t.tradeId j = t.tradeId i) (hv : (t.verdict j).isCommittable = true) (x : β) :
    .handed j (t.calldata j) ∈ (t.run d [(i, .lookup x), (j, .start false)]).history ↔
      ∃ r, t.reading.lookup x = .ok (some r) ∧ r.succeeded = false := by
  have hbooked : t.tradeId i ∈ d.ledger :=
    hd.booked i (hd.stands_of_busy (congrArg Stage.isBusy hi))
  have hm : t.step? i d.ledger (d.stages i) (.lookup x) =
      some (looked (t.verdict i) hash b d.ledger (t.reading.lookup x), [.lookedUp i hash x]) := by
    rw [hi, Terms.step?]
  rw [resent_iff hd hm (hi ▸ nofun) hj hij hv]
  have hc := change_of_step? hm
  rw [hi] at hc
  -- What a lookup can do is read off the change, without opening the step.
  generalize looked (t.verdict i) hash b d.ledger (t.reading.lookup x) = step at hc ⊢
  obtain ⟨stage, ledger, calls⟩ := step
  cases hc with
  | decided _ _ _ r hr =>
    cases hf : r.succeeded with
    | false =>
      refine iff_of_true (fun h => ?_) ⟨r, hr, hf⟩
      exact ((Ledger.mem_release _ _ _).mp h).2 rfl
    | true =>
      refine iff_of_false (fun h => h hbooked) ?_
      rintro ⟨r', hr', hf'⟩
      rw [hr] at hr'
      cases hr'
      rw [hf] at hf'
      cases hf'
  | undecided _ _ _ s hno hs =>
    refine iff_of_false (fun h => h hbooked) ?_
    rintro ⟨r, hr, -⟩
    exact hno r hr

end TokenAudit.Commit
