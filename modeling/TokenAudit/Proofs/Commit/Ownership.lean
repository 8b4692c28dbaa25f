import TokenAudit.Proofs.Commit.Told

/-! Who owns a trade id: a call that has handed over a verdict which is not void holds the id in the
ledger, and holds it alone. Every move of every interleaving keeps this. -/

namespace TokenAudit.Commit

variable {ι α β : Type} [DecidableEq ι]

def own (h : List (Entry ι α β)) (i : ι) : List (Entry ι α β) :=
  h.filter fun e => decide (e.call = i)

theorem mem_own {h : List (Entry ι α β)} {i : ι} {e : Entry ι α β} :
    e ∈ own h i ↔ e ∈ h ∧ e.call = i := by
  simp only [own, List.mem_filter, decide_eq_true_eq]

theorem stands_own (t : Terms ι α β) (h : List (Entry ι α β)) (i : ι) :
    Stands t (own h i) i ↔ Stands t h i := by
  constructor
  · rintro ⟨⟨c, hc⟩, htaken, hrefuted⟩
    exact ⟨⟨c, (mem_own.mp hc).1⟩, fun a e ha => htaken a e (mem_own.mpr ⟨ha, rfl⟩),
      fun hash x r hx => hrefuted hash x r (mem_own.mpr ⟨hx, rfl⟩)⟩
  · rintro ⟨⟨c, hc⟩, htaken, hrefuted⟩
    exact ⟨⟨c, mem_own.mpr ⟨hc, rfl⟩⟩, fun a e ha => htaken a e (mem_own.mp ha).1,
      fun hash x r hx => hrefuted hash x r (mem_own.mp hx).1⟩

theorem own_append_self {i : ι} {h new : List (Entry ι α β)}
    (hnew : ∀ e ∈ new, e.call = i) :
    own (h ++ new) i = own h i ++ new := by
  unfold own
  rw [List.filter_append]
  congr 1
  exact List.filter_eq_self.mpr fun e he => decide_eq_true (hnew e he)

theorem own_append_of_ne {i j : ι} {h new : List (Entry ι α β)}
    (hnew : ∀ e ∈ new, e.call = i) (hij : j ≠ i) :
    own (h ++ new) j = own h j := by
  have hnone : new.filter (fun e => decide (e.call = j)) = [] := by
    apply List.filter_eq_nil_iff.mpr
    intro e he
    rw [hnew e he]
    simpa only [decide_eq_true_eq] using hij.symm
  unfold own
  rw [List.filter_append, hnone, List.append_nil]

/-- The invariant of a desk: every call has told what its stage says, every verdict that stands
is booked in the ledger, and no two of one trade id stand. -/
structure Desk.Sound (t : Terms ι α β) (d : Desk ι α β) : Prop where
  told : ∀ i, Told t i (d.stages i) (own d.history i)
  booked : ∀ i, Stands t d.history i → t.tradeId i ∈ d.ledger
  sole : ∀ i j, Stands t d.history i → Stands t d.history j → t.tradeId i = t.tradeId j → i = j

namespace Desk

variable {t : Terms ι α β} {d : Desk ι α β}

theorem sound_start (t : Terms ι α β) (l : Ledger) : Sound t (start l) where
  told _ := .fresh
  booked _ h := by
    obtain ⟨c, hc⟩ := h.handed
    cases hc
  sole _ _ h := by
    obtain ⟨c, hc⟩ := h.handed
    cases hc

theorem Sound.stands_of_busy (hd : Sound t d) {i : ι} (hb : (d.stages i).isBusy = true) :
    Stands t d.history i := (stands_own t d.history i).mp ((hd.told i).stands_of_busy hb)

theorem Sound.stage_of_ended (hd : Sound t d) {i : ι} {result : Result}
    (he : .ended i result ∈ d.history) : d.stages i = .returned result :=
  (hd.told i).stage_of_ended (mem_own.mpr ⟨he, rfl⟩)

theorem Sound.stands_of_ok (hd : Sound t d) {i : ι} {receipt : CommitReceipt}
    (he : .ended i (.ok receipt) ∈ d.history) : Stands t d.history i := by
  have told := hd.told i
  rw [hd.stage_of_ended he] at told
  exact (stands_own t d.history i).mp told.stands_of_ok

theorem Sound.stands_or_voided (hd : Sound t d) {i : ι} {c : Bytes}
    (hc : .handed i c ∈ d.history) : Stands t d.history i ∨ Voided t d.history i := by
  obtain hs | hv := (hd.told i).stands_or_voided (mem_own.mpr ⟨hc, rfl⟩)
  · exact .inl ((stands_own t d.history i).mp hs)
  · exact .inr (hv.of_sublist List.filter_sublist)

theorem Sound.answer_unique (hd : Sound t d) {i : ι} {a a' : α}
    (ha : .answered i a ∈ d.history) (ha' : .answered i a' ∈ d.history) : a = a' :=
  (hd.told i).answer_unique (mem_own.mpr ⟨ha, rfl⟩) (mem_own.mpr ⟨ha', rfl⟩)

theorem Sound.receipt_unique (hd : Sound t d) {i : ι} {hash hash' : Hash} {x x' : β}
    {r r' : Rpc.Receipt} (hm : .lookedUp i hash x ∈ d.history)
    (hr : t.reading.lookup x = .ok (some r)) (hm' : .lookedUp i hash' x' ∈ d.history)
    (hr' : t.reading.lookup x' = .ok (some r')) : r = r' :=
  (hd.told i).receipt_unique (mem_own.mpr ⟨hm, rfl⟩) hr (mem_own.mpr ⟨hm', rfl⟩) hr'

theorem Sound.voided_of_free (hd : Sound t d) {i j : ι} {c : Bytes}
    (hfree : t.tradeId i ∉ d.ledger) (hc : .handed j c ∈ d.history)
    (hij : t.tradeId j = t.tradeId i) : Voided t d.history j := by
  obtain hs | hv := hd.stands_or_voided hc
  · exact absurd (hij ▸ hd.booked j hs) hfree
  · exact hv

theorem Sound.change (hd : Sound t d) {i : ι} {s' : Stage} {l' : Ledger}
    {new : List (Entry ι α β)} (hc : Change t i d.ledger (d.stages i) s' l' new) :
    Sound t ⟨Function.update d.stages i s', l', d.history ++ new⟩ := by
  have hnew : ∀ e ∈ new, e.call = i := fun e he => hc.call_of_mem he
  have told : ∀ j, Told t j (Function.update d.stages i s' j) (own (d.history ++ new) j) := by
    intro j
    by_cases hj : j = i
    · subst hj
      rw [Function.update_self, own_append_self hnew]
      exact (hd.told j).change hc
    · rw [Function.update_of_ne hj, own_append_of_ne hnew hj]
      exact hd.told j
  obtain ⟨hfree, rfl, -⟩ | ⟨hno, hl⟩ := hc.ledger_cases
  -- A new owner: whoever else stands has another trade id, since this one was free.
  · have before : ∀ j, j ≠ i → Stands t (d.history ++ new) j → Stands t d.history j := by
      intro j hj hst
      apply hst.of_append
      intro c hm
      exact hj (hnew _ hm)
    have other : ∀ j, j ≠ i → Stands t (d.history ++ new) j → t.tradeId j ≠ t.tradeId i := by
      intro j hj hst heq
      exact hfree (heq ▸ hd.booked j (before j hj hst))
    refine ⟨told, fun j hst => ?_, fun j k hj hk hjk => ?_⟩
    · by_cases hj : j = i
      · exact hj ▸ List.mem_cons_self
      · exact List.mem_cons_of_mem _ (hd.booked j (before j hj hst))
    · by_cases hji : j = i
      · by_cases hki : k = i
        · rw [hji, hki]
        · exact absurd (hji ▸ hjk.symm) (other k hki hk)
      · by_cases hki : k = i
        · exact absurd (hki ▸ hjk) (other j hji hj)
        · exact hd.sole j k (before j hji hj) (before k hki hk) hjk
  · have before : ∀ j, Stands t (d.history ++ new) j → Stands t d.history j :=
      fun j hst => hst.of_append (hno j)
    refine ⟨told, fun j hst => ?_, fun j k hj hk => hd.sole j k (before j hj) (before k hk)⟩
    obtain rfl | ⟨hb, rfl, hvoid⟩ := hl
    · exact hd.booked j (before j hst)
    -- The owner releases its own trade id, so nobody who still stands loses theirs.
    · refine (Ledger.mem_release _ _ _).mpr ⟨hd.booked j (before j hst), fun heq => ?_⟩
      have hji := hd.sole j i (before j hst) (hd.stands_of_busy hb) heq
      subst hji
      exact hvoid _ hst

theorem Sound.move (hd : Sound t d) (m : ι × Move α β) : Sound t (t.move d m) := by
  unfold Terms.move
  cases h : t.step? m.1 d.ledger (d.stages m.1) m.2 with
  | none => exact hd
  | some p => exact hd.change (change_of_step? h)

theorem Sound.run (hd : Sound t d) (ms : List (ι × Move α β)) : Sound t (t.run d ms) := by
  induction ms generalizing d with
  | nil => exact hd
  | cons m ms ih => exact ih (hd.move m)

end Desk

end TokenAudit.Commit
