import Mathlib.Data.List.Induction
import TokenAudit.Lists
import TokenAudit.Proofs.Commit.Ownership

/-! Over any interleaving of commit calls, at most one verdict of a trade takes effect. -/

namespace TokenAudit.Commit

variable {ι α β : Type} [DecidableEq ι]

theorem free_of_handed (t : Terms ι α β) (l : Ledger) (ms : List (ι × Move α β))
    {before after : List (Entry ι α β)} {i : ι} {c : Bytes}
    (h : (t.run (.start l) ms).history = before ++ .handed i c :: after) :
    ∃ ns, (t.run (.start l) ns).history = before ∧ t.tradeId i ∉ (t.run (.start l) ns).ledger := by
  -- On the end of the run: the entry is older than the last move, or that move has made it.
  induction ms using List.reverseRecOn generalizing after with
  | nil => exact absurd h (by simp [Terms.run, Desk.start])
  | append_singleton ms m ih =>
    rw [Terms.run_append] at h
    change (t.move (t.run (.start l) ms) m).history = _ at h
    unfold Terms.move at h
    split at h
    · rename_i step heard hstep
      have hc := change_of_step? hstep
      obtain ⟨rest, hold, -⟩ | ⟨rest, hb, hnew⟩ := split_append h
      · exact ih hold
      · obtain ⟨hfree, -, hone⟩ | ⟨hno, -⟩ := hc.ledger_cases
        · rw [hone, List.singleton_eq_append_iff] at hnew
          obtain ⟨rfl, hx⟩ | ⟨-, hx⟩ := hnew
          · obtain ⟨hx, -⟩ := List.cons.inj hx
            cases hx
            exact ⟨ms, by rw [hb, List.append_nil], hfree⟩
          · cases hx
        · refine absurd ?_ (hno i c)
          rw [hnew]
          exact List.mem_append_right _ List.mem_cons_self
    · exact ih h

/-- For each trade id at most one call is between its reservation and its end. A verdict is handed
over only when every earlier one of its trade is void by then. At most one call of a trade
succeeds, and none of its verdicts is handed over afterwards. -/
theorem commits_at_most_once (t : Terms ι α β) (l : Ledger) (ms : List (ι × Move α β)) :
    (∀ i j, ((t.run (.start l) ms).stages i).isBusy = true →
      ((t.run (.start l) ms).stages j).isBusy = true → t.tradeId i = t.tradeId j → i = j) ∧
    (∀ before i c after, (t.run (.start l) ms).history = before ++ .handed i c :: after →
      ∀ j c', .handed j c' ∈ before → t.tradeId j = t.tradeId i → Voided t before j) ∧
    (∀ i j r r', .ended i (.ok r) ∈ (t.run (.start l) ms).history →
      .ended j (.ok r') ∈ (t.run (.start l) ms).history → t.tradeId i = t.tradeId j → i = j) ∧
    (∀ before i r after, (t.run (.start l) ms).history = before ++ .ended i (.ok r) :: after →
      ∀ j c, .handed j c ∈ after → t.tradeId j ≠ t.tradeId i) := by
  have sound : ∀ ns, Desk.Sound t (t.run (.start l) ns) :=
    fun ns => (Desk.sound_start t l).run ns
  refine ⟨?_, ?_, ?_, ?_⟩
  · intro i j hi hj
    exact (sound ms).sole i j ((sound ms).stands_of_busy hi) ((sound ms).stands_of_busy hj)
  · intro before i c after h j c' hj hij
    obtain ⟨ns, rfl, hfree⟩ := free_of_handed t l ms h
    exact (sound ns).voided_of_free hfree hj hij
  · intro i j r r' hi hj
    exact (sound ms).sole i j ((sound ms).stands_of_ok hi) ((sound ms).stands_of_ok hj)
  · intro before i r after h j c hj hji
    obtain ⟨mid, rest, rfl⟩ := List.append_of_mem hj
    rw [← List.cons_append, ← List.append_assoc] at h
    obtain ⟨ns, hns, hfree⟩ := free_of_handed t l ms h
    have hi : .ended i (.ok r) ∈ (t.run (.start l) ns).history := by
      rw [hns]
      exact List.mem_append_right _ List.mem_cons_self
    exact hfree (hji ▸ (sound ns).booked i ((sound ns).stands_of_ok hi))

end TokenAudit.Commit
