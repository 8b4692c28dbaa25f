import TokenAudit.Proofs.Commit.Desk

/-! The history of a single commit call, at every stage where it can stand, and whether the
transaction that it handed over stands or is void. -/

namespace TokenAudit.Commit

variable {ι α β : Type}

/-- What one call has told by the time it stands at a stage. -/
inductive Told (t : Terms ι α β) (i : ι) : Stage → List (Entry ι α β) → Prop where
  | fresh : Told t i .fresh []
  | turnedAway (e : AuditError) : Told t i (.returned (.error e)) [.ended i (.error e)]
  | submitting : Told t i .submitting [.handed i (t.calldata i)]
  | refused (a : α) (e : AuditError) (h : t.reading.submission a = .error e) :
    Told t i (.returned (.error e)) [.handed i (t.calldata i), .answered i a, .ended i (.error e)]
  | awaiting (a : α) (hash : Hash) (s : Stage) (xs : List β)
      (h : t.reading.submission a = .ok hash) (hs : Awaits hash s)
      (hx : ∀ x ∈ xs, ∀ r, t.reading.lookup x ≠ .ok (some r)) :
    Told t i s (.handed i (t.calldata i) :: .answered i a ::
      (xs.map (.lookedUp i hash) ++ t.entering i s))
  | decided (a : α) (hash : Hash) (xs : List β) (x : β) (r : Rpc.Receipt)
      (h : t.reading.submission a = .ok hash)
      (hx : ∀ y ∈ xs, ∀ r, t.reading.lookup y ≠ .ok (some r))
      (hr : t.reading.lookup x = .ok (some r)) :
    Told t i (.returned (mined hash r)) (.handed i (t.calldata i) :: .answered i a ::
      (xs.map (.lookedUp i hash) ++ [.lookedUp i hash x, .ended i (mined hash r)]))

theorem Told.of_fresh {t : Terms ι α β} {i : ι} {es : List (Entry ι α β)}
    (h : Told t i .fresh es) : es = [] := by
  cases h with
  | fresh => rfl
  | awaiting a hash s xs h hs hx => cases hs

theorem Told.of_submitting {t : Terms ι α β} {i : ι} {es : List (Entry ι α β)}
    (h : Told t i .submitting es) : es = [.handed i (t.calldata i)] := by
  cases h with
  | submitting => rfl
  | awaiting a hash s xs h hs hx => cases hs

theorem Told.of_waiting {t : Terms ι α β} {i : ι} {es : List (Entry ι α β)} {hash : Hash}
    {s : Stage} (h : Told t i s es) (hs : Awaits hash s) (hb : s.isBusy = true) :
    ∃ (a : α) (xs : List β), t.reading.submission a = .ok hash ∧
      (∀ x ∈ xs, ∀ r, t.reading.lookup x ≠ .ok (some r)) ∧
      es = .handed i (t.calldata i) :: .answered i a :: xs.map (.lookedUp i hash) := by
  cases hs with
  | looking b =>
    cases h with
    | awaiting a hash' s xs ha hs' hx =>
      cases hs'
      exact ⟨a, xs, ha, hx, by simp only [Terms.entering, List.append_nil]⟩
  | resting b =>
    cases h with
    | awaiting a hash' s xs ha hs' hx =>
      cases hs'
      exact ⟨a, xs, ha, hx, by simp only [Terms.entering, List.append_nil]⟩
  | gaveUp e => cases hb

theorem Told.change {t : Terms ι α β} {i : ι} {l l' : Ledger} {s s' : Stage}
    {es new : List (Entry ι α β)} (h : Told t i s es) (hc : Change t i l s s' l' new) :
    Told t i s' (es ++ new) := by
  cases hc with
  | turnedAway e =>
    rw [h.of_fresh]
    exact .turnedAway e
  | reserved hfree =>
    rw [h.of_fresh]
    exact .submitting
  | refused a e ha =>
    rw [h.of_submitting]
    exact .refused a e ha
  | accepted a hash s ha hs =>
    rw [h.of_submitting]
    exact .awaiting a hash s' [] ha hs (fun x hx => absurd hx List.not_mem_nil)
  | decided hash b x r hr =>
    obtain ⟨a, xs, ha, hx, rfl⟩ := h.of_waiting (.looking b) rfl
    exact .decided a hash xs x r ha hx hr
  | undecided hash b x s hno hs =>
    obtain ⟨a, xs, ha, hx, rfl⟩ := h.of_waiting (.looking b) rfl
    -- The lookup joins those before it that decided nothing.
    have hxs : ∀ y ∈ xs ++ [x], ∀ r, t.reading.lookup y ≠ .ok (some r) := by
      intro y hy
      rcases List.mem_append.mp hy with hy | hy
      · exact hx y hy
      · rw [List.mem_singleton.mp hy]
        exact hno
    have told := Told.awaiting (t := t) (i := i) a hash s' (xs ++ [x]) ha hs hxs
    simpa only [List.map_append, List.map_cons, List.map_nil, List.append_assoc,
      List.cons_append, List.nil_append] using told
  | woken hash b s hs =>
    obtain ⟨a, xs, ha, hx, rfl⟩ := h.of_waiting (.resting b) rfl
    exact .awaiting a hash s' xs ha hs hx

/-- Nothing of the transaction takes effect: the writer failed, or the transaction that it named
was mined without success. -/
def Voided (t : Terms ι α β) (h : List (Entry ι α β)) (i : ι) : Prop :=
  (∃ a e, .answered i a ∈ h ∧ t.reading.submission a = .error e) ∨
  ∃ a hash x r, List.Sublist [.answered i a, .lookedUp i hash x] h ∧
    t.reading.submission a = .ok hash ∧ t.reading.lookup x = .ok (some r) ∧ r.succeeded = false

theorem Voided.of_sublist {t : Terms ι α β} {h h' : List (Entry ι α β)} {i : ι}
    (hv : Voided t h i) (hs : List.Sublist h h') : Voided t h' i := by
  obtain ⟨a, e, ha, he⟩ | ⟨a, hash, x, r, hsub, ha, hr, hf⟩ := hv
  · exact .inl ⟨a, e, hs.subset ha, he⟩
  · exact .inr ⟨a, hash, x, r, hsub.trans hs, ha, hr, hf⟩

/-- The verdict was handed over, and nothing heard since says that it is void. -/
structure Stands (t : Terms ι α β) (h : List (Entry ι α β)) (i : ι) : Prop where
  handed : ∃ c, .handed i c ∈ h
  taken : ∀ a e, .answered i a ∈ h → t.reading.submission a ≠ .error e
  unrefuted : ∀ hash x r, .lookedUp i hash x ∈ h → t.reading.lookup x = .ok (some r) →
    r.succeeded = true

theorem Stands.of_append {t : Terms ι α β} {h new : List (Entry ι α β)} {i : ι}
    (hs : Stands t (h ++ new) i) (hn : ∀ c, .handed i c ∉ new) : Stands t h i := by
  obtain ⟨c, hc⟩ := hs.handed
  refine ⟨⟨c, ?_⟩, fun a e ha => hs.taken a e (List.mem_append_left _ ha),
    fun hash x r hx => hs.unrefuted hash x r (List.mem_append_left _ hx)⟩
  exact (List.mem_append.mp hc).resolve_right (hn c)

theorem stands_handed (t : Terms ι α β) (i : ι) : Stands t [.handed i (t.calldata i)] i :=
  ⟨⟨_, List.mem_singleton_self _⟩, by simp, by simp⟩

theorem stands_awaiting {t : Terms ι α β} {i : ι} {a : α} {hash : Hash} {xs : List β}
    {rest : List (Entry ι α β)} (h : t.reading.submission a = .ok hash)
    (hx : ∀ x ∈ xs, ∀ r, t.reading.lookup x ≠ .ok (some r))
    (hrest : ∀ e ∈ rest, (∃ result, e = .ended i result) ∨
      ∃ k x r, e = .lookedUp i k x ∧ t.reading.lookup x = .ok (some r) ∧ r.succeeded = true) :
    Stands t (.handed i (t.calldata i) :: .answered i a ::
      (xs.map (.lookedUp i hash) ++ rest)) i := by
  refine ⟨⟨_, List.mem_cons_self⟩, ?_, ?_⟩
  · intro a' e ha'
    simp only [List.mem_cons, reduceCtorEq, Entry.answered.injEq, true_and, List.mem_append,
      List.mem_map, false_or, and_false, exists_false] at ha'
    rcases ha' with rfl | ha'
    · rw [h]
      exact nofun
    · obtain ⟨_, he⟩ | ⟨_, _, _, he, _⟩ := hrest _ ha' <;> cases he
  · intro k x r hmem hr
    simp only [List.mem_cons, reduceCtorEq, List.mem_append, List.mem_map, false_or,
      Entry.lookedUp.injEq, true_and] at hmem
    rcases hmem with ⟨y, hy, -, rfl⟩ | hmem
    · exact absurd hr (hx y hy r)
    · obtain ⟨_, he⟩ | ⟨_, y, r', he, hr', hs⟩ := hrest _ hmem
      · cases he
      · cases he
        rw [hr'] at hr
        cases hr
        exact hs

theorem Told.fate {t : Terms ι α β} {i : ι} {s : Stage} {es : List (Entry ι α β)}
    (h : Told t i s es) :
    (Stands t es i) ∨ (Voided t es i ∧ ∃ e, s = .returned (.error e)) ∨
      ((∀ c, .handed i c ∉ es) ∧ (s = .fresh ∨ ∃ e, s = .returned (.error e))) := by
  cases h with
  | fresh => exact .inr (.inr ⟨fun _ => List.not_mem_nil, .inl rfl⟩)
  | turnedAway e =>
    exact .inr (.inr ⟨by simp, .inr ⟨e, rfl⟩⟩)
  | submitting => exact .inl (stands_handed t i)
  | refused a e ha =>
    exact .inr (.inl ⟨.inl ⟨a, e, by simp, ha⟩, e, rfl⟩)
  | awaiting a hash s xs ha hs hx =>
    exact .inl (stands_awaiting ha hx fun e he => .inl (mem_entering_ended hs he))
  | decided a hash xs x r ha hx hr =>
    cases hr' : r.succeeded with
    | true =>
      refine .inl (stands_awaiting ha hx fun e he => ?_)
      rcases List.mem_cons.mp he with rfl | he
      · exact .inr ⟨hash, x, r, rfl, hr, hr'⟩
      · exact .inl ⟨_, List.mem_singleton.mp he⟩
    | false =>
      rw [mined_of_failed hash hr']
      refine .inr (.inl ⟨.inr ⟨a, hash, x, r, ?_, ha, hr, hr'⟩, reverted hash, rfl⟩)
      refine .cons _ (.cons_cons _ (.trans ?_ (List.sublist_append_right _ _)))
      exact .cons_cons _ (List.nil_sublist _)

theorem Told.stands_of_busy {t : Terms ι α β} {i : ι} {s : Stage} {es : List (Entry ι α β)}
    (h : Told t i s es) (hb : s.isBusy = true) : Stands t es i := by
  obtain hs | ⟨-, e, rfl⟩ | ⟨-, rfl | ⟨e, rfl⟩⟩ := h.fate
  · exact hs
  all_goals cases hb

theorem Told.stands_of_ok {t : Terms ι α β} {i : ι} {receipt : CommitReceipt}
    {es : List (Entry ι α β)} (h : Told t i (.returned (.ok receipt)) es) : Stands t es i := by
  obtain hs | ⟨-, e, he⟩ | ⟨-, he | ⟨e, he⟩⟩ := h.fate
  · exact hs
  all_goals cases he

theorem Told.stands_or_voided {t : Terms ι α β} {i : ι} {s : Stage} {es : List (Entry ι α β)}
    {c : Bytes} (h : Told t i s es) (hc : .handed i c ∈ es) : Stands t es i ∨ Voided t es i := by
  obtain hs | ⟨hv, -⟩ | ⟨hno, -⟩ := h.fate
  · exact .inl hs
  · exact .inr hv
  · exact absurd hc (hno c)

theorem Told.stage_of_ended {t : Terms ι α β} {i : ι} {s : Stage} {es : List (Entry ι α β)}
    {result : Result} (h : Told t i s es) (he : .ended i result ∈ es) : s = .returned result := by
  cases h with
  | fresh => cases he
  | awaiting a hash s xs ha hs hx => cases hs <;> simp_all [Terms.entering]
  | _ => simp_all

theorem Told.answer_unique {t : Terms ι α β} {i : ι} {s : Stage} {es : List (Entry ι α β)}
    {a a' : α} (h : Told t i s es) (ha : .answered i a ∈ es) (ha' : .answered i a' ∈ es) :
    a = a' := by
  cases h with
  | awaiting b hash s xs hb hs hx => cases hs <;> simp_all [Terms.entering]
  | _ => simp_all

theorem Told.receipt_unique {t : Terms ι α β} {i : ι} {s : Stage} {es : List (Entry ι α β)}
    {hash hash' : Hash} {x x' : β} {r r' : Rpc.Receipt} (h : Told t i s es)
    (hm : .lookedUp i hash x ∈ es) (hr : t.reading.lookup x = .ok (some r))
    (hm' : .lookedUp i hash' x' ∈ es) (hr' : t.reading.lookup x' = .ok (some r')) : r = r' := by
  cases h with
  | awaiting a k s xs ha hs hx =>
    have hmem : x ∈ xs := by cases hs <;> simp_all [Terms.entering]
    exact absurd hr (hx x hmem r)
  | decided a k xs y q ha hx hq =>
    -- Both lookups are the last one, since the first receipt ends the call.
    have last : ∀ {k' z p}, (.lookedUp i k' z : Entry ι α β) ∈ xs.map (.lookedUp i k) ++
        [.lookedUp i k y, .ended i (mined k q)] → t.reading.lookup z = .ok (some p) → q = p := by
      intro k' z p hz hp
      rcases List.mem_append.mp hz with hz | hz
      · obtain ⟨u, hu, he⟩ := List.mem_map.mp hz
        cases he
        exact absurd hp (hx z hu p)
      · simp only [List.mem_cons, Entry.lookedUp.injEq, reduceCtorEq, List.not_mem_nil,
          or_false, true_and] at hz
        obtain ⟨-, rfl⟩ := hz
        exact Option.some.inj (Except.ok.inj (hq.symm.trans hp))
    simp only [List.mem_cons, reduceCtorEq, false_or] at hm hm'
    rw [← last hm hr, ← last hm' hr']
  | _ => simp_all

theorem Change.ledger_cases {t : Terms ι α β} {i : ι} {l l' : Ledger} {s s' : Stage}
    {new : List (Entry ι α β)} (hc : Change t i l s s' l' new) :
    (t.tradeId i ∉ l ∧ l' = t.tradeId i :: l ∧ new = [.handed i (t.calldata i)]) ∨
    ((∀ j c, .handed j c ∉ new) ∧ (l' = l ∨
      s.isBusy = true ∧ l' = l.release (t.tradeId i) ∧ ∀ h, ¬Stands t (h ++ new) i)) := by
  have hno := hc.not_handed
  cases hc with
  | turnedAway e => exact .inr ⟨by simp, .inl rfl⟩
  | reserved hfree => exact .inl ⟨hfree, rfl, rfl⟩
  | refused a e ha =>
    refine .inr ⟨hno nofun, .inr ⟨rfl, rfl, fun h hs => ?_⟩⟩
    exact hs.taken a e (List.mem_append_right _ List.mem_cons_self) ha
  | accepted | undecided | woken => exact .inr ⟨hno nofun, .inl rfl⟩
  | decided hash b x r hr =>
    refine .inr ⟨hno nofun, ?_⟩
    cases hf : r.succeeded with
    | true => exact .inl rfl
    | false =>
      refine .inr ⟨rfl, rfl, fun h hs => ?_⟩
      have := hs.unrefuted hash x r (List.mem_append_right _ List.mem_cons_self) hr
      rw [hf] at this
      cases this

end TokenAudit.Commit
