import TokenAudit.Proofs.Commit.Desk

/-! A commit on the clock is one schedule of the desk: it takes the moves of a single call, in the
ledger that it shares, and hands over what the desk notes as handed over. -/

namespace TokenAudit.Commit

variable {ι α β σ : Type}

structure Answers (writer : ChainWriter σ) (reading : Reading α β) : Prop where
  submission : ∀ data s s', ∃ a, ((writer.submit data s).1.draw s').1 = reading.submission a
  lookup : ∀ hash s s', ∃ x, ((writer.receipt hash s).1.draw s').1 = reading.lookup x

structure Serves (c : Committer σ) (t : Terms ι α β) : Prop where
  protocol : t.protocol = c.protocol
  budget : t.budget = c.budget
  answers : Answers c.writer t.reading

def sent? : CommitAct → Option Bytes
  | .submitted calldata => some calldata
  | .lookedUp _ => none

def Entry.handed? : Entry ι α β → Option Bytes
  | handed _ calldata => some calldata
  | _ => none

theorem Change.filterMap_handed? {t : Terms ι α β} {i : ι} {l l' : Ledger} {s s' : Stage}
    {new : List (Entry ι α β)} (hc : Change t i l s s' l' new) (hs : s ≠ .fresh) :
    new.filterMap Entry.handed? = [] := by
  apply List.filterMap_eq_nil_iff.mpr
  intro e he
  cases e with
  | handed j c => exact absurd he (hc.not_handed hs j c)
  | _ => rfl

theorem Change.of_fresh {t : Terms ι α β} {i : ι} {l l' : Ledger} {s' : Stage}
    {new : List (Entry ι α β)} (hc : Change t i l .fresh s' l' new) :
    s' = .submitting ∨ ∃ e, s' = .returned (.error e) := by
  cases hc with
  | turnedAway e => exact .inr ⟨e, rfl⟩
  | reserved h => exact .inl rfl

variable [DecidableEq ι]

/-- Moves of one call that lead to the ledger and the end of a run, with the same data sent. -/
def Scheduled (t : Terms ι α β) (i : ι) (d : Desk ι α β) (r : Committer.Run σ)
    (ran : Option Result × Committer.Run σ) : Prop :=
  ∃ (ms : List (Move α β)) (new : List (Entry ι α β)),
    (t.run d (ms.map (Prod.mk i))).ledger = ran.2.ledger ∧
    (∀ result, ran.1 = some result → (t.run d (ms.map (Prod.mk i))).stages i = .returned result) ∧
    (t.run d (ms.map (Prod.mk i))).history = d.history ++ new ∧
    ran.2.world.acts.filterMap sent? = r.world.acts.filterMap sent? ++ new.filterMap Entry.handed?

theorem Scheduled.stay {t : Terms ι α β} {i : ι} {d : Desk ι α β} {r r' : Committer.Run σ}
    (hl : d.ledger = r'.ledger)
    (ha : r'.world.acts.filterMap sent? = r.world.acts.filterMap sent?) :
    Scheduled t i d r (none, r') := by
  refine ⟨[], [], hl, by simp, (List.append_nil _).symm, ?_⟩
  rw [ha, List.filterMap_nil, List.append_nil]

theorem Scheduled.returned {t : Terms ι α β} {i : ι} {d : Desk ι α β} {r : Committer.Run σ}
    {result : Result} (hs : d.stages i = .returned result) (hl : d.ledger = r.ledger) :
    Scheduled t i d r (some result, r) :=
  ⟨[], [], hl, fun _ h => hs.trans (congrArg _ (Option.some.inj h)),
    (List.append_nil _).symm, (List.append_nil _).symm⟩

theorem Scheduled.move {t : Terms ι α β} {i : ι} {d : Desk ι α β} {m : Move α β} {step : Step}
    {heard : List (Entry ι α β)} {r r' : Committer.Run σ}
    {ran : Option Result × Committer.Run σ}
    (hm : t.step? i d.ledger (d.stages i) m = some (step, heard))
    (hr : r'.world.acts.filterMap sent? = r.world.acts.filterMap sent? ++
      (heard ++ t.entering i step.stage).filterMap Entry.handed?)
    (h : Scheduled t i (t.move d (i, m)) r' ran) : Scheduled t i d r ran := by
  obtain ⟨ms, new, hl, hstage, hnew, hacts⟩ := h
  have hd : (t.move d (i, m)).history = d.history ++ (heard ++ t.entering i step.stage) := by
    simp only [Terms.move, hm]
  refine ⟨m :: ms, heard ++ t.entering i step.stage ++ new, hl, hstage, ?_, ?_⟩
  · change (t.run (t.move d (i, m)) (ms.map (Prod.mk i))).history = _
    rw [hnew, hd, List.append_assoc]
  · rw [hacts, hr, List.append_assoc, ← List.filterMap_append]

theorem stages_move {t : Terms ι α β} {i : ι} {d : Desk ι α β} {m : Move α β} {step : Step}
    {heard : List (Entry ι α β)} (hm : t.step? i d.ledger (d.stages i) m = some (step, heard)) :
    (t.move d (i, m)).stages i = step.stage ∧ (t.move d (i, m)).ledger = step.ledger := by
  simp only [Terms.move, hm, Function.update_self, and_self]

theorem confirm_scheduled {c : Committer σ} {t : Terms ι α β} (hc : Serves c t) (w : Window)
    (i : ι) (left : Nat) (s : Stage) (r : Committer.Run σ) (d : Desk ι α β)
    (hs : d.stages i = s) (hl : d.ledger = r.ledger) :
    Scheduled t i d r (c.confirm w (t.verdict i) left s r) := by
  -- On the steps left; a wait that ends is one move of the call, one that never ends is none.
  induction left generalizing s r d with
  | zero =>
    cases s with
    | returned result => exact .returned hs hl
    | _ => exact .stay hl rfl
  | succ left ih =>
    cases s with
    | returned result => exact .returned hs hl
    | fresh => exact .stay hl rfl
    | submitting => exact .stay hl rfl
    | looking hash b =>
      rw [Committer.confirm]
      have hrecord : (r.world.record (.lookedUp hash)).acts.filterMap sent? =
          r.world.acts.filterMap sent? := by
        rw [World.acts_record, List.filterMap_append]
        exact List.append_nil _
      obtain ⟨world, hask, hacts⟩ | ⟨s', world, hask, hacts⟩ :=
        (r.world.record (.lookedUp hash)).ask_cases w (c.writer.receipt hash)
      · rw [hask]
        exact .stay hl (hacts ▸ hrecord)
      · rw [hask]
        obtain ⟨x, hx⟩ := hc.answers.lookup hash (r.world.record (.lookedUp hash)).state s'
        rw [hx]
        have hm : t.step? i d.ledger (d.stages i) (.lookup x) =
            some (looked (t.verdict i) hash b r.ledger (t.reading.lookup x),
              [.lookedUp i hash x]) := by
          rw [hs, hl, Terms.step?]
        obtain ⟨hstage, hledger⟩ := stages_move hm
        refine .move hm ?_ (ih _ _ _ hstage hledger)
        rw [(change_of_step? hm).filterMap_handed? (by rw [hs]; exact nofun), List.append_nil]
        exact hacts ▸ hrecord
    | resting hash b =>
      rw [Committer.confirm]
      obtain ⟨woken, world, hsleep, hacts⟩ := r.world.acts_sleep w b.intervalMs.toNat
      rw [hsleep]
      have hm : t.step? i d.ledger (d.stages i) (.wake (decide (woken = .cancelled))) =
          some (rested hash b r.ledger (decide (woken = .cancelled)), []) := by
        rw [hs, hl, Terms.step?]
      obtain ⟨hstage, hledger⟩ := stages_move hm
      have hsent : world.acts.filterMap sent? = r.world.acts.filterMap sent? ++
          ([] ++ t.entering i (rested hash b r.ledger
            (decide (woken = Woken.cancelled))).stage).filterMap Entry.handed? := by
        rw [(change_of_step? hm).filterMap_handed? (by rw [hs]; exact nofun), List.append_nil,
          hacts]
      cases woken with
      | expired => exact .stay hl (by rw [hacts])
      | ok | cancelled => exact .move hm hsent (ih _ _ _ hstage hledger)

theorem submit_scheduled {c : Committer σ} {t : Terms ι α β} (hc : Serves c t) (w : Window)
    (i : ι) (r : Committer.Run σ) (d : Desk ι α β) (hs : d.stages i = .submitting)
    (hl : d.ledger = r.ledger) :
    Scheduled t i d { r with world := r.world.record (.submitted (t.calldata i)) }
      (c.submit w (t.verdict i) r) := by
  have hdata : Calldata.encode c.protocol (t.verdict i).tradeId (t.verdict i).score =
      t.calldata i := by
    rw [Terms.calldata, hc.protocol]
  simp only [Committer.submit, hdata]
  obtain ⟨world, hask, hacts⟩ | ⟨s', world, hask, hacts⟩ :=
    (r.world.record (.submitted (t.calldata i))).ask_cases w (c.writer.submit (t.calldata i))
  · rw [hask]
    exact .stay hl (congrArg (List.filterMap sent?) hacts)
  · rw [hask]
    obtain ⟨a, ha⟩ :=
      hc.answers.submission (t.calldata i) (r.world.record (.submitted (t.calldata i))).state s'
    rw [ha]
    have hm : t.step? i d.ledger (d.stages i) (.answer a) =
        some (submitted (t.verdict i) c.budget r.ledger (t.reading.submission a),
          [.answered i a]) := by
      rw [hs, hl, Terms.step?, hc.budget]
    obtain ⟨hstage, hledger⟩ := stages_move hm
    refine .move hm ?_ (confirm_scheduled hc w i _ _ _ _ hstage hledger)
    rw [(change_of_step? hm).filterMap_handed? (by rw [hs]; exact nofun), List.append_nil]
    exact congrArg (List.filterMap sent?) hacts

/-- A commit call that starts on a fresh place of the desk keeps to the desk's moves. -/
theorem commit_scheduled {c : Committer σ} {t : Terms ι α β} (hc : Serves c t) (w : Window)
    (i : ι) (r : Committer.Run σ) (d : Desk ι α β) (hs : d.stages i = .fresh)
    (hl : d.ledger = r.ledger) : Scheduled t i d r (c.commit w (t.verdict i) r) := by
  have hm : t.step? i d.ledger (d.stages i) (.start (w.isCancelled r.world.now)) =
      some (open_ (t.verdict i) (w.isCancelled r.world.now) r.ledger, []) := by
    rw [hs, hl, Terms.step?]
  obtain ⟨hstage, hledger⟩ := stages_move hm
  have hfresh := Change.of_fresh (hs ▸ change_of_step? hm)
  unfold Committer.commit Committer.Run.take
  generalize open_ (t.verdict i) (w.isCancelled r.world.now) r.ledger = step at *
  obtain ⟨stage, ledger, calls⟩ := step
  obtain rfl | ⟨e, rfl⟩ := hfresh
  · refine .move hm ?_ (submit_scheduled hc w i _ _ hstage hledger)
    change (r.world.record (.submitted (t.calldata i))).acts.filterMap sent? = _
    rw [World.acts_record, List.filterMap_append]
    rfl
  · exact .move hm (List.append_nil _).symm (.returned hstage hledger)

end TokenAudit.Commit
