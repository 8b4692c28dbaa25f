import TokenAudit.Proofs.Commit.Clock

/-! How a commit on the clock fails, and what has come in by then for each failure. A verdict that may
be committed is never refused for what it says. -/

namespace TokenAudit

namespace Budget

theorem of_begin? {b b' : Budget} (h : b.begin? = some b') :
    b'.maxAttempts = b.maxAttempts ∧ b'.attempts ≤ b'.maxAttempts := by
  obtain ⟨hmore, hattempts, hmax, -⟩ := attempts_of_begin? h
  refine ⟨hmax, ?_⟩
  rw [UInt32.le_iff_toNat_le, hattempts, hmax]
  exact hmore

theorem attempts_of_isExhausted {b : Budget} (h : b.isExhausted = true)
    (hle : b.attempts ≤ b.maxAttempts) : b.attempts = b.maxAttempts :=
  UInt32.le_antisymm hle (of_decide_eq_true h)

end Budget

theorem Window.isCancelled_of_sleep {w : Window} {now duration wake : Nat}
    (h : w.sleep now duration = (.cancelled, wake)) : w.isCancelled wake = true := by
  unfold sleep at h
  by_cases hnow : w.isCancelled now = true
  · rw [if_pos hnow] at h
    cases h
    exact hnow
  · rw [if_neg hnow] at h
    cases hc : w.cancelAt with
    | none =>
      simp only [hc] at h
      split at h <;> cases h
    | some t =>
      simp only [hc] at h
      by_cases ht : t < now + duration
      · simp only [if_pos ht] at h
        split at h
        · cases h
        · cases h
          simp [isCancelled, hc]
      · simp only [if_neg ht] at h
        split at h <;> cases h

namespace Committer

open Commit

variable {σ : Type}

def reply (c : Committer σ) (w : Window) (v : RiskVerdict) (r : Run σ) :
    Option (Except AuditError Hash) :=
  ((r.world.record (.submitted (c.calldata v))).ask w (c.writer.submit (c.calldata v))).1

def Finds (c : Committer σ) (w : Window) (hash : Hash) (receipt : Rpc.Receipt) : Prop :=
  ∃ world : World σ CommitAct,
    ((world.record (.lookedUp hash)).ask w (c.writer.receipt hash)).1 = some (.ok (some receipt))

/-- The failures of a commit, each with what has led to it. -/
inductive Fails (c : Committer σ) (w : Window) (v : RiskVerdict) (start : Run σ) :
    AuditError → Prop where
  | cancelled (hw : w.isCancelled start.world.now = true) :
    Fails c w v start (.cancelled "verdict commit")
  | duplicate (hl : v.tradeId ∈ start.ledger) : Fails c w v start (.duplicateCommit v.tradeId)
  | refused (e : AuditError) (h : c.reply w v start = some (.error e)) : Fails c w v start e
  | reverted (hash : Hash) (receipt : Rpc.Receipt) (h : c.reply w v start = some (.ok hash))
      (hr : c.Finds w hash receipt) (hs : receipt.succeeded = false) :
    Fails c w v start
      (.upstream "receiving-contract" 0 s!"verdict transaction {hash.hex} reverted")
  | unconfirmed (hash : Hash) (h : c.reply w v start = some (.ok hash)) :
    Fails c w v start (.timeout s!"confirmation of {hash.hex}" c.confirmAttempts)
  | interrupted (hash : Hash) (now : Nat) (h : c.reply w v start = some (.ok hash))
      (hw : w.isCancelled now = true) : Fails c w v start (.cancelled "verdict confirmation")

def Allotted (c : Committer σ) (b : Budget) : Prop :=
  b.maxAttempts = c.confirmAttempts ∧ b.attempts ≤ b.maxAttempts

theorem allotted_fresh (c : Committer σ) : c.Allotted c.budget :=
  ⟨rfl, UInt32.le_iff_toNat_le.mpr (Nat.zero_le _)⟩

/-- Where a commit may stand: not begun, handing over, following its transaction, or over for a
reason. -/
inductive Standing (c : Committer σ) (w : Window) (v : RiskVerdict) (start : Run σ) :
    Stage × Run σ → Prop where
  | fresh : Standing c w v start (.fresh, start)
  | submitting (r : Run σ) (hr : r.world = start.world) : Standing c w v start (.submitting, r)
  | looking (hash : Hash) (b : Budget) (r : Run σ) (h : c.reply w v start = some (.ok hash))
    (hb : c.Allotted b) : Standing c w v start (.looking hash b, r)
  | resting (hash : Hash) (b : Budget) (r : Run σ) (h : c.reply w v start = some (.ok hash))
    (hb : c.Allotted b) : Standing c w v start (.resting hash b, r)
  | succeeded (receipt : CommitReceipt) (r : Run σ) :
    Standing c w v start (.returned (.ok receipt), r)
  | failed (e : AuditError) (r : Run σ) (he : Fails c w v start e) :
    Standing c w v start (.returned (.error e), r)

section

variable {c : Committer σ} {w : Window} {v : RiskVerdict} {start : Run σ}

theorem standing_timedOut {hash : Hash} {b : Budget} (h : c.reply w v start = some (.ok hash))
    (hb : c.Allotted b) (he : b.isExhausted = true) (r : Run σ) :
    Standing c w v start (.returned (timedOut hash b), r) := by
  have hattempts : b.attempts = c.confirmAttempts :=
    (Budget.attempts_of_isExhausted he hb.2).trans hb.1
  unfold timedOut
  rw [hattempts]
  exact .failed _ r (.unconfirmed hash h)

theorem standing_advance {hash : Hash} {b : Budget} (h : c.reply w v start = some (.ok hash))
    (hb : c.Allotted b) (r : Run σ) : Standing c w v start (advance hash b, r) := by
  unfold advance
  cases hbegin : b.begin? with
  | none => exact standing_timedOut h hb ((Budget.begin?_eq_none_iff b).mp hbegin) r
  | some b' =>
    obtain ⟨hmax, hle⟩ := Budget.of_begin? hbegin
    exact .looking hash b' r h ⟨hmax.trans hb.1, hle⟩

theorem standing_open (hv : v.isCommittable = true) :
    Standing c w v start (start.take (open_ v (w.isCancelled start.world.now) start.ledger)) := by
  simp only [open_, hv, not_true_eq_false, if_false]
  by_cases hw : w.isCancelled start.world.now = true
  · rw [if_pos hw]
    exact .failed _ _ (.cancelled hw)
  · rw [if_neg hw]
    cases hl : start.ledger.reserve? v.tradeId with
    | some l => exact .submitting _ rfl
    | none =>
      have hmem : v.tradeId ∈ start.ledger := by
        by_contra hnot
        rw [(Ledger.reserve?_eq_some_iff _ _ _).mpr ⟨hnot, rfl⟩] at hl
        cases hl
      exact .failed _ _ (.duplicate hmem)

theorem Standing.of_moves {x y : Stage × Run σ} (hv : v.isCommittable = true)
    (h : Standing c w v start x) (hstep : c.Moves w v x y) : Standing c w v start y := by
  cases hstep with
  | opened r =>
    cases h with
    | fresh => exact standing_open hv
  | answered r answer world hask =>
    cases h with
    | submitting _ hr =>
      have hreply : c.reply w v start = some answer := by
        rw [reply, ← hr, hask]
      cases answer with
      | error e => exact .failed e _ (.refused e hreply)
      | ok hash => exact standing_advance hreply c.allotted_fresh _
  | looked r hash b answer world hask =>
    cases h with
    | looking _ _ _ hreply hb =>
      unfold Run.take Commit.looked
      split
      · rename_i receipt
        cases hs : receipt.succeeded with
        | true => exact .succeeded _ _
        | false =>
          have hfinds : c.Finds w hash receipt := ⟨r.world, by rw [hask]⟩
          exact .failed _ _ (.reverted hash receipt hreply hfinds hs)
      · by_cases he : b.isExhausted = true
        · rw [if_pos he]
          exact standing_timedOut hreply hb he _
        · rw [if_neg he]
          exact .resting hash b _ hreply hb
  | rested r hash b woken world hsleep hw =>
    cases h with
    | resting _ _ _ hreply hb =>
      unfold Run.take Commit.rested
      by_cases hcancelled : woken = .cancelled
      · subst hcancelled
        have hfired := Window.isCancelled_of_sleep (congrArg (Prod.map id World.now) hsleep)
        simp only [decide_true, if_true]
        exact .failed _ _ (.interrupted hash _ hreply hfired)
      · simp only [hcancelled, decide_false, Bool.false_eq_true, if_false]
        exact standing_advance hreply hb _

theorem Comes.standing {x : Stage × Run σ} (hv : v.isCommittable = true)
    (h : c.Comes w v (.fresh, start) x) : Standing c w v start x := by
  induction h with
  | refl => exact .fresh
  | tail _ hstep ih => exact ih.of_moves hv hstep

theorem fails_of_commit (hv : v.isCommittable = true) {e : AuditError}
    (h : (c.commit w v start).1 = some (.error e)) : Fails c w v start e := by
  have hcomes := (c.commit_eq_iff_comes w v start _ _).mp (Prod.ext h rfl)
  cases hcomes.standing hv with
  | failed _ _ he => exact he

end

end Committer

end TokenAudit
