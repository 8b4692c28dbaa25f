import TokenAudit.Proofs.Commit.Schedule

/-! What a commit on the clock hands over and tells. It hands its verdict over at most once, at its
start; it tells of the transaction when the writer has named it, and of a receipt when one is found. -/

namespace TokenAudit.Committer

open Commit

variable {σ : Type}

def submissions (trace : List (Nat × CommitAct)) : List (Nat × Bytes) :=
  trace.filterMap fun x => (sent? x.2).map (Prod.mk x.1)

theorem submissions_append (trace new : List (Nat × CommitAct)) :
    submissions (trace ++ new) = submissions trace ++ submissions new := List.filterMap_append

/-- How a commit goes on once its transaction has a name, and what it still tells. -/
inductive Followed (hash : Hash) : Option Result → List Call → Prop where
  | waiting : Followed hash none []
  | gaveUp (e : AuditError) : Followed hash (some (.error e)) []
  | confirmed (block : Option UInt64) :
    Followed hash (some (.ok ⟨hash, block⟩)) [.transactionConfirmed hash.hex block true]
  | reverted (block : Option UInt64) (e : AuditError) :
    Followed hash (some (.error e)) [.transactionConfirmed hash.hex block false]

def Follows (hash : Hash) (r : Run σ) (ran : Option Result × Run σ) : Prop :=
  submissions ran.2.world.trace = submissions r.world.trace ∧
    ∃ calls, ran.2.stream = r.stream.calls calls ∧ Followed hash ran.1 calls

theorem confirm_returned (c : Committer σ) (w : Window) (v : RiskVerdict) (left : Nat)
    (result : Result) (r : Run σ) : c.confirm w v left (.returned result) r = (some result, r) := by
  cases left <;> rfl

theorem looked_cases (v : RiskVerdict) (hash : Hash) (b : Budget) (l : Ledger)
    (answer : Except AuditError (Option Rpc.Receipt)) :
    Awaits hash (looked v hash b l answer).stage ∧ (looked v hash b l answer).calls = [] ∨
      ∃ result, (looked v hash b l answer).stage = .returned result ∧
        Followed hash (some result) (looked v hash b l answer).calls := by
  unfold looked
  split
  · rename_i receipt
    cases hs : receipt.succeeded with
    | true => exact .inr ⟨_, rfl, .confirmed receipt.blockNumber⟩
    | false => exact .inr ⟨_, rfl, .reverted receipt.blockNumber _⟩
  · split
    · exact .inl ⟨.gaveUp _, rfl⟩
    · exact .inl ⟨.resting b, rfl⟩

theorem awaits_rested (hash : Hash) (b : Budget) (l : Ledger) (cancelled : Bool) :
    Awaits hash (rested hash b l cancelled).stage ∧ (rested hash b l cancelled).calls = [] := by
  unfold rested
  split
  · exact ⟨.gaveUp _, rfl⟩
  · exact ⟨awaits_advance hash b, rfl⟩

theorem Follows.of_waiting {hash : Hash} {r r' : Run σ} {ran : Option Result × Run σ}
    (h : Follows hash r' ran) (hsent : submissions r'.world.trace = submissions r.world.trace)
    (hstream : r'.stream = r.stream) : Follows hash r ran := by
  obtain ⟨hs, calls, hc, hf⟩ := h
  exact ⟨hs.trans hsent, calls, hstream ▸ hc, hf⟩

theorem confirm_follows (c : Committer σ) (w : Window) (v : RiskVerdict) (left : Nat) {hash : Hash}
    {s : Stage} (hs : Awaits hash s) (r : Run σ) : Follows hash r (c.confirm w v left s r) := by
  induction left generalizing s r with
  | zero =>
    cases hs with
    | looking b | resting b => exact ⟨rfl, [], rfl, .waiting⟩
    | gaveUp e => exact ⟨rfl, [], rfl, .gaveUp e⟩
  | succ left ih =>
    cases hs with
    | gaveUp e => exact ⟨rfl, [], rfl, .gaveUp e⟩
    | looking b =>
      rw [Committer.confirm]
      have hsent : submissions ((r.world.record (.lookedUp hash)).ask w
          (c.writer.receipt hash)).2.trace = submissions r.world.trace := by
        rw [World.trace_ask, World.trace_record, submissions_append]
        exact List.append_nil _
      generalize (r.world.record (.lookedUp hash)).ask w (c.writer.receipt hash) = asked at hsent ⊢
      obtain ⟨_ | answer, world⟩ := asked
      · exact ⟨hsent, [], rfl, .waiting⟩
      · obtain ⟨hs, hcalls⟩ | ⟨result, hstage, hf⟩ := looked_cases v hash b r.ledger answer
        · refine (ih hs _).of_waiting hsent ?_
          simp only [hcalls, Stream.calls_nil]
        · simp only [Run.take, hstage, confirm_returned]
          exact ⟨hsent, _, rfl, hf⟩
    | resting b =>
      rw [Committer.confirm]
      have hsent := congrArg submissions (r.world.trace_sleep w b.intervalMs.toNat)
      generalize r.world.sleep w b.intervalMs.toNat = slept at hsent ⊢
      obtain ⟨woken, world⟩ := slept
      obtain ⟨hs, hcalls⟩ := awaits_rested hash b r.ledger (decide (woken = .cancelled))
      have hrest : Follows hash r (c.confirm w v left
          (rested hash b r.ledger (decide (woken = .cancelled))).stage
          (Run.take { r with world := world }
            (rested hash b r.ledger (decide (woken = .cancelled)))).2) := by
        refine (ih hs _).of_waiting hsent ?_
        simp only [Run.take, hcalls, Stream.calls_nil]
      cases woken with
      | expired => exact ⟨hsent, [], rfl, .waiting⟩
      | ok | cancelled => exact hrest

def calldata (c : Committer σ) (v : RiskVerdict) : Bytes :=
  Calldata.encode c.protocol v.tradeId v.score

/-- How a commit ends, with what it has handed over, each with the time, and what it has told. -/
inductive Sends (c : Committer σ) (w : Window) (v : RiskVerdict) (start : World σ CommitAct) :
    Option Result → List (Nat × Bytes) → List Call → Prop where
  | turnedAway (e : AuditError) : Sends c w v start (some (.error e)) [] []
  | unanswered (hw : w.isCancelled start.now = false) :
    Sends c w v start none [(start.now, c.calldata v)] []
  | refused (e : AuditError) (hw : w.isCancelled start.now = false) :
    Sends c w v start (some (.error e)) [(start.now, c.calldata v)] []
  | taken (hash : Hash) (result : Option Result) (calls : List Call)
      (hw : w.isCancelled start.now = false)
      (hh : ((start.record (.submitted (c.calldata v))).ask w
        (c.writer.submit (c.calldata v))).1 = some (.ok hash))
      (hf : Followed hash result calls) :
    Sends c w v start result [(start.now, c.calldata v)] (.transactionSubmitted hash.hex :: calls)

theorem open_cases (v : RiskVerdict) (cancelled : Bool) (l : Ledger) :
    (∃ e, open_ v cancelled l = ⟨.returned (.error e), l, []⟩) ∨
      cancelled = false ∧ open_ v cancelled l = ⟨.submitting, v.tradeId :: l, []⟩ := by
  unfold open_
  split
  · exact .inl ⟨_, rfl⟩
  · split
    · exact .inl ⟨_, rfl⟩
    · rename_i hcancelled
      cases h : l.reserve? v.tradeId with
      | none => exact .inl ⟨_, rfl⟩
      | some l' =>
        obtain ⟨-, rfl⟩ := (Ledger.reserve?_eq_some_iff _ _ _).mp h
        exact .inr ⟨Bool.not_eq_true _ ▸ hcancelled, rfl⟩

theorem submit_sends (c : Committer σ) {w : Window} (v : RiskVerdict) {r : Run σ}
    (hw : w.isCancelled r.world.now = false) :
    ∃ calls, Sends c w v r.world (c.submit w v r).1 [(r.world.now, c.calldata v)] calls ∧
      submissions (c.submit w v r).2.world.trace =
        submissions r.world.trace ++ [(r.world.now, c.calldata v)] ∧
      (c.submit w v r).2.stream = r.stream.calls calls := by
  have hdata : Calldata.encode c.protocol v.tradeId v.score = c.calldata v := rfl
  have hsent : submissions ((r.world.record (.submitted (c.calldata v))).ask w
      (c.writer.submit (c.calldata v))).2.trace =
        submissions r.world.trace ++ [(r.world.now, c.calldata v)] := by
    rw [World.trace_ask, World.trace_record, submissions_append]
    rfl
  have htaken := @Sends.taken σ c w v r.world
  simp only [Committer.submit, hdata]
  generalize (r.world.record (.submitted (c.calldata v))).ask w
    (c.writer.submit (c.calldata v)) = asked at hsent htaken ⊢
  obtain ⟨_ | e | hash, world⟩ := asked
  · exact ⟨[], .unanswered hw, hsent, rfl⟩
  · simp only [Run.take, submitted, confirm_returned]
    exact ⟨[], .refused e hw, hsent, rfl⟩
  · obtain ⟨hs, calls, hstream, hf⟩ := c.confirm_follows w v c.steps (awaits_advance hash c.budget)
      (Run.take { r with world := world } (submitted v c.budget r.ledger (.ok hash))).2
    exact ⟨_, htaken hash _ calls hw rfl hf, hs.trans hsent, hstream⟩

/-- Every commit ends in one of these ways, whatever the writer answers. -/
theorem commit_sends (c : Committer σ) (w : Window) (v : RiskVerdict) (r : Run σ) :
    ∃ sent calls, Sends c w v r.world (c.commit w v r).1 sent calls ∧
      submissions (c.commit w v r).2.world.trace = submissions r.world.trace ++ sent ∧
      (c.commit w v r).2.stream = r.stream.calls calls := by
  unfold Committer.commit
  obtain ⟨e, hopen⟩ | ⟨hw, hopen⟩ := open_cases v (w.isCancelled r.world.now) r.ledger
  · simp only [Run.take, hopen]
    exact ⟨[], [], .turnedAway e, (List.append_nil _).symm, rfl⟩
  · simp only [Run.take, hopen]
    obtain ⟨calls, hsends, hsent, hstream⟩ := c.submit_sends v
      (r := { r with ledger := v.tradeId :: r.ledger }) hw
    exact ⟨_, calls, hsends, hsent, hstream⟩

end TokenAudit.Committer
