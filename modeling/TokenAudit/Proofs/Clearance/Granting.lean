import Mathlib.Data.List.Induction
import TokenAudit.Proofs.Clearance.Attempts
import TokenAudit.Rpc.Chain

/-! Approvals read off a node's logs. A wait is approved on the first log of an update, whatever
the update says; that it says so too is up to the contract. -/

namespace TokenAudit

theorem World.ask_map {σ κ α β : Type} (world : World σ κ) (w : Window) (f : α → β)
    (request : Ask σ α) :
    world.ask w (request.map f) =
      ((world.ask w request).1.map f, (world.ask w request).2) := by
  rcases h : w.await world.now (request world.state).1.delay with ⟨_ | _, now⟩
  · rw [World.ask_of_await_false h]
    exact World.ask_of_await_false h
  · rw [World.ask_of_await_true h]
    exact World.ask_of_await_true h

/-- The word of an update is the boolean true. -/
def Rpc.Log.Grants (l : Rpc.Log) : Prop :=
  l.data.take Calldata.wordLength = Word.bigEndian Calldata.wordLength 1

structure NodeWatch (σ : Type) where
  client : Rpc.Client σ
  module_ : Address
  intervalMs : UInt64
  maxAttempts : UInt32
  window : Window
  token : Address
  fromBlock : UInt64

namespace NodeWatch

variable {σ : Type} (n : NodeWatch σ)

def poller : ClearancePoller σ := ⟨.ofClient n.client n.module_, n.intervalMs, n.maxAttempts⟩

def wait (world : World σ ClearanceAct) : Option Clearance × World σ ClearanceAct :=
  n.poller.wait n.window n.token n.fromBlock world

def askUpdates (before : World σ ClearanceAct) :
    Option (Except AuditError (List Rpc.Log)) × World σ ClearanceAct :=
  (before.record (.approvedAsked n.token n.fromBlock)).ask n.window
    (n.client.logs
      (ClearanceLogs.filter n.module_ Calldata.clearanceUpdatedSignature n.token n.fromBlock))

def HearsAt (world : World σ ClearanceAct) (k : Nat) (logs : List Rpc.Log) : Prop :=
  ∃ b before after, n.poller.attempt? n.window n.token n.fromBlock world k = some (b, before) ∧
    n.askUpdates before = (some (.ok logs), after)

def Hears (world : World σ ClearanceAct) (logs : List Rpc.Log) : Prop :=
  ∃ k, n.HearsAt world k logs

variable {n} {world before after : World σ ClearanceAct} {logs logs' : List Rpc.Log} {j k : Nat}

theorem check_approved_iff :
    n.poller.check n.window n.token n.fromBlock before = (some (some .approved), after) ↔
      ∃ logs, n.askUpdates before = (some (.ok logs), after) ∧ logs ≠ [] := by
  have happroved : (before.record (.approvedAsked n.token n.fromBlock)).ask n.window
      (n.poller.logs.approved n.token n.fromBlock) =
        ((n.askUpdates before).1.map fun r => r.map fun logs => !logs.isEmpty,
          (n.askUpdates before).2) := by
    unfold askUpdates poller ClearanceLogs.ofClient
    dsimp only
    rw [World.ask_map]
  rw [ClearancePoller.check_approved_iff, happroved]
  rcases n.askUpdates before with ⟨_ | e | _ | ⟨l, logs⟩, world⟩
  · simp
  · simp [Except.map]
  · simp [Except.map]
  · refine ⟨fun h => ?_, fun ⟨_, h, _⟩ => ?_⟩
    · cases h
      exact ⟨_, rfl, List.cons_ne_nil l logs⟩
    · cases h
      rfl

theorem wait_approved_iff :
    (n.wait world).1 = some .approved ↔ ∃ logs, n.Hears world logs ∧ logs ≠ [] := by
  constructor
  · intro h
    have hwait : n.wait world = (some .approved, (n.wait world).2) := Prod.ext h rfl
    obtain ⟨k, b, before, hk, hcheck⟩ := (ClearancePoller.wait_eq_decided_iff rfl).mp hwait
    obtain ⟨logs, hask, hne⟩ := check_approved_iff.mp hcheck
    exact ⟨logs, ⟨k, b, before, _, hk, hask⟩, hne⟩
  · rintro ⟨logs, ⟨k, b, before, after, hk, hask⟩, hne⟩
    have hcheck := check_approved_iff.mpr ⟨logs, hask, hne⟩
    have hwait := (ClearancePoller.wait_eq_decided_iff rfl).mpr ⟨k, b, before, hk, hcheck⟩
    exact congrArg Prod.fst hwait

theorem HearsAt.last (h : n.HearsAt world k logs) (hne : logs ≠ [])
    (h' : n.HearsAt world j logs') : j ≤ k := by
  obtain ⟨b, before, after, hk, hask⟩ := h
  obtain ⟨b', before', after', hj, -⟩ := h'
  refine Nat.le_of_not_lt fun hlt => ?_
  have hcheck := check_approved_iff.mpr ⟨logs, hask, hne⟩
  obtain ⟨more, rfl⟩ := Nat.exists_eq_add_of_lt hlt
  rw [Nat.add_right_comm, ClearancePoller.attempt?_of_decided hk hcheck more] at hj
  cases hj

theorem HearsAt.unique (h : n.HearsAt world k logs) (h' : n.HearsAt world k logs') :
    logs = logs' := by
  obtain ⟨b, before, after, hk, hask⟩ := h
  obtain ⟨b', before', after', hk', hask'⟩ := h'
  cases hk.symm.trans hk'
  cases hask.symm.trans hask'
  rfl

theorem Hears.unique (h : n.Hears world logs) (hne : logs ≠ []) (h' : n.Hears world logs')
    (hne' : logs' ≠ []) : logs = logs' := by
  obtain ⟨k, h⟩ := h
  obtain ⟨j, h'⟩ := h'
  obtain rfl : j = k := Nat.le_antisymm (h.last hne h') (h'.last hne' h)
  exact h.unique h'

/-- A wait is approved exactly when it hears of an update. So its approvals mean that clearance was
granted exactly when every list of updates that it hears holds one that grants. -/
theorem approved_exactly_on_updates (n : NodeWatch σ) (world : World σ ClearanceAct) :
    ((n.wait world).1 = some .approved ↔ ∃ logs, n.Hears world logs ∧ logs ≠ []) ∧
    (((n.wait world).1 = some .approved →
        ∃ logs, n.Hears world logs ∧ ∃ l ∈ logs, l.Grants) ↔
      ∀ logs, n.Hears world logs → logs ≠ [] → ∃ l ∈ logs, l.Grants) := by
  refine ⟨wait_approved_iff, fun h logs hears hne => ?_, fun h happroved => ?_⟩
  · obtain ⟨logs', hears', l, hl, hgrants⟩ := h (wait_approved_iff.mpr ⟨logs, hears, hne⟩)
    obtain rfl := hears.unique hne hears' (List.ne_nil_of_mem hl)
    exact ⟨l, hl, hgrants⟩
  · obtain ⟨logs, hears, hne⟩ := wait_approved_iff.mp happroved
    exact ⟨logs, hears, h logs hears hne⟩

section Withdrawn

def withdrawal : Rpc.Log where
  address := ⟨0xa⟩
  topics := [⟨0x111ba2fa893a3de18f5bb62c6ffae0b0a3ae16b25a538d88778d6e42c033d7f1⟩, ⟨0x42⟩]
  data := Word.bigEndian Calldata.wordLength 0
  blockNumber := none
  transactionHash := none

def withdrawalAnswer : Json :=
  .obj [("jsonrpc", .str "2.0"), ("id", .num (.int 1)), ("result", .arr [.obj [
    ("address", .str "0x000000000000000000000000000000000000000a"),
    ("topics", .arr [
      .str "0x111ba2fa893a3de18f5bb62c6ffae0b0a3ae16b25a538d88778d6e42c033d7f1",
      .str "0x0000000000000000000000000000000000000000000000000000000000000042"]),
    ("data", .str "0x0000000000000000000000000000000000000000000000000000000000000000")]])]

def withdrawnNode : Web.Network Rpc.Counter := fun _ =>
  Ask.pure (.ok ⟨200, Text.bytes withdrawalAnswer.renderChars⟩)

def withdrawn : NodeWatch Rpc.Counter :=
  ⟨.ofAddress "http://node" withdrawnNode Rpc.Counter.draw, ⟨0xa⟩, 1000, 1, .unbounded, ⟨0x42⟩, 0⟩

theorem withdrawn_hears : withdrawn.Hears (.start 0 .start) [withdrawal] := by
  have hask : (withdrawn.askUpdates (.start 0 .start)).1 = some (.ok [withdrawal]) := by
    decide +kernel
  exact ⟨0, _, _, _, rfl, Prod.ext hask rfl⟩

theorem withdrawn_clearance_is_approved :
    (withdrawn.wait (.start 0 .start)).1 = some .approved ∧
      ¬∃ logs, withdrawn.Hears (.start 0 .start) logs ∧ ∃ l ∈ logs, l.Grants := by
  have hne : [withdrawal] ≠ [] := List.cons_ne_nil _ _
  refine ⟨wait_approved_iff.mpr ⟨_, withdrawn_hears, hne⟩, ?_⟩
  rintro ⟨logs, hears, l, hl, hgrants⟩
  obtain rfl := withdrawn_hears.unique hne hears (List.ne_nil_of_mem hl)
  obtain rfl := List.mem_singleton.mp hl
  exact absurd hgrants (by unfold Rpc.Log.Grants; decide)

end Withdrawn

end NodeWatch

end TokenAudit
