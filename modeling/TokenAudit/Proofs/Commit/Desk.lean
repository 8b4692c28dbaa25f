import Mathlib.Logic.Function.Basic
import TokenAudit.Commit

/-! Commit calls that share one ledger. Each call moves from one wait to the next, the moves of
different calls fall in any order, and all that passes between the committer and the chain is kept
in one history. `Change` says once what a move can do. -/

namespace TokenAudit.Commit

/-- How a writer reads what comes in for a submission and for a lookup. -/
structure Reading (α β : Type) where
  submission : α → Except AuditError Hash
  lookup : β → Except AuditError (Option Rpc.Receipt)

inductive Entry (ι α β : Type) where
  | handed (i : ι) (calldata : Bytes)
  | answered (i : ι) (a : α)
  | lookedUp (i : ι) (hash : Hash) (b : β)
  | ended (i : ι) (result : Result)

def Entry.call {ι α β : Type} : Entry ι α β → ι
  | handed i _ => i
  | answered i _ => i
  | lookedUp i _ _ => i
  | ended i _ => i

/-- All calls of one committer, with the verdict that each of them brings. -/
structure Terms (ι α β : Type) where
  verdict : ι → RiskVerdict
  protocol : Calldata.Protocol
  budget : Budget
  reading : Reading α β

structure Desk (ι α β : Type) where
  stages : ι → Stage
  ledger : Ledger
  history : List (Entry ι α β)

def Desk.start {ι α β : Type} (l : Ledger) : Desk ι α β := ⟨fun _ => .fresh, l, []⟩

inductive Move (α β : Type) where
  | start (cancelled : Bool)
  | answer (a : α)
  | lookup (b : β)
  | wake (cancelled : Bool)

def Stage.isBusy : Stage → Bool
  | submitting => true
  | looking _ _ => true
  | resting _ _ => true
  | _ => false

namespace Terms

variable {ι α β : Type}

def tradeId (t : Terms ι α β) (i : ι) : Uint256 := (t.verdict i).tradeId

def calldata (t : Terms ι α β) (i : ι) : Bytes :=
  Calldata.encode t.protocol (t.verdict i).tradeId (t.verdict i).score

def entering (t : Terms ι α β) (i : ι) : Stage → List (Entry ι α β)
  | .submitting => [.handed i (t.calldata i)]
  | .returned result => [.ended i result]
  | _ => []

/-- The step that a move takes from a stage, and what the call heard; none if it does not fit. -/
def step? (t : Terms ι α β) (i : ι) (l : Ledger) :
    Stage → Move α β → Option (Step × List (Entry ι α β))
  | .fresh, .start cancelled => some (open_ (t.verdict i) cancelled l, [])
  | .submitting, .answer a =>
    some (submitted (t.verdict i) t.budget l (t.reading.submission a), [.answered i a])
  | .looking hash b, .lookup x =>
    some (looked (t.verdict i) hash b l (t.reading.lookup x), [.lookedUp i hash x])
  | .resting hash b, .wake cancelled => some (rested hash b l cancelled, [])
  | _, _ => none

variable [DecidableEq ι]

def move (t : Terms ι α β) (d : Desk ι α β) (m : ι × Move α β) : Desk ι α β :=
  match t.step? m.1 d.ledger (d.stages m.1) m.2 with
  | some (step, heard) =>
    { stages := Function.update d.stages m.1 step.stage
      ledger := step.ledger
      history := d.history ++ (heard ++ t.entering m.1 step.stage) }
  | none => d

def run (t : Terms ι α β) (d : Desk ι α β) (ms : List (ι × Move α β)) : Desk ι α β :=
  ms.foldl t.move d

theorem run_append (t : Terms ι α β) (d : Desk ι α β) (ms ns : List (ι × Move α β)) :
    t.run d (ms ++ ns) = t.run (t.run d ms) ns := List.foldl_append

end Terms

inductive Awaits (hash : Hash) : Stage → Prop where
  | looking (b : Budget) : Awaits hash (.looking hash b)
  | resting (b : Budget) : Awaits hash (.resting hash b)
  | gaveUp (e : AuditError) : Awaits hash (.returned (.error e))

theorem awaits_advance (hash : Hash) (b : Budget) : Awaits hash (advance hash b) := by
  unfold advance
  cases b.begin? with
  | none => exact .gaveUp _
  | some c => exact .looking c

def reverted (hash : Hash) : AuditError :=
  .upstream "receiving-contract" 0 s!"verdict transaction {hash.hex} reverted"

def mined (hash : Hash) (r : Rpc.Receipt) : Result :=
  if r.succeeded then .ok ⟨hash, r.blockNumber⟩ else .error (reverted hash)

theorem mined_of_failed (hash : Hash) {r : Rpc.Receipt} (h : r.succeeded = false) :
    mined hash r = .error (reverted hash) := by
  rw [mined, h, if_neg Bool.false_ne_true]

section Change

variable {ι α β : Type}

/-- All that a move can do: stage before and after, ledger after, and entries added. -/
inductive Change (t : Terms ι α β) (i : ι) (l : Ledger) :
    Stage → Stage → Ledger → List (Entry ι α β) → Prop where
  | turnedAway (e : AuditError) : Change t i l .fresh (.returned (.error e)) l [.ended i (.error e)]
  | reserved (h : t.tradeId i ∉ l) :
    Change t i l .fresh .submitting (t.tradeId i :: l) [.handed i (t.calldata i)]
  | refused (a : α) (e : AuditError) (h : t.reading.submission a = .error e) :
    Change t i l .submitting (.returned (.error e)) (l.release (t.tradeId i))
      [.answered i a, .ended i (.error e)]
  | accepted (a : α) (hash : Hash) (s : Stage) (h : t.reading.submission a = .ok hash)
      (hs : Awaits hash s) :
    Change t i l .submitting s l (.answered i a :: t.entering i s)
  | decided (hash : Hash) (b : Budget) (x : β) (r : Rpc.Receipt)
      (h : t.reading.lookup x = .ok (some r)) :
    Change t i l (.looking hash b) (.returned (mined hash r))
      (if r.succeeded then l else l.release (t.tradeId i))
      [.lookedUp i hash x, .ended i (mined hash r)]
  | undecided (hash : Hash) (b : Budget) (x : β) (s : Stage)
      (h : ∀ r, t.reading.lookup x ≠ .ok (some r)) (hs : Awaits hash s) :
    Change t i l (.looking hash b) s l (.lookedUp i hash x :: t.entering i s)
  | woken (hash : Hash) (b : Budget) (s : Stage) (hs : Awaits hash s) :
    Change t i l (.resting hash b) s l (t.entering i s)

theorem Change.ofOpen (t : Terms ι α β) (i : ι) (l : Ledger) (cancelled : Bool) :
    Change t i l .fresh (open_ (t.verdict i) cancelled l).stage
      (open_ (t.verdict i) cancelled l).ledger
      (t.entering i (open_ (t.verdict i) cancelled l).stage) := by
  unfold open_
  split
  · exact .turnedAway _
  · split
    · exact .turnedAway _
    · cases h : l.reserve? (t.verdict i).tradeId with
      | none => exact .turnedAway _
      | some l' =>
        obtain ⟨hfree, rfl⟩ := (Ledger.reserve?_eq_some_iff _ _ _).mp h
        exact .reserved hfree

theorem Change.ofSubmitted (t : Terms ι α β) (i : ι) (l : Ledger) (a : α) :
    Change t i l .submitting
      (submitted (t.verdict i) t.budget l (t.reading.submission a)).stage
      (submitted (t.verdict i) t.budget l (t.reading.submission a)).ledger
      (.answered i a :: t.entering i
        (submitted (t.verdict i) t.budget l (t.reading.submission a)).stage) := by
  cases h : t.reading.submission a with
  | error e => exact .refused a e h
  | ok hash => exact .accepted a hash _ h (awaits_advance hash t.budget)

theorem Change.ofLooked (t : Terms ι α β) (i : ι) (l : Ledger) (hash : Hash) (b : Budget) (x : β) :
    Change t i l (.looking hash b)
      (looked (t.verdict i) hash b l (t.reading.lookup x)).stage
      (looked (t.verdict i) hash b l (t.reading.lookup x)).ledger
      (.lookedUp i hash x :: t.entering i
        (looked (t.verdict i) hash b l (t.reading.lookup x)).stage) := by
  -- Only a receipt decides; after any other answer the call waits on or gives up.
  have waits : ∀ answer, (∀ r, answer ≠ .ok (some r)) →
      Awaits hash (looked (t.verdict i) hash b l answer).stage ∧
        (looked (t.verdict i) hash b l answer).ledger = l := by
    intro answer hno
    unfold looked
    split
    · exact absurd rfl (hno _)
    · split
      · exact ⟨.gaveUp _, rfl⟩
      · exact ⟨.resting b, rfl⟩
  by_cases h : ∃ r, t.reading.lookup x = .ok (some r)
  · obtain ⟨r, hr⟩ := h
    have hdec := Change.decided (t := t) (i := i) (l := l) hash b x r hr
    rw [hr]
    unfold looked
    unfold mined at hdec
    cases hs : r.succeeded with
    | true =>
      simp only [hs, if_true] at hdec ⊢
      exact hdec
    | false =>
      simp only [hs, Bool.false_eq_true, if_false] at hdec ⊢
      exact hdec
  · have hno : ∀ r, t.reading.lookup x ≠ .ok (some r) := fun r hr => h ⟨r, hr⟩
    obtain ⟨hs, hl⟩ := waits _ hno
    rw [hl]
    exact .undecided hash b x _ hno hs

theorem Change.ofRested (t : Terms ι α β) (i : ι) (l : Ledger) (hash : Hash) (b : Budget)
    (cancelled : Bool) :
    Change t i l (.resting hash b) (rested hash b l cancelled).stage
      (rested hash b l cancelled).ledger (t.entering i (rested hash b l cancelled).stage) := by
  unfold rested
  split
  · exact .woken hash b _ (.gaveUp _)
  · exact .woken hash b _ (awaits_advance hash b)

theorem change_of_step? {t : Terms ι α β} {i : ι} {l : Ledger} {s : Stage} {m : Move α β}
    {step : Step} {heard : List (Entry ι α β)} (h : t.step? i l s m = some (step, heard)) :
    Change t i l s step.stage step.ledger (heard ++ t.entering i step.stage) := by
  unfold Terms.step? at h
  split at h
  · cases h; exact .ofOpen t i l _
  · cases h; exact .ofSubmitted t i l _
  · cases h; exact .ofLooked t i l _ _ _
  · cases h; exact .ofRested t i l _ _ _
  · cases h

theorem call_of_mem_entering {t : Terms ι α β} {i : ι} {s : Stage} {e : Entry ι α β}
    (h : e ∈ t.entering i s) : e.call = i := by
  unfold Terms.entering at h
  split at h
  · rw [List.mem_singleton.mp h, Entry.call]
  · rw [List.mem_singleton.mp h, Entry.call]
  · cases h

theorem mem_entering_ended {t : Terms ι α β} {i : ι} {hash : Hash} {s : Stage}
    {e : Entry ι α β} (hs : Awaits hash s) (he : e ∈ t.entering i s) :
    ∃ result, e = .ended i result := by
  cases hs with
  | looking | resting => cases he
  | gaveUp e => exact ⟨_, List.mem_singleton.mp he⟩

theorem not_handed_entering {t : Terms ι α β} {i : ι} {hash : Hash} {s : Stage}
    (hs : Awaits hash s) (j : ι) (c : Bytes) : .handed j c ∉ t.entering i s := by
  intro hm
  obtain ⟨_, he⟩ := mem_entering_ended hs hm
  cases he

theorem Change.not_handed {t : Terms ι α β} {i : ι} {l l' : Ledger} {s s' : Stage}
    {new : List (Entry ι α β)} (h : Change t i l s s' l' new) (hs : s ≠ .fresh) (j : ι)
    (c : Bytes) : .handed j c ∉ new := by
  cases h with
  | turnedAway | reserved => exact absurd rfl hs
  | refused | decided => simp
  | accepted a hash s ha hw =>
    exact List.not_mem_cons_of_ne_of_not_mem nofun (not_handed_entering hw j c)
  | undecided hash b x s hno hw =>
    exact List.not_mem_cons_of_ne_of_not_mem nofun (not_handed_entering hw j c)
  | woken hash b s hw => exact not_handed_entering hw j c

theorem Change.call_of_mem {t : Terms ι α β} {i : ι} {l l' : Ledger} {s s' : Stage}
    {new : List (Entry ι α β)} (h : Change t i l s s' l' new) {e : Entry ι α β} (he : e ∈ new) :
    e.call = i := by
  cases h with
  | turnedAway | reserved => rw [List.mem_singleton.mp he, Entry.call]
  | refused | decided =>
    rcases List.mem_cons.mp he with rfl | he
    · rfl
    · rw [List.mem_singleton.mp he, Entry.call]
  | accepted | undecided =>
    rcases List.mem_cons.mp he with rfl | he
    · rfl
    · exact call_of_mem_entering he
  | woken => exact call_of_mem_entering he

end Change

end TokenAudit.Commit
