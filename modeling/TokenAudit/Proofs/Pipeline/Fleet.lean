import Mathlib.Data.List.Induction
import Mathlib.Logic.Function.Basic
import TokenAudit.Proofs.Pipeline.Replay
import TokenAudit.Proofs.Pipeline.Steps

/-! Runs of one pipeline side by side. They share its committer, and so one ledger; each has its own
stream, and is answered whatever the others do. -/

namespace TokenAudit

open Pipeline (Frame SameRecords)

/-- A run to be made: what is asked for, its surroundings, and how its detectors are interleaved. -/
structure Launch (σ : Type) where
  request : AuditRequest
  terms : RunTerms
  order : Panel.Order
  now : Nat
  state : σ

namespace Launch

variable {σ : Type}

def tradeId (u : Launch σ) : Uint256 := u.request.tradeId

def start (u : Launch σ) (l : Ledger) : Frame σ := (.fresh, Pipeline.start u.now u.state l)

def advance (u : Launch σ) (p : Pipeline σ) : Frame σ → Frame σ :=
  (p.reordered u.order).advance u.terms u.request

def alone (u : Launch σ) (p : Pipeline σ) (l : Ledger) (n : Nat) : Frame σ :=
  (u.advance p)^[n] (u.start l)

end Launch

structure Fleet (ι σ : Type) where
  runs : ι → Frame σ
  ledger : Ledger

namespace Fleet

variable {ι σ : Type}

def frame (f : Fleet ι σ) (i : ι) : Frame σ := (f.runs i).on f.ledger

def launched (launch : ι → Launch σ) (l : Ledger) : Fleet ι σ := ⟨fun i => (launch i).start l, l⟩

variable [DecidableEq ι] (p : Pipeline σ) (launch : ι → Launch σ)

def move (f : Fleet ι σ) (i : ι) : Fleet ι σ :=
  let x := (launch i).advance p (f.frame i)
  ⟨Function.update f.runs i x, x.2.ledger⟩

def run (f : Fleet ι σ) (schedule : List ι) : Fleet ι σ := schedule.foldl (move p launch) f

theorem run_snoc (f : Fleet ι σ) (schedule : List ι) (i : ι) :
    f.run p launch (schedule ++ [i]) = (f.run p launch schedule).move p launch i :=
  List.foldl_concat ..

theorem frame_move_self (f : Fleet ι σ) (i : ι) :
    (f.move p launch i).frame i = (launch i).advance p (f.frame i) := by
  unfold frame move
  dsimp only
  rw [Function.update_self]
  rfl

theorem frame_move_of_ne (f : Fleet ι σ) {i j : ι} (h : i ≠ j) :
    (f.move p launch j).frame i = (f.frame i).on (f.move p launch j).ledger := by
  unfold frame move
  dsimp only
  rw [Function.update_of_ne h]
  rfl

theorem mem_ledger_move (f : Fleet ι σ) {j : ι} {id : Uint256} (h : id ≠ (launch j).tradeId) :
    id ∈ (f.move p launch j).ledger ↔ id ∈ f.ledger := by
  obtain ⟨-, -, -, hothers⟩ := (p.reordered (launch j).order).confined_advance (launch j).terms
    (launch j).request (f.runs j).1 (f.frame j).2 f.ledger .rfl
  exact hothers id h

/-- A run among others is where it would be alone on a ledger that agrees on its trade id. -/
structure Beside (u : Launch σ) (f : Fleet ι σ) (i : ι) (x : Frame σ) : Prop where
  frame : f.frame i = x.on f.ledger
  taken : u.tradeId ∈ x.2.ledger ↔ u.tradeId ∈ f.ledger

variable {p launch}

theorem Beside.move_self {f : Fleet ι σ} {i : ι} {x : Frame σ} (h : Beside (launch i) f i x) :
    Beside (launch i) (f.move p launch i) i ((launch i).advance p x) := by
  obtain ⟨l, hon, htaken, -⟩ := (p.reordered (launch i).order).confined_advance (launch i).terms
    (launch i).request x.1 x.2 f.ledger h.taken
  have hstep : (launch i).advance p (f.frame i) = ((launch i).advance p x).on l := by
    rw [h.frame]
    exact hon
  have hledger : (f.move p launch i).ledger = l :=
    congrArg (fun y : Frame σ => y.2.ledger) hstep
  constructor
  · rw [frame_move_self, hstep, hledger]
  · rw [hledger]
    exact htaken

theorem Beside.move_of_ne {f : Fleet ι σ} {i j : ι} {x : Frame σ} (h : Beside (launch i) f i x)
    (hij : i ≠ j) (hid : (launch i).tradeId ≠ (launch j).tradeId) :
    Beside (launch i) (f.move p launch j) i x := by
  constructor
  · rw [frame_move_of_ne p launch f hij, h.frame]
    rfl
  · exact h.taken.trans (mem_ledger_move p launch f hid).symm

theorem beside_run (hdistinct : Function.Injective fun i => (launch i).tradeId) (l : Ledger)
    (schedule : List ι) (i : ι) : Beside (launch i) ((launched launch l).run p launch schedule) i
      ((launch i).alone p l (schedule.count i)) := by
  -- From the last step: it is one more of the run's own, or one that the run cannot see.
  induction schedule using List.reverseRecOn with
  | nil => exact ⟨rfl, .rfl⟩
  | append_singleton schedule j ih =>
    rw [run_snoc, List.count_append]
    by_cases h : i = j
    · subst h
      have hnext : (launch i).alone p l (schedule.count i + [i].count i) =
          (launch i).advance p ((launch i).alone p l (schedule.count i)) := by
        rw [List.count_singleton_self]
        exact Function.iterate_succ_apply' ..
      rw [hnext]
      exact ih.move_self
    · rw [List.count_singleton, if_neg (by simpa using Ne.symm h), Nat.add_zero]
      exact ih.move_of_ne h (hdistinct.ne h)

end Fleet

namespace Pipeline

open Committer (submissions)

variable {ι σ : Type} [DecidableEq ι]

/-- Runs side by side, of trades that differ. Each comes to rest after enough steps of its own, and
has then done what it would have done alone. It has told the same, and of each phase and detector
also what it would have told with its detectors interleaved in another way and its verdict dated
otherwise. -/
theorem audits_do_not_interfere (p : Pipeline σ) (launch : ι → Launch σ)
    (hdistinct : Function.Injective fun i => (launch i).tradeId) (l : Ledger) (schedule : List ι)
    (i : ι) :
    let u := launch i
    let fleet := (Fleet.launched launch l).run p launch schedule
    let left := fleet.frame i
    (p.steps ≤ schedule.count i → left.1.isAtRest = true) ∧
    (left.1.isAtRest = true →
      left.2.stream = ((p.reordered u.order).run u.terms u.request
        (start u.now u.state l)).2.stream ∧
      ∀ order decidedAt,
        let alone := (p.reordered order).run ⟨u.terms.cancelAt, decidedAt⟩ u.request
          (start u.now u.state l)
        left.1.result?.map (Except.map fun v => v.restamp decidedAt) = alone.1 ∧
        SameRecords (p.detectors u.terms u.request.token (start u.now u.state l))
          left.2.stream.events alone.2.stream.events ∧
        submissions left.2.commitTrace = submissions alone.2.commitTrace ∧
        (u.tradeId ∈ fleet.ledger ↔ u.tradeId ∈ alone.2.ledger)) := by
  intro u fleet left
  have hbeside := Fleet.beside_run (p := p) hdistinct l schedule i
  have hleft : left = (u.alone p l (schedule.count i)).on fleet.ledger := hbeside.frame
  have hrest : left.1.isAtRest = (u.alone p l (schedule.count i)).1.isAtRest := by rw [hleft]; rfl
  refine ⟨fun hn => ?_, fun h => ?_⟩
  · rw [hrest]
    exact (p.reordered u.order).rest_iterate u.terms u.request hn _
  · rw [hrest] at h
    have hrun := (p.reordered u.order).run_eq_of_rest u.terms u.request h
    refine ⟨?_, fun order decidedAt => ?_⟩
    · rw [hrun, hleft]
      rfl
    · obtain ⟨hresult, hcourse, hrecords⟩ := (p.reordered u.order).run_replayed order
        u.terms.cancelAt u.terms.decidedAt decidedAt u.request (a := start u.now u.state l) rfl
      have hnames : (p.reordered u.order).detectors u.terms u.request.token (start u.now u.state l) =
          p.detectors u.terms u.request.token (start u.now u.state l) := p.panel.names_reordered ..
      rw [hnames] at hrecords
      rw [hrun] at hresult hcourse hrecords
      rw [hleft]
      refine ⟨hresult.symm, hrecords, ?_, ?_⟩
      · exact congrArg submissions hcourse.commitTrace.symm
      · have hledger := congrArg (u.tradeId ∈ ·) hcourse.ledger.symm
        exact hbeside.taken.symm.trans (iff_of_eq hledger)

def counter : Pipeline Bool where
  resolver := ⟨fun _ => Ask.pure (.error (.input "no explorer")),
    fun _ => Ask.pure (.error (.input "no node")),
    .answering fun _ _ => Ask.pure (.error (.input "no decompiler"))⟩
  panel :=
    { security := fun _ => Ask.pure (.panicked "lookup broke down")
      slots := []
      sellTaxThreshold := 0
      strictConsensus := false
      timeoutMs := 5 }
  committer := some
    { writer := ⟨fun _ => Ask.now fun s => (if s then .ok ⟨0⟩ else .error (.input "refused"), s),
        fun _ => Ask.pure (.ok (some ⟨⟨0⟩, none, some 1⟩))⟩
      protocol := .v1
      confirmAttempts := 1
      confirmIntervalMs := 10 }
  sourceTimeoutMs := 5

def rivals (accepted : Bool) : Launch Bool where
  request := ⟨if accepted then 7 else 8, ⟨1⟩, 0⟩
  terms := ⟨none, ⟨2025, 1, 1, 0, 0⟩⟩
  order := .byTime
  now := 0
  state := accepted

theorem rivals_do_not_interfere :
    let turns := (List.replicate 9 [true, false]).flatten
    let fleet := (Fleet.launched rivals []).run counter rivals turns
    let alone := counter.run ⟨none, ⟨2025, 1, 2, 0, 0⟩⟩ ⟨7, ⟨1⟩, 0⟩ (start 0 true [])
    Function.Injective (fun i => (rivals i).tradeId) ∧ counter.steps ≤ turns.count true ∧
      (fleet.frame true).1.isAtRest = true ∧ (7 ∈ fleet.ledger ↔ 7 ∈ alone.2.ledger) ∧
      7 ∈ alone.2.ledger ∧ 8 ∉ fleet.ledger := by
  intro turns fleet alone
  have hids : ∀ i j, (rivals i).tradeId = (rivals j).tradeId → i = j := by decide
  have hdistinct : Function.Injective fun i => (rivals i).tradeId := fun i j => hids i j
  have hturns : counter.steps ≤ turns.count true := by decide
  obtain ⟨hrest, hdone⟩ := audits_do_not_interfere counter rivals hdistinct [] turns true
  obtain ⟨-, halone⟩ := hdone (hrest hturns)
  obtain ⟨-, -, -, hledger⟩ := halone .byTime ⟨2025, 1, 2, 0, 0⟩
  exact ⟨hdistinct, hturns, hrest hturns, hledger, by decide +kernel, by decide +kernel⟩

end Pipeline

end TokenAudit
