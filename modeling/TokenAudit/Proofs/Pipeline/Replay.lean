import TokenAudit.Proofs.Pipeline.Script

/-! A run made again, with its detectors interleaved in another way and the clock read at another
instant. Neither decides anything: the run takes the same course, and what it tells differs in the
order of its detectors and in the date of its verdict alone. -/

namespace TokenAudit

def RiskVerdict.restamp (v : RiskVerdict) (decidedAt : Instant) : RiskVerdict :=
  { v with decidedAt := decidedAt }

namespace Panel

variable {σ : Type} (p : Panel σ) (o : Order) (token : Address) (source : SourceResult) (s : σ)

def reordered : Panel σ := { p with order := o }

theorem workSlots_reordered (input : DetectorInput) (slots : List (Slot σ)) :
    (p.reordered o).workSlots input slots s = p.workSlots input slots s := by
  induction slots generalizing s with
  | nil => rfl
  | cons slot slots ih =>
    have hslot : (p.reordered o).workSlot input slot s = p.workSlot input slot s := rfl
    simp only [workSlots, hslot, ih]

theorem works_reordered : (p.reordered o).works token source s = p.works token source s := by
  have hsecurity : (p.reordered o).workSecurity token source s = p.workSecurity token source s := rfl
  rw [works, works, workSlots_reordered, hsecurity]
  rfl

theorem names_reordered : (p.reordered o).names token source s = p.names token source s := by
  rw [names, names, works_reordered]

theorem run_reordered :
    ((p.reordered o).run token source s).aggregation = (p.run token source s).aggregation ∧
      ((p.reordered o).run token source s).duration = (p.run token source s).duration ∧
      ((p.reordered o).run token source s).state = (p.run token source s).state := by
  have hsecurity : (p.reordered o).workSecurity token source s = p.workSecurity token source s := rfl
  have hslots : (p.reordered o).slots = p.slots := rfl
  simp only [run, workSlots_reordered, hsecurity, hslots]
  exact ⟨rfl, trivial, trivial⟩

section

variable {p token source s}

theorem records_stranger {d : String} (h : d ∉ p.names token source s) :
    detectorRecords d (askedFor (p.work token source s)) = [] := by
  refine List.filter_eq_nil_iff.mpr fun e he hd => h ?_
  have howner := p.owner_mem_names token source s he
  rwa [owner_of_detector? (of_decide_eq_true hd)] at howner

theorem records_reordered (hnodup : (p.names token source s).Nodup) (d : String) :
    detectorRecords d (askedFor ((p.reordered o).work token source s)) =
      detectorRecords d (askedFor (p.work token source s)) := by
  have hnames := p.names_reordered o token source s
  have hworks := p.works_reordered o token source s
  have hnodup' : ((p.reordered o).names token source s).Nodup := hnames ▸ hnodup
  by_cases hd : d ∈ p.names token source s
  · rcases List.mem_cons.mp hd with rfl | hmem
    · rw [records_security hnodup, records_security hnodup']
      rfl
    · obtain ⟨w, hw, rfl⟩ := List.mem_map.mp hmem
      rw [records_model hnodup hw, records_model hnodup' (hworks ▸ hw)]
  · rw [records_stranger hd, records_stranger (hnames ▸ hd)]

end

end Panel

namespace Committer

variable {σ : Type} (c : Committer σ) (w : Window) (v : RiskVerdict)

theorem isTransaction_submitted (b : Budget) (l : Ledger) (answer : Except AuditError Hash) :
    ∀ d ∈ (Commit.submitted v b l answer).calls, d.isTransaction = true := by
  cases answer <;> simp [Commit.submitted, Call.isTransaction]

theorem isTransaction_looked (hash : Hash) (b : Budget) (l : Ledger)
    (answer : Except AuditError (Option Rpc.Receipt)) :
    ∀ d ∈ (Commit.looked v hash b l answer).calls, d.isTransaction = true := by
  obtain ⟨-, hcalls⟩ | ⟨result, -, hf⟩ := looked_cases v hash b l answer
  · rw [hcalls]
    exact nofun
  · exact hf.isTransaction

/-- Made again after other records, and with its verdict dated otherwise, a commit does the same; what
it tells is of its transaction. -/
def Replays (ran : Option Commit.Result × Run σ)
    (again : Instant → Stream → Option Commit.Result × Run σ) : Prop :=
  ∃ calls, (∀ d ∈ calls, d.isTransaction = true) ∧ ∀ decidedAt stream,
    again decidedAt stream = (ran.1, { ran.2 with stream := stream.calls calls })

theorem Replays.silent {ran : Option Commit.Result × Run σ}
    {again : Instant → Stream → Option Commit.Result × Run σ}
    (h : ∀ decidedAt stream, again decidedAt stream = (ran.1, { ran.2 with stream := stream })) :
    Replays ran again := ⟨[], nofun, h⟩

theorem Replays.take {left : Nat} {r : Run σ} (step : Commit.Step)
    (hcalls : ∀ d ∈ step.calls, d.isTransaction = true)
    (h : Replays (c.confirm w v left step.stage (r.take step).2) fun decidedAt stream =>
      c.confirm w (v.restamp decidedAt) left step.stage { (r.take step).2 with stream := stream }) :
    Replays (c.confirm w v left step.stage (r.take step).2) fun decidedAt stream =>
      c.confirm w (v.restamp decidedAt) left step.stage
        (Run.take { r with stream := stream } step).2 := by
  obtain ⟨calls, htransactions, hrest⟩ := h
  refine ⟨step.calls ++ calls, List.forall_mem_append.mpr ⟨hcalls, htransactions⟩, ?_⟩
  intro decidedAt stream
  rw [Stream.calls_append]
  exact hrest decidedAt (stream.calls step.calls)

theorem confirm_replays (left : Nat) (s : Commit.Stage) (r : Run σ) :
    Replays (c.confirm w v left s r) fun decidedAt stream =>
      c.confirm w (v.restamp decidedAt) left s { r with stream := stream } := by
  induction left generalizing s r with
  | zero => exact .silent fun _ _ => by cases s <;> rfl
  | succ left ih =>
    cases s with
    | fresh | submitting | returned => exact .silent fun _ _ => rfl
    | looking hash b =>
      simp only [confirm]
      rcases (r.world.record (.lookedUp hash)).ask w (c.writer.receipt hash) with
        ⟨_ | answer, world⟩
      · exact .silent fun _ _ => rfl
      · exact Replays.take c w v (Commit.looked v hash b r.ledger answer)
          (isTransaction_looked v hash b r.ledger answer) (ih _ _)
    | resting hash b =>
      simp only [confirm]
      rcases r.world.sleep w b.intervalMs.toNat with ⟨woken, world⟩
      have hcalls := (awaits_rested hash b r.ledger (decide (woken = .cancelled))).2
      have hrest := Replays.take c w v (r := { r with world := world })
        (Commit.rested hash b r.ledger (decide (woken = .cancelled)))
        (fun d hd => absurd (hcalls ▸ hd) List.not_mem_nil) (ih _ _)
      cases woken with
      | expired => exact .silent fun _ _ => rfl
      | ok | cancelled => exact hrest

theorem submit_replays (r : Run σ) : Replays (c.submit w v r) fun decidedAt stream =>
    c.submit w (v.restamp decidedAt) { r with stream := stream } := by
  have hdata (decidedAt : Instant) : Calldata.encode c.protocol (v.restamp decidedAt).tradeId
      (v.restamp decidedAt).score = Calldata.encode c.protocol v.tradeId v.score := rfl
  simp only [submit, hdata]
  rcases (r.world.record (.submitted (Calldata.encode c.protocol v.tradeId v.score))).ask w
    (c.writer.submit (Calldata.encode c.protocol v.tradeId v.score)) with ⟨_ | answer, world⟩
  · exact .silent fun _ _ => rfl
  · exact Replays.take c w v (Commit.submitted v c.budget r.ledger answer)
      (isTransaction_submitted v c.budget r.ledger answer) (c.confirm_replays w v _ _ _)

theorem commit_replays (r : Run σ) : Replays (c.commit w v r) fun decidedAt stream =>
    c.commit w (v.restamp decidedAt) { r with stream := stream } := by
  have hopen (decidedAt : Instant) : Commit.open_ (v.restamp decidedAt)
      (w.isCancelled r.world.now) r.ledger =
        Commit.open_ v (w.isCancelled r.world.now) r.ledger := rfl
  simp only [commit, hopen]
  obtain ⟨e, hopened⟩ | ⟨-, hopened⟩ := open_cases v (w.isCancelled r.world.now) r.ledger
  · simp only [Run.take, hopened]
    exact .silent fun _ _ => rfl
  · simp only [Run.take, hopened]
    exact c.submit_replays w v { r with ledger := v.tradeId :: r.ledger }

end Committer

namespace Pipeline

variable {σ : Type}

/-- Two audits that differ at most in what has been told. -/
structure SameCourse (a b : Audit σ) : Prop where
  now : b.now = a.now
  state : b.state = a.state
  ledger : b.ledger = a.ledger
  sourceTrace : b.sourceTrace = a.sourceTrace
  commitTrace : b.commitTrace = a.commitTrace

theorem SameCourse.refl (a : Audit σ) : SameCourse a a := ⟨rfl, rfl, rfl, rfl, rfl⟩

theorem SameCourse.tell {a b : Audit σ} (h : SameCourse a b) (cs ds : List Call) :
    SameCourse (tell a cs) (tell b ds) :=
  ⟨h.now, h.state, h.ledger, h.sourceTrace, h.commitTrace⟩

theorem SameCourse.after {a b : Audit σ} (h : SameCourse a b) {r r' : Committer.Run σ}
    (hworld : r'.world = r.world) (hledger : r'.ledger = r.ledger) :
    SameCourse (after a r) (after b r') :=
  ⟨congrArg World.now hworld, congrArg World.state hworld, hledger, h.sourceTrace,
    congrArg World.trace hworld⟩

variable (p : Pipeline σ) (o : Panel.Order) (cancelAt : Option Nat) (d d' : Instant)
  (request : AuditRequest)

def reordered : Pipeline σ := { p with panel := p.panel.reordered o }

section

variable (a : Audit σ)

theorem inspected_replayed (token : Address) :
    let found := p.inspected ⟨cancelAt, d⟩ token a
    let again := (p.reordered o).inspected ⟨cancelAt, d'⟩ token a
    again.aggregation = found.aggregation ∧ again.duration = found.duration ∧
      again.state = found.state :=
  p.panel.run_reordered o token (p.found ⟨cancelAt, d⟩ token a) (p.asked ⟨cancelAt, d⟩ token a)

theorem verdict_replayed : (p.reordered o).verdict ⟨cancelAt, d'⟩ request a =
    (p.verdict ⟨cancelAt, d⟩ request a).restamp d' := by
  have hmask (m : RiskMask) : (RiskVerdict.ofMask request d m).restamp d' = .ofMask request d' m := rfl
  rw [verdict, verdict, hmask, (p.inspected_replayed o cancelAt d d' a request.token).1]

theorem judged_replayed (token : Address) : SameCourse (p.judged ⟨cancelAt, d⟩ token a)
    ((p.reordered o).judged ⟨cancelAt, d'⟩ token a) := by
  obtain ⟨-, hduration, hstate⟩ := p.inspected_replayed o cancelAt d d' a token
  have hnow : ((p.reordered o).judged ⟨cancelAt, d'⟩ token a).now =
      (p.judged ⟨cancelAt, d⟩ token a).now := congrArg (_ + ·) hduration
  exact ⟨hnow, hstate, rfl, rfl, rfl⟩

end

/-! ### What is told -/

/-- Of each phase the same is told, and of each detector if there are no two of one name. -/
def SameRecords (names : List String) (es fs : List Event) : Prop :=
  (∀ q, phaseRecords q fs = phaseRecords q es) ∧
    (names.Nodup → ∀ name, detectorRecords name fs = detectorRecords name es)

theorem SameRecords.append {names : List String} {es es' fs fs' : List Event}
    (h : SameRecords names es fs) (h' : SameRecords names es' fs') :
    SameRecords names (es ++ es') (fs ++ fs') := by
  constructor
  · intro q
    rw [phaseRecords_append, phaseRecords_append, h.1 q, h'.1 q]
  · intro hnodup name
    rw [detectorRecords_append, detectorRecords_append, h.2 hnodup name, h'.2 hnodup name]

theorem SameRecords.refl (names : List String) (es : List Event) : SameRecords names es es :=
  ⟨fun _ => rfl, fun _ _ => rfl⟩

theorem records_judged {a : Audit σ} (ha : a.stream = .empty) (token : Address) :
    SameRecords (p.detectors ⟨cancelAt, d⟩ token a) (p.judged ⟨cancelAt, d⟩ token a).stream.events
      ((p.reordered o).judged ⟨cancelAt, d'⟩ token a).stream.events := by
  have hat := at_of_empty ha
  constructor
  · intro q
    have hlog := (p.at_judged ⟨cancelAt, d⟩ token hat).log
    have hlog' := ((p.reordered o).at_judged ⟨cancelAt, d'⟩ token hat).log
    rw [phaseRecords_eq, phaseRecords_eq, hlog, hlog']
  · intro hnodup name
    have hnames : (p.reordered o).detectors ⟨cancelAt, d'⟩ token a =
        p.detectors ⟨cancelAt, d⟩ token a := p.panel.names_reordered ..
    have hwork := Panel.records_reordered o hnodup name
    rw [events_judged hnodup ha, events_judged (hnames ▸ hnodup) ha]
    simp only [detectorRecords_append]
    exact congrArg (fun records => _ ++ (records ++ _)) hwork

theorem records_finalVerdict (names : List String) (v : RiskVerdict) :
    SameRecords names [.finalVerdict v] [.finalVerdict (v.restamp d')] :=
  ⟨fun _ => rfl, fun _ _ => rfl⟩

theorem records_ending (names : List String) (v : RiskVerdict) (result : Option Commit.Result) :
    SameRecords names (ending v result) (ending (v.restamp d') result) := by
  rcases result with _ | e | receipt
  · exact .refl ..
  · exact .refl ..
  · have hdone := SameRecords.refl names [Feed.phaseEvent .commitVerdict .done]
    exact hdone.append (records_finalVerdict d' names v)

/-! ### The commit -/

theorem committing_replayed (a : Audit σ) (token : Address) :
    (p.reordered o).committing ⟨cancelAt, d'⟩ token a =
      { p.committing ⟨cancelAt, d⟩ token a with
        stream := ((p.reordered o).committing ⟨cancelAt, d'⟩ token a).stream } := by
  have h := p.judged_replayed o cancelAt d d' a token
  simp only [committing, h.now, h.state, h.ledger, h.commitTrace]

theorem committed_replayed (c : Committer σ) {a : Audit σ} (ha : a.stream = .empty) :
    let settled := p.settled c ⟨cancelAt, d⟩ request a
    let settled' := (p.reordered o).settled c ⟨cancelAt, d'⟩ request a
    ((p.reordered o).committed c ⟨cancelAt, d'⟩ request a).1 =
        (p.committed c ⟨cancelAt, d⟩ request a).1 ∧
      SameCourse settled settled' ∧
      SameRecords (p.detectors ⟨cancelAt, d⟩ request.token a)
        settled.stream.events settled'.stream.events := by
  intro settled settled'
  have hat := at_of_empty ha
  have hreplays : Committer.Replays (p.committed c ⟨cancelAt, d⟩ request a) _ :=
    c.commit_replays ⟨cancelAt, none⟩ (p.verdict ⟨cancelAt, d⟩ request a)
      (p.committing ⟨cancelAt, d⟩ request.token a)
  obtain ⟨calls, htransactions, hagain⟩ := hreplays
  have hself : (p.committed c ⟨cancelAt, d⟩ request a).2.stream =
      (p.committing ⟨cancelAt, d⟩ request.token a).stream.calls calls :=
    congrArg (fun ran => ran.2.stream) (hagain d _)
  have hother : (p.reordered o).committed c ⟨cancelAt, d'⟩ request a =
      ((p.committed c ⟨cancelAt, d⟩ request a).1,
        { (p.committed c ⟨cancelAt, d⟩ request a).2 with
          stream := ((p.reordered o).committing ⟨cancelAt, d'⟩ request.token a).stream.calls calls }) := by
    rw [committed, p.verdict_replayed o cancelAt d d', p.committing_replayed o cancelAt d d']
    exact hagain d' _
  have hstream : ((p.reordered o).committed c ⟨cancelAt, d'⟩ request a).2.stream =
      ((p.reordered o).committing ⟨cancelAt, d'⟩ request.token a).stream.calls calls := by
    rw [hother]
  have hworld : ((p.reordered o).committed c ⟨cancelAt, d'⟩ request a).2.world =
      (p.committed c ⟨cancelAt, d⟩ request a).2.world := by rw [hother]
  have hledger : ((p.reordered o).committed c ⟨cancelAt, d'⟩ request a).2.ledger =
      (p.committed c ⟨cancelAt, d⟩ request a).2.ledger := by rw [hother]
  have hjudged := p.judged_replayed o cancelAt d d' a request.token
  have hrecords := p.records_judged o cancelAt d d' ha request.token
  refine ⟨by rw [hother], hjudged.after hworld hledger, ?_⟩
  simp only [settled, settled', events_settled hat hself htransactions,
    events_settled hat hstream htransactions]
  exact hrecords.append (.refl _ _)

theorem returned_restamp (v : RiskVerdict) (result : Option Commit.Result) :
    returned (v.restamp d') result =
      (returned v result).map (Except.map fun v => v.restamp d') := by
  rcases result with _ | _ | _ <;> rfl

theorem tell_nil (a : Audit σ) : tell a [] = a := rfl

theorem run_after_settled {p : Pipeline σ} {c : Committer σ} {t : RunTerms} {request : AuditRequest}
    {a : Audit σ} (hc : p.committer = some c) (hz : request.token ≠ .zero)
    (h : ¬p.Abandoned t request.token a) (ha : At a 0) :
    ∃ calls, (p.run t request a).2 = tell (p.settled c t request a) calls := by
  rcases hcommit : (p.committed c t request a).1 with _ | e | receipt
  · rw [run_of_unsettled hc hz h hcommit]
    exact ⟨[], (tell_nil _).symm⟩
  · rw [run_of_uncommitted hc hz h hcommit]
    exact ⟨_, rfl⟩
  · rw [run_of_committed hc hz h ha hcommit]
    exact ⟨_, rfl⟩

theorem run_replayed {a : Audit σ} (ha : a.stream = .empty) :
    let ran := p.run ⟨cancelAt, d⟩ request a
    let again := (p.reordered o).run ⟨cancelAt, d'⟩ request a
    again.1 = ran.1.map (Except.map fun v => v.restamp d') ∧ SameCourse ran.2 again.2 ∧
      SameRecords (p.detectors ⟨cancelAt, d⟩ request.token a)
        ran.2.stream.events again.2.stream.events := by
  intro ran again
  have hat := at_of_empty ha
  by_cases hz : request.token = .zero
  · have hran : ran = _ := p.run_of_zero ⟨cancelAt, d⟩ a hz
    have hagain : again = _ := (p.reordered o).run_of_zero ⟨cancelAt, d'⟩ a hz
    rw [hran, hagain]
    exact ⟨rfl, .refl _, .refl _ _⟩
  by_cases h : p.Abandoned ⟨cancelAt, d⟩ request.token a
  · have hran : ran = _ := p.run_of_abandoned ⟨cancelAt, d⟩ a hz h
    have hagain : again = _ := (p.reordered o).run_of_abandoned ⟨cancelAt, d'⟩ a hz h
    have hsearched : (p.reordered o).searched ⟨cancelAt, d'⟩ request.token a =
        p.searched ⟨cancelAt, d⟩ request.token a := rfl
    rw [hran, hagain, hsearched]
    exact ⟨rfl, .refl _, .refl _ _⟩
  have h' : ¬(p.reordered o).Abandoned ⟨cancelAt, d'⟩ request.token a := h
  have hverdict := p.verdict_replayed o cancelAt d d' request a
  cases hc : p.committer with
  | none =>
    have hran : ran = _ := run_of_uncommitting hz h hat hc
    have hagain : again = _ := run_of_uncommitting hz h' hat hc
    have hevents := (announce_eq (v := p.verdict ⟨cancelAt, d⟩ request a)
      (p.at_judged ⟨cancelAt, d⟩ request.token hat) fun q => by cases q <;> decide).2
    have hevents' := (announce_eq (v := (p.reordered o).verdict ⟨cancelAt, d'⟩ request a)
      ((p.reordered o).at_judged ⟨cancelAt, d'⟩ request.token hat) fun q => by cases q <;> decide).2
    rw [announce_judged _ _ _ hat] at hevents hevents'
    rw [hran, hagain]
    refine ⟨congrArg (some ∘ Except.ok) hverdict,
      (p.judged_replayed o cancelAt d d' a request.token).tell _ _, ?_⟩
    dsimp only
    rw [hevents, hevents', hverdict]
    exact (p.records_judged o cancelAt d d' ha request.token).append (records_finalVerdict d' _ _)
  | some c =>
    have hc' : (p.reordered o).committer = some c := hc
    obtain ⟨hresult, hcourse, hrecords⟩ := p.committed_replayed o cancelAt d d' request c ha
    obtain ⟨hreturned, -, hevents⟩ := run_told hc hz h hat
    obtain ⟨hreturned', -, hevents'⟩ := run_told hc' hz h' hat
    obtain ⟨calls, hafter⟩ := run_after_settled hc hz h hat
    obtain ⟨calls', hafter'⟩ := run_after_settled hc' hz h' hat
    refine ⟨?_, ?_, ?_⟩
    · simp only [ran, again, hreturned, hreturned', hresult, hverdict, returned_restamp]
    · simp only [ran, again, hafter, hafter']
      exact hcourse.tell calls calls'
    · simp only [ran, again, hevents, hevents', hresult, hverdict]
      exact hrecords.append (records_ending d' _ _ _)

end Pipeline

end TokenAudit
