import TokenAudit.Proofs.Detector.Findings
import TokenAudit.Proofs.Detector.Joining

/-! What a panel finds depends on how each of its detectors has ended, and on nothing else: not on
when, nor in which order, and what one detector leaves is not touched by the others. -/

namespace TokenAudit

theorem Assessment.model_of_parse {name text : String} {x : Assessment}
    (h : parse name text = .ok x) : x.model = name := by
  unfold parse at h
  split at h
  · cases h
  · split at h
    · cases h
    · cases h
      rfl

namespace Panel

variable {σ τ : Type}

section

variable (p : Panel σ) (token : Address) (source : SourceResult) (s : σ)

def lookup : Outcome SecurityReport := (p.workSecurity token source s).1.outcome

def works : List (Worked Assessment) :=
  (p.workSlots (.ofSource token source) (if source.isAvailable then p.slots else [])
    (p.workSecurity token source s).2).1

def answers : List (String × Outcome Assessment) :=
  (p.works token source s).map fun w => (w.name, w.outcome)

def joining : Joining := .start (p.workSecurity token source s).1 (p.works token source s)

def work : List Call := p.order.calls (p.workSecurity token source s).1 (p.works token source s)

theorem calls_run_eq : (p.run token source s).calls =
    [.phase .staticAnalysis .running, .phase .modelConsensus .running] ++
      p.work token source s ++ [.phase .modelConsensus .done] := rfl

theorem aggregation_run : (p.run token source s).aggregation =
    Tally.aggregation p.strictConsensus source
      ⟨Rules.evaluate p.sellTaxThreshold (p.lookup token source s).answer? source,
        assessed (p.answers token source s),
        missing securityName (p.lookup token source s) ++ unanswered (p.answers token source s)⟩ :=
  rfl

theorem aggregation_whole :
    ((p.joining token source s).whole p.sellTaxThreshold source).aggregation p.strictConsensus
      source = (p.run token source s).aggregation :=
  Joining.aggregation_start _ _ _ _ _

theorem runs_work : ∃ t, Joining.Runs p.sellTaxThreshold source (p.joining token source s)
    (p.work token source s) ⟨[], t⟩ := by
  have h := p.order.interleaved (p.workSecurity token source s).1 (p.works token source s)
  rw [← Joining.tasks_start] at h
  exact (Joining.interleaved_iff _ _).mp h

end

/-! ### Each slot has its entry -/

theorem names_workSlots (p : Panel σ) (input : DetectorInput) (slots : List (Slot σ)) (s : σ) :
    (p.workSlots input slots s).1.map Worked.name = slots.map Slot.name := by
  induction slots generalizing s with
  | nil => rfl
  | cons slot slots ih =>
    simp only [workSlots, List.map_cons, ih]
    rfl

theorem names_works (p : Panel σ) (token : Address) (source : SourceResult) (s : σ) :
    (p.works token source s).map Worked.name =
      (if source.isAvailable then p.slots else []).map Slot.name := p.names_workSlots _ _ _

theorem names_answers (p : Panel σ) (token : Address) (source : SourceResult) (s : σ) :
    (p.answers token source s).map Prod.fst =
      (if source.isAvailable then p.slots else []).map Slot.name := by
  rw [← p.names_works token source s, answers, List.map_map]
  rfl

theorem model_workSlots (p : Panel σ) (input : DetectorInput) (slots : List (Slot σ)) (s : σ) :
    ∀ w ∈ (p.workSlots input slots s).1, ∀ x, w.outcome.answer? = some x → x.model = w.name := by
  induction slots generalizing s with
  | nil => exact nofun
  | cons slot slots ih =>
    intro w hw x hx
    rcases List.mem_cons.mp hw with rfl | hw
    · obtain ⟨-, text, -, -, -, hparse⟩ := (p.answer?_workSlot input slot s x).mp hx
      exact Assessment.model_of_parse hparse
    · exact ih _ w hw x hx

theorem model_answers (p : Panel σ) (token : Address) (source : SourceResult) (s : σ) :
    ∀ w ∈ p.answers token source s, ∀ x, w.2.answer? = some x → x.model = w.1 := by
  unfold answers
  rw [List.forall_mem_map]
  exact p.model_workSlots _ _ _

theorem models_assessed {answers : List (String × Outcome Assessment)}
    (h : ∀ w ∈ answers, ∀ x, w.2.answer? = some x → x.model = w.1) :
    (assessed answers).map Assessment.model = answered answers := by
  induction answers with
  | nil => rfl
  | cons w answers ih =>
    have hrest := ih fun v hv => h v (List.mem_cons_of_mem w hv)
    unfold answered at hrest ⊢
    cases hw : w.2.answer? with
    | none => simp [assessed_cons, hw, hrest]
    | some x => simp [assessed_cons, hw, hrest, h w List.mem_cons_self x hw]

theorem answered_unanswered_perm (answers : List (String × Outcome Assessment)) :
    (answered answers ++ unanswered answers).Perm (answers.map Prod.fst) := by
  have hfilter := List.filter_append_perm (fun x => x.2.answer?.isSome) answers
  have hnone : (fun x : String × Outcome Assessment => !x.2.answer?.isSome) =
      fun x => x.2.answer?.isNone := by
    funext x
    cases x.2.answer? <;> rfl
  rw [hnone] at hfilter
  simpa only [answered, unanswered, List.map_append] using hfilter.map Prod.fst

theorem assessed_append (before after : List (String × Outcome Assessment)) :
    assessed (before ++ after) = assessed before ++ assessed after := List.filterMap_append

theorem unanswered_append (before after : List (String × Outcome Assessment)) :
    unanswered (before ++ after) = unanswered before ++ unanswered after := by
  simp only [unanswered, List.filter_append, List.map_append]

/-- Of two panels with the same rules, each at work in whatever order and time. -/
theorem finds_whatever_the_schedule (p : Panel σ) (q : Panel τ) (token : Address)
    (source : SourceResult) (s : σ) (u : τ) (hthreshold : q.sellTaxThreshold = p.sellTaxThreshold)
    (hstrict : q.strictConsensus = p.strictConsensus) :
    let lookup := p.lookup token source s
    let answers := p.answers token source s
    let found := (p.run token source s).aggregation
    let other := (q.run token source u).aggregation
    (q.lookup token source u = lookup → q.answers token source u = answers → other = found) ∧
    (∃ t, Joining.Runs p.sellTaxThreshold source (p.joining token source s)
      (p.work token source s) ⟨[], t⟩) ∧
    (∀ cs j, Joining.Runs p.sellTaxThreshold source (p.joining token source s) cs j →
      (j.jobs = [] ∧ j.tally.aggregation p.strictConsensus source = found) ∨
        ∃ ds k, Joining.Step p.sellTaxThreshold source j ds k ∧ k.size < j.size) ∧
    (source.isAvailable = true →
      answers.map Prod.fst = p.slots.map Slot.name ∧
      found.assessments = assessed answers ∧
      found.assessments.map Assessment.model = answered answers ∧
      found.failed = missing securityName lookup ++ unanswered answers ∧
      (answered answers ++ unanswered answers).Perm (p.slots.map Slot.name)) ∧
    (source.isAvailable = false →
      found.assessments = [] ∧ found.failed = missing securityName lookup ∧
      found.modelMask = .clean ∧ found.modelsSkipped = true) ∧
    (∀ before name o o' after, q.lookup token source u = lookup →
      answers = before ++ (name, o) :: after →
      q.answers token source u = before ++ (name, o') :: after →
      found.assessments = assessed before ++ o.answer?.toList ++ assessed after ∧
      other.assessments = assessed before ++ o'.answer?.toList ++ assessed after ∧
      found.failed = missing securityName lookup ++ unanswered before ++ missing name o ++
        unanswered after ∧
      other.failed = missing securityName lookup ++ unanswered before ++ missing name o' ++
        unanswered after ∧
      other.staticMask = found.staticMask) ∧
    (q.answers token source u = answers →
      other.assessments = found.assessments ∧ other.modelMask = found.modelMask ∧
      found.failed = missing securityName lookup ++ unanswered answers ∧
      other.failed = missing securityName (q.lookup token source u) ++ unanswered answers) := by
  intro lookup answers found other
  have hfound : found = _ := p.aggregation_run token source s
  have hother : other = _ := q.aggregation_run token source u
  have hnames := p.names_answers token source s
  rw [hthreshold, hstrict] at hother
  refine ⟨?_, p.runs_work token source s, ?_, ?_, ?_, ?_, ?_⟩
  · intro hlookup hanswers
    rw [hother, hlookup, hanswers, hfound]
  · intro cs j h
    refine h.over_or_step.imp_left fun ⟨hjobs, htally⟩ => ⟨hjobs, ?_⟩
    rw [htally]
    exact p.aggregation_whole token source s
  · intro hs
    rw [if_pos hs] at hnames
    exact ⟨hnames, rfl, models_assessed (p.model_answers token source s), rfl,
      hnames ▸ answered_unanswered_perm answers⟩
  · intro hs
    rw [if_neg (by simp [hs])] at hnames
    have hnone : answers = [] := List.map_eq_nil_iff.mp hnames
    have hempty : p.answers token source s = [] := hnone
    rw [hfound, hempty]
    simp [Tally.aggregation, assessed, unanswered, RiskMask.combine, hs, lookup]
  · intro before name o o' after hlookup hanswers hanswers'
    have hanswers : p.answers token source s = before ++ (name, o) :: after := hanswers
    rw [hother, hlookup, hanswers', hfound, hanswers]
    simp only [Tally.aggregation, assessed_append, assessed_cons, unanswered_append,
      unanswered_cons, List.append_assoc]
    trivial
  · intro hanswers
    rw [hother, hanswers, hfound]
    exact ⟨rfl, rfl, rfl, rfl⟩

def Order.inTurn : Order where
  calls security ws := (tasks security ws).flatMap fun t => t.own ++ t.noticed
  interleaved security ws := by
    induction tasks security ws with
    | nil => exact .nil
    | cons t ts ih =>
      obtain ⟨own, noticed⟩ := t
      have h := Interleaved.calls [] own [] noticed ts (ih.ended noticed)
      rw [List.append_nil] at h
      rw [List.flatMap_cons, List.append_assoc]
      exact h

def halting (lookupDelay modelDelay : Nat) (order : Order) : Panel Unit where
  security _ s := (⟨some lookupDelay, fun s => (.panicked "no key", s)⟩, s)
  slots := [⟨"keen", fun _ _ s => (⟨some modelDelay, [], fun s =>
      (([], .answered "\x7b\"logic_bomb\": true\x7d"), s)⟩, s)⟩,
    ⟨"idle", fun _ _ s => (⟨none, [], fun s => (([], .timedOut), s)⟩, s)⟩]
  sellTaxThreshold := 0
  strictConsensus := true
  timeoutMs := 5
  order := order

theorem halting_finds_whatever_the_schedule :
    let p := halting 1 3 .byTime
    let q := halting 4 2 .inTurn
    let source := SourceResult.verified "contract" "C"
    q.work ⟨1⟩ source () ≠ p.work ⟨1⟩ source () ∧
      (q.run ⟨1⟩ source ()).aggregation = (p.run ⟨1⟩ source ()).aggregation ∧
      (p.run ⟨1⟩ source ()).aggregation.failed = [securityName, "idle"] := by
  intro p q source
  obtain ⟨hsame, -, -, havailable, -⟩ :=
    finds_whatever_the_schedule p q ⟨1⟩ source () () rfl rfl
  refine ⟨by decide +kernel, hsame rfl rfl, ?_⟩
  obtain ⟨-, -, -, hfailed, -⟩ := havailable rfl
  exact hfailed.trans (by decide +kernel)

end Panel

end TokenAudit
