import Mathlib.Algebra.Ring.Nat
import TokenAudit.Detector.Panel

/-! Detectors at work, and the one who joins them in slot order and takes down what each has left.
What has been taken down in the end does not depend on the order in which they worked. -/

namespace TokenAudit.Panel

inductive Finding where
  | security (o : Outcome SecurityReport)
  | model (name : String) (o : Outcome Assessment)

structure Tally where
  staticMask : RiskMask
  assessments : List Assessment
  failed : List String

namespace Tally

def empty : Tally := ⟨.clean, [], []⟩

def take (threshold : Float) (source : SourceResult) (t : Tally) : Finding → Tally
  | .security (.answered r) => { t with staticMask := Rules.evaluate threshold (some r) source }
  | .security _ =>
    { t with
      staticMask := Rules.evaluate threshold none source, failed := t.failed ++ [securityName] }
  | .model _ (.answered x) => { t with assessments := t.assessments ++ [x] }
  | .model name _ => { t with failed := t.failed ++ [name] }

def aggregation (strict : Bool) (source : SourceResult) (t : Tally) : Aggregation :=
  let modelMask := RiskMask.combine (t.assessments.map Assessment.mask) strict
  let found := (t.staticMask.only .fixed).union modelMask
  { mask := if source.isAvailable then found else found.insert .unverifiedCode
    staticMask := t.staticMask
    modelMask := modelMask
    assessments := t.assessments
    failed := t.failed
    modelsSkipped := !source.isAvailable }

end Tally

structure Job where
  task : Task
  finding : Finding

/-- The jobs that have not been joined, in order, and the findings of those that have. -/
structure Joining where
  jobs : List Job
  tally : Tally

namespace Joining

/-- A job makes its next call, or the first of them has ended: it is noticed, call by call, and then
joined. -/
inductive Step (threshold : Float) (source : SourceResult) :
    Joining → List Call → Joining → Prop where
  | call (before : List Job) (c : Call) (own noticed : List Call) (f : Finding) (after : List Job)
      (t : Tally) : Step threshold source ⟨before ++ ⟨⟨c :: own, noticed⟩, f⟩ :: after, t⟩ [c]
    ⟨before ++ ⟨⟨own, noticed⟩, f⟩ :: after, t⟩
  | notice (c : Call) (noticed : List Call) (f : Finding) (after : List Job) (t : Tally) :
    Step threshold source ⟨⟨⟨[], c :: noticed⟩, f⟩ :: after, t⟩ [c]
      ⟨⟨⟨[], noticed⟩, f⟩ :: after, t⟩
  | join (f : Finding) (after : List Job) (t : Tally) :
    Step threshold source ⟨⟨⟨[], []⟩, f⟩ :: after, t⟩ [] ⟨after, t.take threshold source f⟩

inductive Runs (threshold : Float) (source : SourceResult) :
    Joining → List Call → Joining → Prop where
  | refl (j : Joining) : Runs threshold source j [] j
  | head {j k l : Joining} {cs ds : List Call} (h : Step threshold source j cs k)
      (hrest : Runs threshold source k ds l) : Runs threshold source j (cs ++ ds) l

def whole (threshold : Float) (source : SourceResult) (j : Joining) : Tally :=
  j.jobs.foldl (fun t job => t.take threshold source job.finding) j.tally

def size (j : Joining) : Nat :=
  (j.jobs.map fun job => job.task.own.length + job.task.noticed.length + 1).sum

variable {threshold : Float} {source : SourceResult} {j k : Joining} {cs : List Call}

theorem Step.whole_eq (h : Step threshold source j cs k) :
    k.whole threshold source = j.whole threshold source := by
  cases h with
  | call => simp only [whole, List.foldl_append, List.foldl_cons]
  | notice | join => rfl

theorem Runs.whole_eq (h : Runs threshold source j cs k) :
    k.whole threshold source = j.whole threshold source := by
  induction h with
  | refl => rfl
  | head hstep _ ih => exact ih.trans hstep.whole_eq

theorem Step.size_lt (h : Step threshold source j cs k) : k.size < j.size := by
  cases h with
  | call | notice | join => simp +arith [size]

theorem exists_step (threshold : Float) (source : SourceResult) {j : Joining} (h : j.jobs ≠ []) :
    ∃ cs k, Step threshold source j cs k := by
  obtain ⟨jobs, t⟩ := j
  cases jobs with
  | nil => exact absurd rfl h
  | cons job after =>
    obtain ⟨⟨own, noticed⟩, f⟩ := job
    cases own with
    | cons c own => exact ⟨[c], _, .call [] c own noticed f after t⟩
    | nil =>
      cases noticed with
      | cons c noticed => exact ⟨[c], _, .notice c noticed f after t⟩
      | nil => exact ⟨[], _, .join f after t⟩

theorem Runs.over_or_step (h : Runs threshold source j cs k) :
    (k.jobs = [] ∧ k.tally = j.whole threshold source) ∨
      ∃ ds l, Step threshold source k ds l ∧ l.size < k.size := by
  -- What is left to do shrinks with every call and every end that is noticed.
  by_cases hk : k.jobs = []
  · refine .inl ⟨hk, ?_⟩
    rw [← h.whole_eq, whole, hk]
    rfl
  · obtain ⟨ds, l, hstep⟩ := exists_step threshold source hk
    exact .inr ⟨ds, l, hstep, hstep.size_lt⟩

/-! ### Runs are the interleavings of the tasks -/

theorem Step.interleaved (h : Step threshold source j cs k) {ds : List Call}
    (hk : Interleaved (k.jobs.map Job.task) ds) : Interleaved (j.jobs.map Job.task) (cs ++ ds) := by
  cases h with
  | call before c own noticed f after t =>
    rw [List.map_append, List.map_cons] at hk ⊢
    exact .call _ c own noticed _ hk
  | notice c noticed f after t => exact .notice c noticed _ hk
  | join f after t => exact .next hk

theorem exists_runs_of_interleaved {ts : List Task} (h : Interleaved ts cs) (jobs : List Job)
    (hjobs : jobs.map Job.task = ts) (t : Tally) :
    ∃ t', Runs threshold source ⟨jobs, t⟩ cs ⟨[], t'⟩ := by
  induction h generalizing jobs t with
  | nil =>
    obtain rfl := List.map_eq_nil_iff.mp hjobs
    exact ⟨t, .refl _⟩
  | call before c own noticed after h ih =>
    obtain ⟨front, rest, rfl, rfl, hrest⟩ := List.map_eq_append_iff.mp hjobs
    obtain ⟨job, back, rfl, hjob, rfl⟩ := List.map_eq_cons_iff.mp hrest
    obtain ⟨task, f⟩ := job
    obtain rfl : task = _ := hjob
    obtain ⟨t', hruns⟩ := ih (front ++ ⟨⟨own, noticed⟩, f⟩ :: back) (by simp) t
    exact ⟨t', .head (.call front c own noticed f back t) hruns⟩
  | notice c noticed after h ih =>
    obtain ⟨job, back, rfl, hjob, rfl⟩ := List.map_eq_cons_iff.mp hjobs
    obtain ⟨task, f⟩ := job
    obtain rfl : task = _ := hjob
    obtain ⟨t', hruns⟩ := ih (⟨⟨[], noticed⟩, f⟩ :: back) rfl t
    exact ⟨t', .head (.notice c noticed f back t) hruns⟩
  | next h ih =>
    obtain ⟨job, back, rfl, hjob, rfl⟩ := List.map_eq_cons_iff.mp hjobs
    obtain ⟨task, f⟩ := job
    obtain rfl : task = _ := hjob
    obtain ⟨t', hruns⟩ := ih back rfl (t.take threshold source f)
    exact ⟨t', .head (.join f back t) hruns⟩

theorem interleaved_of_runs (h : Runs threshold source j cs k) (hk : k.jobs = []) :
    Interleaved (j.jobs.map Job.task) cs := by
  induction h with
  | refl j =>
    rw [hk]
    exact .nil
  | head hstep _ ih => exact hstep.interleaved (ih hk)

/-- The calls of the runs that come to their end are the interleavings of the tasks. -/
theorem interleaved_iff (jobs : List Job) (t : Tally) :
    Interleaved (jobs.map Job.task) cs ↔ ∃ t', Runs threshold source ⟨jobs, t⟩ cs ⟨[], t'⟩ :=
  ⟨fun h => exists_runs_of_interleaved h jobs rfl t, fun ⟨_, h⟩ => interleaved_of_runs h rfl⟩

end Joining

/-! ### The jobs of a panel -/

def securityJob (w : Worked SecurityReport) : Job :=
  ⟨⟨w.opening ++ w.closing, breakdownCalls w ++ [.phase .staticAnalysis .done]⟩,
    .security w.outcome⟩

def modelJob (w : Worked Assessment) : Job :=
  ⟨⟨w.opening ++ w.closing, breakdownCalls w⟩, .model w.name w.outcome⟩

def Joining.start (security : Worked SecurityReport) (ws : List (Worked Assessment)) : Joining :=
  ⟨securityJob security :: ws.map modelJob, .empty⟩

theorem Joining.tasks_start (security : Worked SecurityReport) (ws : List (Worked Assessment)) :
    (Joining.start security ws).jobs.map Job.task = tasks security ws := by
  simp only [start, tasks, List.map_cons, List.map_map]
  rfl

def missing {α : Type} (name : String) (o : Outcome α) : List String :=
  if o.answer?.isNone then [name] else []

theorem take_security (threshold : Float) (source : SourceResult) (t : Tally)
    (o : Outcome SecurityReport) : t.take threshold source (.security o) =
      ⟨Rules.evaluate threshold o.answer? source, t.assessments,
        t.failed ++ missing securityName o⟩ := by
  cases o <;> simp [Tally.take, missing, Outcome.answer?]

theorem take_model (threshold : Float) (source : SourceResult) (t : Tally) (name : String)
    (o : Outcome Assessment) : t.take threshold source (.model name o) =
      ⟨t.staticMask, t.assessments ++ o.answer?.toList, t.failed ++ missing name o⟩ := by
  cases o <;> simp [Tally.take, missing, Outcome.answer?]

def assessed (answers : List (String × Outcome Assessment)) : List Assessment :=
  answers.filterMap fun x => x.2.answer?

def answered (answers : List (String × Outcome Assessment)) : List String :=
  (answers.filter fun x => x.2.answer?.isSome).map Prod.fst

def unanswered (answers : List (String × Outcome Assessment)) : List String :=
  (answers.filter fun x => x.2.answer?.isNone).map Prod.fst

theorem unanswered_cons (x : String × Outcome Assessment)
    (answers : List (String × Outcome Assessment)) :
    unanswered (x :: answers) = missing x.1 x.2 ++ unanswered answers := by
  cases hx : x.2.answer? <;> simp [unanswered, missing, hx]

theorem assessed_cons (x : String × Outcome Assessment)
    (answers : List (String × Outcome Assessment)) :
    assessed (x :: answers) = x.2.answer?.toList ++ assessed answers := by
  cases hx : x.2.answer? <;> simp [assessed, hx]

theorem foldl_take_models (threshold : Float) (source : SourceResult)
    (ws : List (Worked Assessment)) (t : Tally) :
    (ws.map modelJob).foldl (fun t job => t.take threshold source job.finding) t =
      ⟨t.staticMask, t.assessments ++ assessed (ws.map fun w => (w.name, w.outcome)),
        t.failed ++ unanswered (ws.map fun w => (w.name, w.outcome))⟩ := by
  induction ws generalizing t with
  | nil => simp [assessed, unanswered]
  | cons w ws ih =>
    rw [List.map_cons, List.foldl_cons, ih, modelJob, take_model, List.map_cons, assessed_cons,
      unanswered_cons, List.append_assoc, List.append_assoc]

theorem aggregate_eq (threshold : Float) (strict : Bool) (source : SourceResult)
    (security : Outcome SecurityReport) (answers : List (String × Outcome Assessment)) :
    aggregate threshold strict source security answers =
      Tally.aggregation strict source ⟨Rules.evaluate threshold security.answer? source,
        assessed answers, missing securityName security ++ unanswered answers⟩ := rfl

theorem Joining.aggregation_start (threshold : Float) (strict : Bool) (source : SourceResult)
    (security : Worked SecurityReport) (ws : List (Worked Assessment)) :
    ((start security ws).whole threshold source).aggregation strict source =
      aggregate threshold strict source security.outcome
        (ws.map fun w => (w.name, w.outcome)) := by
  rw [aggregate_eq, whole, start, List.foldl_cons, securityJob, take_security, foldl_take_models]
  rfl

end TokenAudit.Panel
