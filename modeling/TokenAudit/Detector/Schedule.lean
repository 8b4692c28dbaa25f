import TokenAudit.Detector.Model
import TokenAudit.Detector.Rules
import TokenAudit.Lists
import TokenAudit.Stream.Feed

/-! In which order the calls of detectors reach the stream. The tasks run side by side, and one who
waits for them takes note of each end in turn; the clock leads to one of the orders that this
allows. -/

namespace TokenAudit

/-- One detector's work: its calls at once, its calls when it ends, and the end itself. -/
structure Worked (α : Type) where
  name : String
  opening : List Call
  closing : List Call
  endsAt : Nat
  outcome : Outcome α

namespace Panel

def breakdownCalls {α : Type} (w : Worked α) : List Call :=
  match w.outcome with
  | .panicked report => [.detectorError w.name report]
  | _ => []

/-! ### Any order -/

/-- The calls that a task still makes, and those that are made once its end is noticed. -/
structure Task where
  own : List Call
  noticed : List Call

/-- What comes of tasks side by side: at any time one of them makes its next call, or the end of the
first is noticed. -/
inductive Interleaved : List Task → List Call → Prop where
  | nil : Interleaved [] []
  | call (before : List Task) (c : Call) (own noticed : List Call) (after : List Task)
      {cs : List Call} (h : Interleaved (before ++ ⟨own, noticed⟩ :: after) cs) :
      Interleaved (before ++ ⟨c :: own, noticed⟩ :: after) (c :: cs)
  | notice (c : Call) (noticed : List Call) (after : List Task) {cs : List Call}
      (h : Interleaved (⟨[], noticed⟩ :: after) cs) :
      Interleaved (⟨[], c :: noticed⟩ :: after) (c :: cs)
  | next {after : List Task} {cs : List Call} (h : Interleaved after cs) :
      Interleaved (⟨[], []⟩ :: after) cs

namespace Interleaved

theorem calls (before : List Task) (now own noticed : List Call) (after : List Task)
    {cs : List Call} (h : Interleaved (before ++ ⟨own, noticed⟩ :: after) cs) :
    Interleaved (before ++ ⟨now ++ own, noticed⟩ :: after) (now ++ cs) := by
  induction now with
  | nil => exact h
  | cons c now ih => exact .call before c (now ++ own) noticed after ih

theorem ended (noticed : List Call) {after : List Task} {cs : List Call}
    (h : Interleaved after cs) : Interleaved (⟨[], noticed⟩ :: after) (noticed ++ cs) := by
  induction noticed with
  | nil => exact .next h
  | cons c noticed ih => exact .notice c noticed after ih

end Interleaved

def tasks (security : Worked SecurityReport) (ws : List (Worked Assessment)) : List Task :=
  ⟨security.opening ++ security.closing,
    breakdownCalls security ++ [.phase .staticAnalysis .done]⟩ ::
  ws.map fun w => ⟨w.opening ++ w.closing, breakdownCalls w⟩

/-! ### By the clock -/

structure Due where
  at_ : Nat
  late : Bool
  calls : List Call

def Due.ofPart (part : Nat × List Call) : Due := ⟨part.1, false, part.2⟩

def Due.before (a b : Due) : Bool := a.at_ < b.at_ || (a.at_ = b.at_ && (!a.late || b.late))

def insertDue (d : Due) : List Due → List Due
  | [] => [d]
  | e :: es => if d.before e then d :: e :: es else e :: insertDue d es

def sortDue (ds : List Due) : List Due := ds.foldr insertDue []

structure Timed where
  parts : List (Nat × List Call)
  noticedAt : Nat
  noticed : List Call
  inOrder : parts.Pairwise fun a b => a.1 ≤ b.1
  inTime : ∀ a ∈ parts, a.1 ≤ noticedAt

namespace Timed

def task (t : Timed) : Task := ⟨t.parts.flatMap Prod.snd, t.noticed⟩

def dues (t : Timed) : List Due := t.parts.map Due.ofPart

def notice (t : Timed) : Due := ⟨t.noticedAt, true, t.noticed⟩

/-- A detector that has its answer at once ends before the next one begins. -/
def ofWorked {α : Type} (w : Worked α) (noticedAt : Nat) (noticed : List Call)
    (h : w.endsAt ≤ noticedAt) : Timed :=
  if he : w.endsAt = 0 then
    { parts := [(0, w.opening ++ w.closing)]
      noticedAt := noticedAt
      noticed := noticed
      inOrder := List.pairwise_singleton _ _
      inTime := by simp }
  else
    { parts := [(0, w.opening), (w.endsAt, w.closing)]
      noticedAt := noticedAt
      noticed := noticed
      inOrder := by simp
      inTime := by simp [h] }

theorem task_ofWorked {α : Type} (w : Worked α) (noticedAt : Nat) (noticed : List Call)
    (h : w.endsAt ≤ noticedAt) :
    (ofWorked w noticedAt noticed h).task = ⟨w.opening ++ w.closing, noticed⟩ := by
  unfold ofWorked
  split
  · simp [task]
  · simp [task]

theorem noticedAt_ofWorked {α : Type} (w : Worked α) (noticedAt : Nat) (noticed : List Call)
    (h : w.endsAt ≤ noticedAt) : (ofWorked w noticedAt noticed h).noticedAt = noticedAt := by
  unfold ofWorked
  split <;> rfl

end Timed

def timedModels : Nat → List (Worked Assessment) → List Timed
  | _, [] => []
  | now, w :: ws =>
    .ofWorked w (max now w.endsAt) (breakdownCalls w) (Nat.le_max_right _ _) ::
      timedModels (max now w.endsAt) ws

def timed (security : Worked SecurityReport) (ws : List (Worked Assessment)) : List Timed :=
  .ofWorked security security.endsAt
    (breakdownCalls security ++ [.phase .staticAnalysis .done]) (Nat.le_refl _) ::
  timedModels security.endsAt ws

def duesOf (ts : List Timed) : List Due := ts.flatMap Timed.dues ++ ts.map Timed.notice

def schedule (security : Worked SecurityReport) (ws : List (Worked Assessment)) : List Call :=
  (sortDue (duesOf (timed security ws))).flatMap Due.calls

/-! ### The clock leads to one of the orders -/

namespace Due

theorem before_iff {a b : Due} : a.before b = true ↔
    a.at_ < b.at_ ∨ (a.at_ = b.at_ ∧ (a.late = true → b.late = true)) := by
  cases h : a.late <;> simp [before, h]

theorem before_total (a b : Due) : a.before b = true ∨ b.before a = true := by
  rw [before_iff, before_iff]
  rcases Nat.lt_trichotomy a.at_ b.at_ with h | h | h
  · exact .inl (.inl h)
  · by_cases hb : b.late = true
    · exact .inl (.inr ⟨h, fun _ => hb⟩)
    · exact .inr (.inr ⟨h.symm, fun hlate => absurd hlate hb⟩)
  · exact .inr (.inl h)

theorem before_trans {a b c : Due} (hab : a.before b = true) (hbc : b.before c = true) :
    a.before c = true := by
  rw [before_iff] at *
  obtain hab | ⟨hab, hlate⟩ := hab
  · obtain hbc | ⟨hbc, -⟩ := hbc
    · exact .inl (Nat.lt_trans hab hbc)
    · exact .inl (hbc ▸ hab)
  · obtain hbc | ⟨hbc, hlate'⟩ := hbc
    · exact .inl (hab ▸ hbc)
    · exact .inr ⟨hab.trans hbc, fun h => hlate' (hlate h)⟩

theorem before_of_le {a b : Due} (h : a.at_ ≤ b.at_) (hlate : a.late = true → b.late = true) :
    a.before b = true := by
  rw [before_iff]
  rcases Nat.lt_or_eq_of_le h with h | h
  · exact .inl h
  · exact .inr ⟨h, hlate⟩

end Due

theorem mem_insertDue {d e : Due} {ds : List Due} (h : e ∈ insertDue d ds) : e = d ∨ e ∈ ds := by
  induction ds with
  | nil => exact .inl (List.mem_singleton.mp h)
  | cons f ds ih =>
    unfold insertDue at h
    split at h
    · exact List.mem_cons.mp h
    · rcases List.mem_cons.mp h with rfl | h
      · exact .inr List.mem_cons_self
      · exact (ih h).imp_right (List.mem_cons_of_mem f)

theorem mem_sortDue {e : Due} {ds : List Due} (h : e ∈ sortDue ds) : e ∈ ds := by
  induction ds with
  | nil => exact h
  | cons d ds ih =>
    rcases mem_insertDue h with rfl | h
    · exact List.mem_cons_self
    · exact List.mem_cons_of_mem d (ih h)

theorem sortDue_of_first {before after : List Due} {d : Due}
    (hb : ∀ e ∈ before, e.before d = false) (ha : ∀ e ∈ after, d.before e = true) :
    sortDue (before ++ d :: after) = d :: sortDue (before ++ after) := by
  induction before with
  | nil =>
    change insertDue d (sortDue after) = d :: sortDue after
    cases h : sortDue after with
    | nil => rfl
    | cons e es =>
      have he : e ∈ sortDue after := h ▸ List.mem_cons_self
      rw [insertDue, if_pos (ha e (mem_sortDue he))]
  | cons e before ih =>
    have he : ¬e.before d = true := by simp [hb e List.mem_cons_self]
    change insertDue e (sortDue (before ++ d :: after)) =
      d :: insertDue e (sortDue (before ++ after))
    rw [ih fun f hf => hb f (List.mem_cons_of_mem e hf), insertDue, if_neg he]

theorem exists_first {ds : List Due} (h : ds ≠ []) :
    ∃ before d after, ds = before ++ d :: after ∧ (∀ e ∈ before, e.before d = false) ∧
      ∀ e ∈ after, d.before e = true := by
  induction ds with
  | nil => exact absurd rfl h
  | cons d ds ih =>
    by_cases hds : ds = []
    · exact ⟨[], d, [], by rw [hds]; rfl, by simp, by simp⟩
    · obtain ⟨before, e, after, rfl, hb, ha⟩ := ih hds
      cases hd : d.before e with
      | false =>
        refine ⟨d :: before, e, after, rfl, fun f hf => ?_, ha⟩
        rcases List.mem_cons.mp hf with rfl | hf
        · exact hd
        · exact hb f hf
      | true =>
        refine ⟨[], d, before ++ e :: after, rfl, by simp, fun f hf => ?_⟩
        rcases List.mem_append.mp hf with hf | hf
        · have hef := (Due.before_total e f).resolve_right (by simp [hb f hf])
          exact Due.before_trans hd hef
        · rcases List.mem_cons.mp hf with rfl | hf
          · exact hd
          · exact Due.before_trans hd (ha f hf)

def Punctual (ts : List Timed) : Prop := (ts.map Timed.noticedAt).Pairwise (· ≤ ·)

theorem Timed.first_part {t : Timed} {front back : List Due} {d : Due}
    (h : t.dues = front ++ d :: back) (hb : ∀ e ∈ front, e.before d = false) :
    ∃ a parts, t.parts = a :: parts ∧ front = [] ∧ d = .ofPart a ∧
      back = parts.map Due.ofPart := by
  have hsorted := t.inOrder
  unfold Timed.dues at h
  cases hparts : t.parts with
  | nil =>
    rw [hparts] at h
    exact absurd h (by simp)
  | cons a parts =>
    rw [hparts] at h hsorted
    cases front with
    | nil =>
      obtain ⟨rfl, rfl⟩ := List.cons.inj h
      exact ⟨a, parts, rfl, rfl, rfl, rfl⟩
    | cons e front =>
      obtain ⟨rfl, hrest⟩ := List.cons.inj h
      have hd : d ∈ parts.map Due.ofPart := hrest ▸ List.mem_append_right _ List.mem_cons_self
      obtain ⟨c, hc, rfl⟩ := List.mem_map.mp hd
      have hac : (Due.ofPart a).before (.ofPart c) = true :=
        Due.before_of_le (List.rel_of_pairwise_cons hsorted hc) id
      rw [hb _ List.mem_cons_self] at hac
      cases hac

def Timed.drop (t : Timed) {a : Nat × List Call} {parts : List (Nat × List Call)}
    (h : t.parts = a :: parts) : Timed where
  parts := parts
  noticedAt := t.noticedAt
  noticed := t.noticed
  inOrder := (h ▸ t.inOrder).of_cons
  inTime b hb := t.inTime b (h ▸ List.mem_cons_of_mem a hb)

theorem first_notice {t : Timed} {ts : List Timed} {rest after : List Due} {d : Due}
    (h : Punctual (t :: ts)) (hn : (t :: ts).map Timed.notice = rest ++ d :: after)
    (hb : ∀ e ∈ (t :: ts).flatMap Timed.dues ++ rest, e.before d = false) :
    rest = [] ∧ d = t.notice ∧ after = ts.map Timed.notice ∧ t.parts = [] := by
  cases rest with
  | nil =>
    obtain ⟨rfl, rfl⟩ := List.cons.inj hn
    refine ⟨rfl, rfl, rfl, List.eq_nil_iff_forall_not_mem.mpr fun a ha => ?_⟩
    have hmem : Due.ofPart a ∈ t.dues := List.mem_map_of_mem ha
    have hearly : (Due.ofPart a).before t.notice = true :=
      Due.before_of_le (t.inTime a ha) nofun
    rw [hb _ (by simp [hmem])] at hearly
    cases hearly
  | cons e rest =>
    obtain ⟨rfl, hrest⟩ := List.cons.inj hn
    have hd : d ∈ ts.map Timed.notice := hrest ▸ List.mem_append_right _ List.mem_cons_self
    obtain ⟨u, hu, rfl⟩ := List.mem_map.mp hd
    have hle : t.noticedAt ≤ u.noticedAt :=
      List.rel_of_pairwise_cons h (List.mem_map_of_mem hu)
    have hearly : t.notice.before u.notice = true := Due.before_of_le hle id
    rw [hb _ (List.mem_append_right _ List.mem_cons_self)] at hearly
    cases hearly

theorem interleaved_of_punctual {ts : List Timed} (h : Punctual ts) :
    Interleaved (ts.map Timed.task) ((sortDue (duesOf ts)).flatMap Due.calls) := by
  -- On the number of calls still due: the earliest of them is taken away.
  induction hn : (duesOf ts).length using Nat.strongRecOn generalizing ts with
  | ind n ih =>
    cases ts with
    | nil => exact .nil
    | cons t ts =>
      have hne : duesOf (t :: ts) ≠ [] := by simp [duesOf]
      obtain ⟨before, d, after, hds, hb, ha⟩ := exists_first hne
      have hlt : (before ++ after).length < n := by
        rw [← hn, hds]
        simp
      rw [hds, sortDue_of_first hb ha, List.flatMap_cons]
      obtain ⟨rest, hparts, rfl⟩ | ⟨rest, rfl, hnotices⟩ := split_append hds
      -- A task makes the calls of its next part.
      · obtain ⟨pre, u, post, front, back, hts, hu, rfl, rfl⟩ := split_flatMap hparts
        obtain ⟨a, parts, hpart, rfl, rfl, rfl⟩ :=
          u.first_part hu fun e he => hb e (List.mem_append_right _ he)
        rw [hts] at h hlt ⊢
        have hdues : pre.flatMap Timed.dues ++ [] ++ (parts.map Due.ofPart ++
            post.flatMap Timed.dues ++ (pre ++ u :: post).map Timed.notice) =
            duesOf (pre ++ u.drop hpart :: post) := by
          simp [duesOf, Timed.dues, Timed.drop, Timed.notice]
        have hpunctual : Punctual (pre ++ u.drop hpart :: post) := by
          simpa [Punctual, Timed.drop] using h
        have hcalls := ih _ (hdues ▸ hlt) hpunctual rfl
        rw [hdues]
        simp only [List.map_append, List.map_cons, Timed.task, hpart, List.flatMap_cons]
          at hcalls ⊢
        exact .calls _ a.2 _ _ _ hcalls
      -- No task has anything due before the first end is noticed.
      · obtain ⟨rfl, rfl, rfl, hdone⟩ := first_notice h hnotices hb
        have hdues : (t :: ts).flatMap Timed.dues ++ [] ++ ts.map Timed.notice = duesOf ts := by
          simp [duesOf, Timed.dues, hdone]
        have hcalls := ih _ (hdues ▸ hlt) (List.Pairwise.of_cons h) rfl
        rw [hdues, List.map_cons, Timed.task, hdone]
        exact .ended t.noticed hcalls

theorem le_noticedAt_timedModels (now : Nat) (ws : List (Worked Assessment)) :
    ∀ n ∈ (timedModels now ws).map Timed.noticedAt, now ≤ n := by
  induction ws generalizing now with
  | nil => simp [timedModels]
  | cons w ws ih =>
    intro n hn
    rw [timedModels, List.map_cons, Timed.noticedAt_ofWorked] at hn
    rcases List.mem_cons.mp hn with rfl | hn
    · exact Nat.le_max_left _ _
    · exact Nat.le_trans (Nat.le_max_left _ _) (ih _ n hn)

theorem punctual_timedModels (now : Nat) (ws : List (Worked Assessment)) :
    Punctual (timedModels now ws) := by
  induction ws generalizing now with
  | nil => exact .nil
  | cons w ws ih =>
    unfold Punctual
    rw [timedModels, List.map_cons, Timed.noticedAt_ofWorked]
    exact .cons (le_noticedAt_timedModels _ ws) (ih _)

theorem task_timedModels (now : Nat) (ws : List (Worked Assessment)) :
    (timedModels now ws).map Timed.task =
      ws.map fun w => ⟨w.opening ++ w.closing, breakdownCalls w⟩ := by
  induction ws generalizing now with
  | nil => rfl
  | cons w ws ih => rw [timedModels, List.map_cons, List.map_cons, Timed.task_ofWorked, ih]

theorem interleaved_schedule (security : Worked SecurityReport) (ws : List (Worked Assessment)) :
    Interleaved (tasks security ws) (schedule security ws) := by
  have hpunctual : Punctual (timed security ws) := by
    unfold Punctual
    rw [timed, List.map_cons, Timed.noticedAt_ofWorked]
    exact .cons (le_noticedAt_timedModels _ ws) (punctual_timedModels _ ws)
  have htasks : (timed security ws).map Timed.task = tasks security ws := by
    rw [timed, List.map_cons, Timed.task_ofWorked, task_timedModels, tasks]
  exact htasks ▸ interleaved_of_punctual hpunctual

/-- How the tasks of a panel are interleaved: in one of the orders that they allow. -/
structure Order where
  calls : Worked SecurityReport → List (Worked Assessment) → List Call
  interleaved : ∀ security ws, Interleaved (tasks security ws) (calls security ws)

def Order.byTime : Order := ⟨schedule, interleaved_schedule⟩

end Panel

end TokenAudit
