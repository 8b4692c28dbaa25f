import TokenAudit.Stream.Feed

/-! The grammar of an audit's records, and what a feed remembers of the records so far. A feed that
tracks a list admits a further record exactly when the longer list is still in the grammar. -/

namespace TokenAudit

def Event.statusOf? (p : Phase) : Event → Option PhaseStatus
  | .phase q _ s => if q = p then some s else none
  | _ => none

def phaseRecords (p : Phase) (es : List Event) : List PhaseStatus :=
  es.filterMap (Event.statusOf? p)

def detectorRecords (d : String) (es : List Event) : List Event :=
  es.filter fun e => e.detector? = some d

inductive PhaseWord : List PhaseStatus → Prop where
  | ended (s : PhaseStatus) (h : s.isTerminal = true) : PhaseWord [.running, s]

inductive Reasoning (d : String) : List Event → Prop where
  | silent : Reasoning d []
  | opened (texts : List String) :
    Reasoning d (.reasoningStart d :: texts.map (.reasoningChunk d))

inductive Concludes (d : String) : Event → Prop where
  | score (bits : UInt8) : Concludes d (.detectorScore d bits)
  | error (message : String) : Concludes d (.detectorError d message)

inductive DetectorWord (d : String) : List Event → Prop where
  | concluded (family : Family) (r : List Event) (e : Event) (hr : Reasoning d r)
      (he : Concludes d e) : DetectorWord d (.detectorStarted d family :: (r ++ [e]))

def AllEnded (es : List Event) : Prop :=
  ∀ p, .running ∈ phaseRecords p es → ∃ s, s.isTerminal = true ∧ s ∈ phaseRecords p es

def openPhases (es : List Event) : List Phase :=
  Phase.all.filter fun p => phaseRecords p es = [.running]

structure Grammar (es : List Event) : Prop where
  phases : ∀ p, ∃ w, PhaseWord w ∧ phaseRecords p es <+: w
  detectors : ∀ d, ∃ w, DetectorWord d w ∧ detectorRecords d es <+: w
  terminal : ∀ before e after, es = before ++ e :: after → e.isTerminal = true →
    after = [] ∧ AllEnded before

/-! ### Records so far -/

theorem phaseRecords_snoc (p : Phase) (es : List Event) (e : Event) :
    phaseRecords p (es ++ [e]) = phaseRecords p es ++ (e.statusOf? p).toList := by
  unfold phaseRecords
  rw [List.filterMap_append]
  cases h : e.statusOf? p <;> simp [h]

theorem detectorRecords_snoc_self {d : String} {e : Event} (es : List Event)
    (h : e.detector? = some d) : detectorRecords d (es ++ [e]) = detectorRecords d es ++ [e] := by
  simp [detectorRecords, h]

theorem detectorRecords_snoc_of_ne {d : String} {e : Event} (es : List Event)
    (h : e.detector? ≠ some d) : detectorRecords d (es ++ [e]) = detectorRecords d es := by
  simp [detectorRecords, h]

/-- The records of a phase so far, and the status that is remembered. -/
inductive PhaseTrack : List PhaseStatus → Option PhaseStatus → Prop where
  | unseen : PhaseTrack [] none
  | running : PhaseTrack [.running] (some .running)
  | ended (s : PhaseStatus) (h : s.isTerminal = true) : PhaseTrack [.running, s] (some s)

/-- The records of a detector so far, and what is remembered: whether it has ended, and whether
its reasoning has opened. -/
inductive DetectorTrack (d : String) : List Event → Option Bool → Bool → Prop where
  | unseen : DetectorTrack d [] none false
  | started (family : Family) : DetectorTrack d [.detectorStarted d family] (some false) false
  | reasoning (family : Family) (texts : List String) :
    DetectorTrack d (.detectorStarted d family :: .reasoningStart d ::
      texts.map (.reasoningChunk d)) (some false) true
  | ended (family : Family) (r : List Event) (e : Event) (hr : Reasoning d r)
      (he : Concludes d e) :
    DetectorTrack d (.detectorStarted d family :: (r ++ [e])) (some true) (!r.isEmpty)

namespace PhaseTrack

variable {ws : List PhaseStatus} {current : Option PhaseStatus} {s : PhaseStatus}

theorem exists_word (h : PhaseTrack ws current) : ∃ w, PhaseWord w ∧ ws <+: w := by
  cases h with
  | unseen => exact ⟨_, .ended .done rfl, List.nil_prefix⟩
  | running => exact ⟨_, .ended .done rfl, ⟨[.done], rfl⟩⟩
  | ended s hs => exact ⟨_, .ended s hs, List.prefix_rfl⟩

theorem snoc (h : PhaseTrack ws current) (ha : Feed.phaseAllowed current s = true) :
    PhaseTrack (ws ++ [s]) (some s) := by
  cases h with
  | unseen =>
    obtain rfl : s = .running := by simpa [Feed.phaseAllowed] using ha
    exact .running
  | running => exact .ended s ha
  | ended s' hs' =>
    cases s' with
    | running => cases hs'
    | done | error => cases ha

theorem allowed_of_word (h : PhaseTrack ws current) {w : List PhaseStatus} (hw : PhaseWord w)
    (hp : ws ++ [s] <+: w) : Feed.phaseAllowed current s = true := by
  obtain ⟨s', hs'⟩ := hw
  obtain ⟨rest, hrest⟩ := hp
  cases h with
  | unseen =>
    obtain ⟨rfl, -⟩ := List.cons.inj hrest
    rfl
  | running =>
    obtain ⟨-, hrest⟩ := List.cons.inj hrest
    obtain ⟨rfl, -⟩ := List.cons.inj hrest
    exact hs'
  | ended s'' h'' => simp at hrest

theorem ended_iff (h : PhaseTrack ws current) :
    (.running ∈ ws → ∃ s, s.isTerminal = true ∧ s ∈ ws) ↔ current ≠ some .running := by
  cases h with
  | unseen => simp
  | running => simp [PhaseStatus.isTerminal]
  | ended s hs =>
    refine iff_of_true (fun _ => ⟨s, hs, by simp⟩) (fun he => ?_)
    rw [Option.some.inj he] at hs
    cases hs

theorem running_iff (h : PhaseTrack ws current) :
    current = some .running ↔ ws = [.running] := by
  cases h with
  | unseen => simp
  | running => simp
  | ended s hs =>
    refine iff_of_false (fun he => ?_) (by simp)
    rw [Option.some.inj he] at hs
    cases hs

end PhaseTrack

/-! ### One record more -/

namespace Feed

def admits (f : Feed) : Event → Bool
  | .phase p _ s => phaseAllowed (f.phases p) s
  | .detectorStarted d _ => (f.detectors d).isNone
  | .reasoningStart d => f.isOpen d && !f.reasoning d
  | .reasoningChunk d _ => f.isOpen d && f.reasoning d
  | .detectorScore d _ => f.isOpen d
  | .detectorError d _ => f.isOpen d
  | .transactionSubmitted _ => true
  | .transactionConfirmed _ _ _ => true
  | .finalVerdict _ => f.running.isEmpty
  | .fatalError _ => f.running.isEmpty

def take (f : Feed) : Event → Feed
  | .phase p _ s => f.setPhase p s
  | .detectorStarted d _ => f.setDetector d false
  | .reasoningStart d => f.openReasoning d
  | .detectorScore d _ => f.setDetector d true
  | .detectorError d _ => f.setDetector d true
  | .finalVerdict _ => f.terminate
  | .fatalError _ => f.terminate
  | _ => f

theorem admits_of_statusOf? {f : Feed} {e : Event} {p : Phase} {s : PhaseStatus}
    (h : e.statusOf? p = some s) : f.admits e = phaseAllowed (f.phases p) s := by
  cases e with
  | phase q l s' =>
    by_cases hq : q = p
    · subst hq
      obtain rfl : s' = s := by simpa [Event.statusOf?] using h
      rfl
    · simp [Event.statusOf?, hq] at h
  | _ => cases h

theorem admits_of_isTerminal {f : Feed} {e : Event} (h : e.isTerminal = true) :
    f.admits e = true ↔ f.running = [] := by
  cases e with
  | finalVerdict | fatalError => exact List.isEmpty_iff
  | _ => cases h

theorem phases_take (f : Feed) (e : Event) (p : Phase) :
    (f.take e).phases p = (e.statusOf? p).or (f.phases p) := by
  cases e with
  | phase q l s =>
    by_cases h : q = p
    · simp [take, setPhase, Event.statusOf?, h]
    · simp [take, setPhase, Event.statusOf?, h, Ne.symm h]
  | _ => rfl

theorem detectors_take_of_ne (f : Feed) {e : Event} {d : String} (h : e.detector? ≠ some d) :
    (f.take e).detectors d = f.detectors d ∧ (f.take e).reasoning d = f.reasoning d := by
  cases e with
  | detectorStarted d' _ | reasoningStart d' | detectorScore d' _ | detectorError d' _ =>
    have hne : d ≠ d' := fun he => h (congrArg some he.symm)
    simp [take, setDetector, openReasoning, hne]
  | _ => exact ⟨rfl, rfl⟩

theorem terminated_take (f : Feed) (e : Event) :
    (f.take e).terminated = (f.terminated || e.isTerminal) := by
  cases e <;> simp [take, setPhase, setDetector, openReasoning, terminate, Event.isTerminal]

theorem mem_running {f : Feed} {p : Phase} : p ∈ f.running ↔ f.phases p = some .running := by
  have hall : p ∈ Phase.all := by cases p <;> simp [Phase.all]
  simp [running, hall]

theorem isOpen_iff {f : Feed} {d : String} : f.isOpen d = true ↔ f.detectors d = some false := by
  simp [isOpen]

end Feed

theorem Reasoning.not_concludes {d : String} {r : List Event} (hr : Reasoning d r) {e : Event}
    (he : Concludes d e) : e ∉ r := by
  intro hm
  cases hr with
  | silent => cases hm
  | opened texts =>
    rcases List.mem_cons.mp hm with rfl | hm
    · cases he
    · obtain ⟨_, _, rfl⟩ := List.mem_map.mp hm
      cases he

theorem mem_of_prefix_snoc {γ : Type} {a b : List γ} {x y z : γ}
    (h : (a ++ [x]) ++ [y] <+: b ++ [z]) : x ∈ b := by
  obtain ⟨rest, hrest⟩ := h
  have hdrop := congrArg List.dropLast hrest
  rw [List.dropLast_concat, List.append_assoc, List.dropLast_append_of_ne_nil (by simp)] at hdrop
  rw [← hdrop]
  simp

namespace DetectorTrack

variable {d : String} {ws : List Event} {ended : Option Bool} {reasoned : Bool}

theorem exists_word (h : DetectorTrack d ws ended reasoned) :
    ∃ w, DetectorWord d w ∧ ws <+: w := by
  cases h with
  | unseen => exact ⟨_, .concluded .fixed _ _ .silent (.score 0), List.nil_prefix⟩
  | started family =>
    exact ⟨_, .concluded family _ _ .silent (.score 0), ⟨[.detectorScore d 0], rfl⟩⟩
  | reasoning family texts =>
    exact ⟨_, .concluded family _ _ (.opened texts) (.score 0), ⟨[.detectorScore d 0], rfl⟩⟩
  | ended family r e hr he => exact ⟨_, .concluded family r e hr he, List.prefix_rfl⟩

theorem start (h : DetectorTrack d ws none reasoned) (family : Family) :
    DetectorTrack d (ws ++ [.detectorStarted d family]) (some false) reasoned := by
  cases h with
  | unseen => exact .started family

theorem openReasoning (h : DetectorTrack d ws (some false) false) :
    DetectorTrack d (ws ++ [.reasoningStart d]) (some false) true := by
  cases h with
  | started family => exact .reasoning family []

theorem chunk (h : DetectorTrack d ws (some false) true) (text : String) :
    DetectorTrack d (ws ++ [.reasoningChunk d text]) (some false) true := by
  cases h with
  | reasoning family texts =>
    have track := DetectorTrack.reasoning (d := d) family (texts ++ [text])
    rw [List.map_append] at track
    exact track

theorem conclude (h : DetectorTrack d ws (some false) reasoned) {e : Event}
    (he : Concludes d e) : DetectorTrack d (ws ++ [e]) (some true) reasoned := by
  cases h with
  | started family => exact .ended family [] e .silent he
  | reasoning family texts => exact .ended family _ e (.opened texts) he

theorem next_of_word (h : DetectorTrack d ws ended reasoned) {w : List Event}
    (hw : DetectorWord d w) {e : Event} (hp : ws ++ [e] <+: w) :
    (ended = none ∧ ∃ family, e = .detectorStarted d family) ∨
    (ended = some false ∧ (e = .reasoningStart d ∧ reasoned = false ∨
      (∃ text, e = .reasoningChunk d text ∧ reasoned = true) ∨ Concludes d e)) := by
  obtain ⟨family', r', e', hr', he'⟩ := hw
  cases h with
  | unseen =>
    obtain ⟨rest, hrest⟩ := hp
    obtain ⟨rfl, -⟩ := List.cons.inj hrest
    exact .inl ⟨rfl, family', rfl⟩
  | started family =>
    obtain ⟨-, hp⟩ := List.cons_prefix_cons.mp hp
    cases hr' with
    | silent =>
      obtain ⟨rfl, -⟩ := List.cons_prefix_cons.mp hp
      exact .inr ⟨rfl, .inr (.inr he')⟩
    | opened texts' =>
      obtain ⟨rfl, -⟩ := List.cons_prefix_cons.mp hp
      exact .inr ⟨rfl, .inl ⟨rfl, rfl⟩⟩
  | reasoning family texts =>
    obtain ⟨-, hp⟩ := List.cons_prefix_cons.mp hp
    refine .inr ⟨rfl, .inr ?_⟩
    cases hr' with
    | silent =>
      obtain ⟨rfl, -⟩ := List.cons_prefix_cons.mp hp
      cases he'
    | opened texts' =>
      obtain ⟨-, hp⟩ := List.cons_prefix_cons.mp hp
      -- Past its opening a word holds only chunks and the record that concludes it.
      have hmem := hp.subset (List.mem_append_right _ (List.mem_singleton_self e))
      rcases List.mem_append.mp hmem with hmem | hmem
      · obtain ⟨text, -, rfl⟩ := List.mem_map.mp hmem
        exact .inl ⟨text, rfl, rfl⟩
      · rw [List.mem_singleton.mp hmem]
        exact .inr he'
  | ended family r e₀ hr he =>
    obtain ⟨-, hp⟩ := List.cons_prefix_cons.mp hp
    exact absurd (mem_of_prefix_snoc hp) (hr'.not_concludes he)

theorem take {f : Feed} {e : Event} (h : DetectorTrack d ws (f.detectors d) (f.reasoning d))
    (he : e.detector? = some d) (ha : f.admits e = true) :
    DetectorTrack d (ws ++ [e]) ((f.take e).detectors d) ((f.take e).reasoning d) := by
  cases e with
  | detectorStarted d' family =>
    obtain rfl : d' = d := Option.some.inj he
    rw [Option.isNone_iff_eq_none.mp ha] at h
    simpa [Feed.take, Feed.setDetector] using h.start family
  | reasoningStart d' =>
    obtain rfl : d' = d := Option.some.inj he
    obtain ⟨hopen, hr⟩ := Bool.and_eq_true_iff.mp ha
    have hr : f.reasoning d' = false := by simpa using hr
    rw [Feed.isOpen_iff.mp hopen, hr] at h
    simpa [Feed.take, Feed.openReasoning, Feed.isOpen_iff.mp hopen] using h.openReasoning
  | reasoningChunk d' text =>
    obtain rfl : d' = d := Option.some.inj he
    obtain ⟨hopen, hr⟩ := Bool.and_eq_true_iff.mp ha
    rw [Feed.isOpen_iff.mp hopen, hr] at h
    simpa [Feed.take, Feed.isOpen_iff.mp hopen, hr] using h.chunk text
  | detectorScore d' bits =>
    obtain rfl : d' = d := Option.some.inj he
    rw [Feed.isOpen_iff.mp ha] at h
    simpa [Feed.take, Feed.setDetector] using h.conclude (.score bits)
  | detectorError d' message =>
    obtain rfl : d' = d := Option.some.inj he
    rw [Feed.isOpen_iff.mp ha] at h
    simpa [Feed.take, Feed.setDetector] using h.conclude (.error message)
  | _ => cases he

theorem admits_of_word {f : Feed} {e : Event}
    (h : DetectorTrack d ws (f.detectors d) (f.reasoning d)) {w : List Event}
    (hw : DetectorWord d w) (hp : ws ++ [e] <+: w) : f.admits e = true := by
  obtain ⟨hnone, family, rfl⟩ | ⟨hopen, hnext⟩ := h.next_of_word hw hp
  · exact Option.isNone_iff_eq_none.mpr hnone
  · obtain ⟨rfl, hr⟩ | ⟨text, rfl, hr⟩ | he := hnext
    · exact Bool.and_eq_true_iff.mpr ⟨Feed.isOpen_iff.mpr hopen, by rw [hr]; rfl⟩
    · exact Bool.and_eq_true_iff.mpr ⟨Feed.isOpen_iff.mpr hopen, hr⟩
    · cases he with
      | score | error => exact Feed.isOpen_iff.mpr hopen

end DetectorTrack

/-! ### A feed and the list that it has let through -/

/-- The feed remembers of the records so far what it needs to judge the next one. -/
structure Tracks (f : Feed) (es : List Event) : Prop where
  phases : ∀ p, PhaseTrack (phaseRecords p es) (f.phases p)
  detectors : ∀ d, DetectorTrack d (detectorRecords d es) (f.detectors d) (f.reasoning d)
  terminated : f.terminated = es.any Event.isTerminal

namespace Tracks

variable {f : Feed} {es : List Event} {e : Event}

theorem empty : Tracks .empty [] := ⟨fun _ => .unseen, fun _ => .unseen, rfl⟩

theorem allEnded_iff (h : Tracks f es) : AllEnded es ↔ f.running = [] := by
  unfold AllEnded
  rw [List.eq_nil_iff_forall_not_mem]
  refine forall_congr' fun p => ?_
  rw [(h.phases p).ended_iff, Feed.mem_running]

theorem running_eq (h : Tracks f es) : f.running = openPhases es := by
  unfold Feed.running openPhases
  apply List.filter_congr
  intro p _
  exact decide_eq_decide.mpr (h.phases p).running_iff

theorem not_terminal_of_open (h : Tracks f es) (hopen : f.terminated = false) :
    ∀ e ∈ es, e.isTerminal = false := by
  rw [h.terminated] at hopen
  simpa using hopen

theorem take (h : Tracks f es) (ha : f.admits e = true) : Tracks (f.take e) (es ++ [e]) where
  phases p := by
    rw [phaseRecords_snoc, Feed.phases_take]
    cases hs : e.statusOf? p with
    | none =>
      rw [Option.toList_none, List.append_nil]
      exact h.phases p
    | some s =>
      rw [Feed.admits_of_statusOf? hs] at ha
      exact (h.phases p).snoc ha
  detectors d := by
    by_cases hd : e.detector? = some d
    · rw [detectorRecords_snoc_self es hd]
      exact (h.detectors d).take hd ha
    · obtain ⟨hdet, hreason⟩ := f.detectors_take_of_ne hd
      rw [detectorRecords_snoc_of_ne es hd, hdet, hreason]
      exact h.detectors d
  terminated := by
    rw [Feed.terminated_take, h.terminated, List.any_append, List.any_cons, List.any_nil,
      Bool.or_false]

theorem split_snoc (h : Tracks f es) (hopen : f.terminated = false) {before after : List Event}
    {x : Event} (hs : es ++ [e] = before ++ x :: after) (hx : x.isTerminal = true) :
    before = es ∧ x = e ∧ after = [] := by
  rcases List.eq_nil_or_concat after with rfl | ⟨rest, y, rfl⟩
  · obtain ⟨rfl, he⟩ := List.append_inj' hs rfl
    exact ⟨rfl, (List.singleton_inj.mp he).symm, rfl⟩
  · rw [List.concat_eq_append, ← List.cons_append, ← List.append_assoc] at hs
    obtain ⟨rfl, -⟩ := List.append_inj' hs rfl
    have hno := h.not_terminal_of_open hopen x (List.mem_append_right _ List.mem_cons_self)
    rw [hx] at hno
    cases hno

theorem grammar_snoc_iff (h : Tracks f es) (hopen : f.terminated = false) :
    Grammar (es ++ [e]) ↔ f.admits e = true := by
  constructor
  · intro hg
    -- A record is constrained by one part of the grammar: the end, its detector, or its phase.
    by_cases ht : e.isTerminal = true
    · obtain ⟨-, hended⟩ := hg.terminal es e [] rfl ht
      exact (Feed.admits_of_isTerminal ht).mpr (h.allEnded_iff.mp hended)
    · cases hd : e.detector? with
      | some d =>
        obtain ⟨w, hw, hp⟩ := hg.detectors d
        rw [detectorRecords_snoc_self es hd] at hp
        exact (h.detectors d).admits_of_word hw hp
      | none =>
        cases e with
        | phase p l s =>
          have hs : (Event.phase p l s).statusOf? p = some s := if_pos rfl
          obtain ⟨w, hw, hp⟩ := hg.phases p
          rw [phaseRecords_snoc, hs] at hp
          exact (h.phases p).allowed_of_word hw hp
        | transactionSubmitted | transactionConfirmed => rfl
        | finalVerdict | fatalError => exact absurd rfl ht
        | _ => cases hd
  · intro ha
    have track := h.take ha
    refine ⟨fun p => (track.phases p).exists_word, fun d => (track.detectors d).exists_word, ?_⟩
    intro before x after hs hx
    obtain ⟨rfl, rfl, rfl⟩ := h.split_snoc hopen hs hx
    exact ⟨rfl, h.allEnded_iff.mpr ((Feed.admits_of_isTerminal hx).mp ha)⟩

end Tracks

end TokenAudit
