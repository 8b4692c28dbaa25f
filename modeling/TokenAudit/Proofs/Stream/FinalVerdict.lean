import TokenAudit.Proofs.Pipeline.Agreement

/-! What the caller of a final verdict is told. On an open stream it is told the truth: the verdict is
on the stream, or it is refused and the stream is as before. On an ended stream nothing is put there,
yet no refusal is told. -/

namespace TokenAudit

namespace Stream

def finalVerdict (s : Stream) (v : RiskVerdict) : Except AuditError Unit × Stream :=
  match s.feed.refusal? with
  | some e => (.error e, s.call (.finalVerdict v))
  | none => (.ok (), s.call (.finalVerdict v))

/-- The caller is told of success exactly when its verdict has become the end of the stream, and of a
failure only where the stream is as it was. -/
structure Truthful (s : Stream) (v : RiskVerdict) : Prop where
  told : (s.finalVerdict v).1 = .ok () ↔
    (s.finalVerdict v).2.events = s.events ++ [.finalVerdict v] ∧
      StreamOutcome.ofEvents (s.finalVerdict v).2.events = .verdict v
  refused : (s.finalVerdict v).1 ≠ .ok () → (s.finalVerdict v).2 = s

/-- A run ends with a final verdict and hands on what it is told. -/
theorem announce_eq_finalVerdict {σ : Type} (v : RiskVerdict) (a : Audit σ) :
    Pipeline.announce v a = ((a.stream.finalVerdict v).1.map fun _ => v,
      { a with stream := (a.stream.finalVerdict v).2 }) := by
  unfold Pipeline.announce finalVerdict
  cases a.stream.feed.refusal? <;> rfl

variable {s : Stream} {v : RiskVerdict}

theorem finalVerdict_of_ended (h : s.feed.terminated = true) : s.finalVerdict v = (.ok (), s) := by
  have hno : s.feed.refusal? = none := if_pos h
  rw [finalVerdict, hno, call_of_terminated h]

theorem finalVerdict_of_settled (hopen : s.feed.terminated = false) (hrun : s.feed.running = []) :
    s.finalVerdict v = (.ok (), ⟨s.feed.terminate, s.events ++ [.finalVerdict v]⟩) := by
  have hno : s.feed.refusal? = none := by
    simp [Feed.refusal?, hopen, hrun]
  have ha : s.feed.admits (.finalVerdict v) = true := (Feed.admits_of_isTerminal rfl).mpr hrun
  rw [finalVerdict, hno, call_of_event? hopen rfl, if_pos ha]
  rfl

theorem finalVerdict_of_running (hopen : s.feed.terminated = false) (hrun : s.feed.running ≠ []) :
    ∃ p ∈ s.feed.running,
      s.finalVerdict v = (.error (.pipeline s!"final verdict while {p.title} is still running"), s) := by
  obtain ⟨p, ps, hps⟩ := List.exists_cons_of_ne_nil hrun
  have hrefusal : s.feed.refusal? =
      some (.pipeline s!"final verdict while {p.title} is still running") := by
    simp [Feed.refusal?, hopen, hps]
  have ha : ¬s.feed.admits (.finalVerdict v) = true := fun ha =>
    hrun ((Feed.admits_of_isTerminal rfl).mp ha)
  refine ⟨p, hps ▸ List.mem_cons_self, ?_⟩
  rw [finalVerdict, hrefusal, call_of_event? hopen rfl, if_neg ha]

theorem not_truthful_of_ended (h : s.feed.terminated = true) : ¬s.Truthful v := by
  intro htruthful
  have htold := htruthful.told.mp (by rw [finalVerdict_of_ended h])
  rw [finalVerdict_of_ended h] at htold
  simp at htold

theorem Tracks.truthful (h : Tracks s.feed s.events) (hopen : s.feed.terminated = false) :
    s.Truthful v := by
  by_cases hrun : s.feed.running = []
  · have houtcome : StreamOutcome.ofEvents (s.events ++ [.finalVerdict v]) = .verdict v :=
      Pipeline.ofEvents_append (h.not_terminal_of_open hopen) _
    constructor
    · rw [finalVerdict_of_settled hopen hrun]
      exact iff_of_true rfl ⟨rfl, houtcome⟩
    · rw [finalVerdict_of_settled hopen hrun]
      exact fun hno => absurd rfl hno
  · obtain ⟨p, -, hp⟩ := finalVerdict_of_running (v := v) hopen hrun
    constructor
    · rw [hp]
      exact iff_of_false nofun fun hemitted => by simp at hemitted
    · rw [hp]
      exact fun _ => rfl

/-- Of a stream after any calls: on a final verdict the truth is told exactly as long as no terminal
record is on the stream. On such a stream the verdict is its end unless phases run, of which the
refusal names one; on any other stream nothing happens, and success is told. -/
theorem truth_is_told_until_the_end (cs : List Call) (v : RiskVerdict) :
    let s := empty.calls cs
    (s.Truthful v ↔ ∀ e ∈ s.events, e.isTerminal = false) ∧
    ((∀ e ∈ s.events, e.isTerminal = false) →
      (openPhases s.events = [] → (s.finalVerdict v).1 = .ok () ∧
        (s.finalVerdict v).2.events = s.events ++ [.finalVerdict v]) ∧
      (openPhases s.events ≠ [] → ∃ p ∈ openPhases s.events, s.finalVerdict v =
        (.error (.pipeline s!"final verdict while {p.title} is still running"), s))) ∧
    ((∃ e ∈ s.events, e.isTerminal = true) → s.finalVerdict v = (.ok (), s)) := by
  intro s
  have sound : Sound s := sound_empty.calls cs
  have hopen : (∀ e ∈ s.events, e.isTerminal = false) ↔ s.feed.terminated = false := by
    rw [sound.tracks.terminated]
    simp
  have hended : (∃ e ∈ s.events, e.isTerminal = true) ↔ s.feed.terminated = true := by
    rw [sound.tracks.terminated]
    simp
  refine ⟨?_, fun h => ⟨fun hrun => ?_, fun hrun => ?_⟩, fun h => finalVerdict_of_ended (hended.mp h)⟩
  · rw [hopen]
    constructor
    · intro htruthful
      by_contra hno
      exact not_truthful_of_ended (Bool.not_eq_false _ ▸ hno) htruthful
    · exact fun h => Tracks.truthful sound.tracks h
  · rw [← sound.tracks.running_eq] at hrun
    rw [finalVerdict_of_settled (hopen.mp h) hrun]
    exact ⟨rfl, rfl⟩
  · rw [← sound.tracks.running_eq] at hrun ⊢
    exact finalVerdict_of_running (hopen.mp h) hrun

theorem verdict_after_failure_is_told_as_final :
    let request : AuditRequest := ⟨7, ⟨1⟩, 0⟩
    let v := RiskVerdict.ofMask request ⟨2025, 1, 1, 0, 0⟩ RiskMask.clean
    let s := empty.calls [.fatal "node down"]
    (s.finalVerdict v).1 = .ok () ∧ (s.finalVerdict v).2.events = [.fatalError "node down"] ∧
      ¬s.Truthful v := by
  intro request v s
  have hended : s.feed.terminated = true := rfl
  rw [finalVerdict_of_ended hended]
  exact ⟨rfl, rfl, not_truthful_of_ended hended⟩

end Stream

end TokenAudit
