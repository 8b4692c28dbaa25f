import TokenAudit.Proofs.Pipeline.Story

/-! A run and its stream agree: what is returned is what the one terminal record says, and all that
was started has ended by then. -/

namespace TokenAudit

namespace Pipeline

def terminalOf : Except AuditError RiskVerdict → Event
  | .ok v => .finalVerdict v
  | .error e => .fatalError e.message

/-- The stream of a run that is over ends in a terminal record; of phases it tells a first part of
the story, and which of them were closed as failed. -/
structure Concluded (s : Stream) (last : Event) : Prop where
  sound : s.Sound
  terminal : last.isTerminal = true
  ended : ∃ before, s.events = before ++ [last]
  told : ∃ n failed, phaseLog s.events = fullLog.take n ++ failed ∧ ∀ x ∈ failed, x.2 = .error

variable {σ : Type}

theorem concluded_announce {v : RiskVerdict} {a : Audit σ} {n : Nat} (h : At a n)
    (he : ∀ p, statusIn p (fullLog.take n) ≠ some .running) :
    (announce v a).1 = .ok v ∧ Concluded (announce v a).2.stream (.finalVerdict v) := by
  obtain ⟨hok, hevents⟩ := announce_eq (v := v) h he
  refine ⟨hok, ⟨?_, rfl, ⟨a.stream.events, hevents⟩, n, [], ?_, nofun⟩⟩
  · unfold announce
    split <;> exact h.sound.calls _
  · rw [hevents, phaseLog_append, h.log]
    rfl

theorem concluded_fatal {a : Audit σ} {n : Nat} (h : At a n) (m : String) :
    Concluded (tell a [.fatal m]).stream (.fatalError m) where
  sound := h.sound.calls _
  terminal := rfl
  ended := ⟨_, h.fatal m⟩
  told := by
    refine ⟨n, a.stream.feed.running.map (·, .error), ?_, ?_⟩
    · have hevents : (tell a [.fatal m]).stream.events = _ := h.fatal m
      rw [hevents, phaseLog_append, phaseLog_append, h.log, phaseLog_phaseEvents]
      exact List.append_nil _
    · intro x hx
      obtain ⟨p, -, rfl⟩ := List.mem_map.mp hx
      rfl

theorem execute_cases (p : Pipeline σ) (t : RunTerms) (request : AuditRequest) {a : Audit σ}
    (h : At a 0) :
    (∃ after, p.execute t request a = (none, after)) ∨
    (∃ e after n, p.execute t request a = (some (.error e), after) ∧ At after n) ∨
      ∃ v after, p.execute t request a = (some (.ok v), after) ∧
        Concluded after.stream (.finalVerdict v) := by
  unfold execute
  by_cases hzero : request.token = Address.zero
  · rw [if_pos hzero]
    exact .inr (.inl ⟨_, _, 0, rfl, h⟩)
  rw [if_neg hzero]
  obtain ⟨e, after, hsource, hat⟩ | ⟨source, after, hsource, hat⟩ :=
    p.resolveSource_cases t request.token h
  · rw [hsource]
    exact .inr (.inl ⟨e, after, 1, rfl, hat⟩)
  -- From here on the audit is generalized: what the panel did is all in how far it has come.
  have hpanel := p.at_runPanel request.token source hat
  simp only [hsource]
  generalize p.runPanel request.token source after = panel at hpanel ⊢
  obtain ⟨found, after⟩ := panel
  obtain ⟨e, after, hverdict, hat⟩ | ⟨v, after, hverdict, hat⟩ :=
    computeVerdict_cases t request found (a := after) hpanel
  · simp only [hverdict]
    exact .inr (.inl ⟨e, after, 7, rfl, hat⟩)
  simp only [hverdict]
  obtain ⟨after, hcommit⟩ | ⟨e, after, hcommit, hat⟩ | ⟨after, hcommit, hat⟩ :=
    p.commitVerdict_cases t v hat
  · rw [hcommit]
    exact .inl ⟨after, rfl⟩
  · rw [hcommit]
    exact .inr (.inl ⟨e, after, 9, rfl, hat⟩)
  · rw [hcommit]
    have hend : (announce v after).1 = .ok v ∧
        Concluded (announce v after).2.stream (.finalVerdict v) := by
      obtain hat | hat := hat
      · exact concluded_announce hat fun p => by cases p <;> decide
      · exact concluded_announce hat fun p => by cases p <;> decide
    refine .inr (.inr ⟨v, (announce v after).2, ?_, hend.2⟩)
    rw [← hend.1]

theorem concluded_run (p : Pipeline σ) (t : RunTerms) (request : AuditRequest) {a : Audit σ}
    (h : At a 0) {result : Except AuditError RiskVerdict}
    (hr : (p.run t request a).1 = some result) :
    Concluded (p.run t request a).2.stream (terminalOf result) := by
  unfold run at hr ⊢
  obtain ⟨after, he⟩ | ⟨e, after, n, he, hat⟩ | ⟨v, after, he, hend⟩ :=
    p.execute_cases t request h
  · rw [he] at hr
    cases hr
  · rw [he] at hr ⊢
    cases hr
    exact concluded_fatal hat e.message
  · rw [he] at hr ⊢
    cases hr
    exact hend

/-! ### The order of phases -/

theorem eq_takeWhile_fullLog {q : Phase} {before rest : List (Phase × PhaseStatus)}
    (h : fullLog = before ++ (q, .running) :: rest) :
    before = fullLog.takeWhile (· ≠ (q, .running)) := by
  -- No entry stands in the story twice, so that a start marks one place of it.
  have hnodup : (before ++ (q, .running) :: rest).Nodup := h ▸ (by decide : fullLog.Nodup)
  have hnot : ∀ x ∈ before, x ≠ (q, .running) := by
    intro x hx
    exact (List.nodup_append.mp hnodup).2.2 x hx _ List.mem_cons_self
  rw [h, List.takeWhile_append_of_pos fun x hx => decide_eq_true (hnot x hx),
    List.takeWhile_cons_of_neg (by simp), List.append_nil]

def startedPhases (es : List Event) : List Phase :=
  (phaseLog es).filterMap fun x => if x.2 = .running then some x.1 else none

namespace Concluded

variable {s : Stream} {last : Event}

theorem starts_in_order (h : Concluded s last) : startedPhases s.events <+: Phase.all := by
  obtain ⟨n, failed, hlog, hfailed⟩ := h.told
  have hnone : (failed.filterMap fun x => if x.2 = .running then some x.1 else none) = [] := by
    apply List.filterMap_eq_nil_iff.mpr
    intro x hx
    rw [hfailed x hx]
    rfl
  have hfull : (fullLog.filterMap fun x => if x.2 = .running then some x.1 else none) =
      Phase.all := rfl
  rw [startedPhases, hlog, List.filterMap_append, hnone, List.append_nil, ← hfull]
  exact List.IsPrefix.filterMap _ <| List.take_prefix n fullLog

theorem told_before (h : Concluded s last) {p q : Phase} {st : PhaseStatus}
    (hmem : (p, st) ∈ fullLog.takeWhile (· ≠ (q, .running))) {before after : List Event}
    {label : String} (hs : s.events = before ++ .phase q label .running :: after) :
    st ∈ phaseRecords p before := by
  obtain ⟨n, failed, hlog, hfailed⟩ := h.told
  have hsplit : fullLog.take n ++ failed =
      phaseLog before ++ (q, .running) :: phaseLog after := by
    rw [← hlog, hs, phaseLog_append]
    rfl
  obtain ⟨rest, htake, -⟩ | ⟨rest, -, hrest⟩ := split_append hsplit
  · have hfull : fullLog = phaseLog before ++ (q, .running) :: (rest ++ fullLog.drop n) := by
      rw [← List.cons_append, ← List.append_assoc, ← htake, List.take_append_drop]
    rw [mem_phaseRecords, eq_takeWhile_fullLog hfull]
    exact hmem
  -- The phases that were closed have no start among their records.
  · have hbad := hfailed (q, .running) (hrest ▸ List.mem_append_right _ List.mem_cons_self)
    cases hbad

end Concluded

theorem ofEvents_append {before : List Event} (h : ∀ e ∈ before, e.isTerminal = false)
    (es : List Event) : StreamOutcome.ofEvents (before ++ es) = StreamOutcome.ofEvents es := by
  induction before with
  | nil => rfl
  | cons e before ih =>
    have he := h e List.mem_cons_self
    have hrest := ih fun f hf => h f (List.mem_cons_of_mem e hf)
    cases e with
    | finalVerdict | fatalError => cases he
    | _ => exact hrest

def outcomeOf : Except AuditError RiskVerdict → StreamOutcome
  | .ok v => .verdict v
  | .error e => .fatal e.message

theorem ofEvents_terminalOf (result : Except AuditError RiskVerdict) :
    StreamOutcome.ofEvents [terminalOf result] = outcomeOf result := by
  cases result <;> rfl

theorem eq_ok_iff {result : Except AuditError RiskVerdict} {v : RiskVerdict} :
    result = .ok v ↔ terminalOf result = .finalVerdict v := by
  cases result <;> simp [terminalOf]

theorem error_message_iff {result : Except AuditError RiskVerdict} {m : String} :
    (∃ e, result = .error e ∧ e.message = m) ↔ terminalOf result = .fatalError m := by
  cases result <;> simp [terminalOf]

/-- Of every run that returns, on a fresh stream and in any order of the detectors' calls. -/
theorem run_agrees_with_stream (p : Pipeline σ) (t : RunTerms) (request : AuditRequest)
    (a : Audit σ) (ha : a.stream = .empty) (result : Except AuditError RiskVerdict)
    (hr : (p.run t request a).1 = some result) :
    let events := (p.run t request a).2.stream.events
    (∃ before last, events = before ++ [last] ∧ last.isTerminal = true ∧
      (∀ e ∈ before, e.isTerminal = false) ∧ AllEnded before ∧
      (∀ v, result = .ok v ↔ last = .finalVerdict v) ∧
      (∀ m, (∃ e, result = .error e ∧ e.message = m) ↔ last = .fatalError m)) ∧
    StreamOutcome.ofEvents events = outcomeOf result ∧
    startedPhases events <+: Phase.all ∧
    (∀ before label after, events = before ++ .phase .staticAnalysis label .running :: after →
      .done ∈ phaseRecords .resolveSource before) ∧
    (∀ before label after, events = before ++ .phase .computeRiskCode label .running :: after →
      .done ∈ phaseRecords .staticAnalysis before ∧
        .done ∈ phaseRecords .modelConsensus before) := by
  intro events
  have hstart : At a 0 := by
    unfold At
    rw [ha]
    exact Stream.OpenAt.empty
  have h := p.concluded_run t request hstart hr
  obtain ⟨before, hevents⟩ := h.ended
  obtain ⟨-, hended⟩ := h.sound.grammar.terminal before _ [] hevents h.terminal
  have hopen : ∀ e ∈ before, e.isTerminal = false := by
    intro e he
    cases ht : e.isTerminal with
    | false => rfl
    | true =>
      obtain ⟨front, back, rfl⟩ := List.append_of_mem he
      rw [List.append_assoc, List.cons_append] at hevents
      have hlast := (h.sound.grammar.terminal front e _ hevents ht).1
      simp at hlast
  refine ⟨⟨before, terminalOf result, hevents, h.terminal, hopen, hended, fun v => eq_ok_iff,
    fun m => error_message_iff⟩, ?_, h.starts_in_order, ?_, ?_⟩
  · change StreamOutcome.ofEvents (p.run t request a).2.stream.events = _
    rw [hevents, ofEvents_append hopen, ofEvents_terminalOf]
  · intro front label back hs
    exact h.told_before (by decide) hs
  · intro front label back hs
    exact ⟨h.told_before (by decide) hs, h.told_before (by decide) hs⟩

def troubled : Pipeline Unit where
  resolver := ⟨fun _ => Ask.pure (.ok (some ⟨"contract", "C"⟩)), fun _ => Ask.pure (.ok ""),
    .answering fun _ _ => Ask.pure (.ok "")⟩
  panel :=
    { security := fun _ => Ask.pure (.panicked "lookup broke down")
      slots := [⟨"slow", fun _ _ s => (⟨none, ["let me see"], fun s => (([], .timedOut), s)⟩, s)⟩]
      sellTaxThreshold := 0
      strictConsensus := false
      timeoutMs := 5 }
  committer := some
    ⟨⟨fun _ => Ask.pure (.ok ⟨1⟩), fun h => Ask.pure (.ok (some ⟨h, none, some 1⟩))⟩, .v1, 3, 1000⟩
  sourceTimeoutMs := 10

theorem troubled_run_agrees :
    let request : AuditRequest := ⟨7, ⟨1⟩, 0⟩
    let terms : RunTerms := ⟨none, ⟨2025, 1, 1, 0, 0⟩⟩
    let verdict : RiskVerdict := .ofMask request terms.decidedAt .clean
    (troubled.run terms request (start 0 () [])).1 = some (.ok verdict) ∧
      StreamOutcome.ofEvents (troubled.run terms request (start 0 () [])).2.stream.events =
        .verdict verdict := by
  intro request terms verdict
  have hrun : (troubled.run terms request (start 0 () [])).1 = some (.ok verdict) := by
    decide +kernel
  exact ⟨hrun, (run_agrees_with_stream troubled terms request (start 0 () []) rfl _ hrun).2.1⟩

end Pipeline

end TokenAudit
