import TokenAudit.Proofs.Stream.Contract

/-! The log of a stream's phases. An open stream lets a phase on through exactly as its log so far
allows, and all calls but those about phases and the end leave the log alone. -/

namespace TokenAudit

def Event.phase? : Event → Option (Phase × PhaseStatus)
  | .phase p _ s => some (p, s)
  | _ => none

def phaseLog (es : List Event) : List (Phase × PhaseStatus) := es.filterMap Event.phase?

def statusIn (p : Phase) (log : List (Phase × PhaseStatus)) : Option PhaseStatus :=
  (log.filterMap fun x => if x.1 = p then some x.2 else none).getLast?

theorem phaseLog_append (es fs : List Event) :
    phaseLog (es ++ fs) = phaseLog es ++ phaseLog fs := List.filterMap_append

theorem phaseLog_phaseEvents (ps : List Phase) (s : PhaseStatus) :
    phaseLog (ps.map (Feed.phaseEvent · s)) = ps.map (·, s) := by
  induction ps with
  | nil => rfl
  | cons p ps ih =>
    rw [List.map_cons, List.map_cons, ← ih]
    rfl

theorem phaseRecords_eq (p : Phase) (es : List Event) :
    phaseRecords p es = (phaseLog es).filterMap fun x => if x.1 = p then some x.2 else none := by
  unfold phaseRecords phaseLog
  rw [List.filterMap_filterMap]
  congr 1
  funext e
  cases e <;> rfl

theorem mem_phaseRecords {p : Phase} {s : PhaseStatus} {es : List Event} :
    s ∈ phaseRecords p es ↔ (p, s) ∈ phaseLog es := by
  rw [phaseRecords_eq, List.mem_filterMap]
  constructor
  · rintro ⟨⟨q, s'⟩, hmem, hs⟩
    by_cases hq : q = p
    · subst hq
      obtain rfl : s' = s := by simpa using hs
      exact hmem
    · simp [hq] at hs
  · intro hmem
    exact ⟨(p, s), hmem, if_pos rfl⟩

theorem PhaseTrack.eq_getLast? {ws : List PhaseStatus} {current : Option PhaseStatus}
    (h : PhaseTrack ws current) : current = ws.getLast? := by
  cases h <;> rfl

def Call.isQuiet : Call → Bool
  | .phase _ _ => false
  | .finalVerdict _ => false
  | .fatal _ => false
  | _ => true

theorem Call.event?_of_isQuiet {c : Call} (hc : c.isQuiet = true) :
    ∃ e, c.event? = some e ∧ e.isTerminal = false ∧ e.phase? = none := by
  cases c with
  | phase | finalVerdict | fatal => cases hc
  | _ => exact ⟨_, rfl, rfl, rfl⟩

namespace Stream

/-- An open stream, and the log of its phases. -/
structure OpenAt (s : Stream) (log : List (Phase × PhaseStatus)) : Prop where
  sound : Sound s
  isOpen : s.feed.terminated = false
  log : phaseLog s.events = log

namespace OpenAt

variable {s : Stream} {log : List (Phase × PhaseStatus)}

theorem empty : OpenAt .empty [] := ⟨sound_empty, rfl, rfl⟩

theorem status_eq (h : OpenAt s log) (p : Phase) : s.feed.phases p = statusIn p log := by
  rw [(h.sound.tracks.phases p).eq_getLast?, phaseRecords_eq, h.log, statusIn]

theorem call_phase (h : OpenAt s log) {p : Phase} {st : PhaseStatus}
    (ha : Feed.phaseAllowed (statusIn p log) st = true) : s.call (.phase p st) =
      ⟨s.feed.take (Feed.phaseEvent p st), s.events ++ [Feed.phaseEvent p st]⟩ := by
  have hadmits : s.feed.admits (Feed.phaseEvent p st) = true := by
    change Feed.phaseAllowed (s.feed.phases p) st = true
    rw [h.status_eq]
    exact ha
  rw [call_of_event? h.isOpen rfl, if_pos hadmits]

theorem phase (h : OpenAt s log) {p : Phase} {st : PhaseStatus}
    (ha : Feed.phaseAllowed (statusIn p log) st = true) :
    OpenAt (s.call (.phase p st)) (log ++ [(p, st)]) := by
  have hcall := h.call_phase ha
  refine ⟨h.sound.call _, ?_, ?_⟩
  · rw [hcall, Feed.terminated_take, h.isOpen]
    rfl
  · rw [hcall, phaseLog_append, h.log]
    rfl

theorem quiet (h : OpenAt s log) {c : Call} (hc : c.isQuiet = true) : OpenAt (s.call c) log := by
  obtain ⟨e, he, hterminal, hphase⟩ := Call.event?_of_isQuiet hc
  have hcall := call_of_event? h.isOpen he
  by_cases ha : s.feed.admits e = true
  · rw [if_pos ha] at hcall
    refine ⟨h.sound.call c, ?_, ?_⟩
    · rw [hcall, Feed.terminated_take, h.isOpen, hterminal]
      rfl
    · rw [hcall, phaseLog_append, h.log]
      simp [phaseLog, hphase]
  · rw [if_neg ha] at hcall
    rw [hcall]
    exact h

theorem quiets (h : OpenAt s log) {cs : List Call} (hcs : ∀ c ∈ cs, c.isQuiet = true) :
    OpenAt (s.calls cs) log := by
  induction cs generalizing s with
  | nil => exact h
  | cons c cs ih =>
    exact ih (h.quiet (hcs c List.mem_cons_self)) fun d hd => hcs d (List.mem_cons_of_mem c hd)

theorem running_eq (h : OpenAt s log) :
    s.feed.running = Phase.all.filter fun p => statusIn p log = some .running := by
  unfold Feed.running
  simp only [h.status_eq]

theorem running_eq_nil (h : OpenAt s log) (he : ∀ p, statusIn p log ≠ some .running) :
    s.feed.running = [] := by
  rw [h.running_eq]
  exact List.filter_eq_nil_iff.mpr fun p _ hp => he p (of_decide_eq_true hp)

theorem finalVerdict (h : OpenAt s log) (he : ∀ p, statusIn p log ≠ some .running)
    (v : RiskVerdict) :
    s.feed.refusal? = none ∧ (s.call (.finalVerdict v)).events = s.events ++ [.finalVerdict v] := by
  have hrun := h.running_eq_nil he
  constructor
  · rw [Feed.refusal?, h.isOpen, hrun]
    rfl
  · rw [call_of_event? h.isOpen rfl,
      if_pos ((Feed.admits_of_isTerminal (e := .finalVerdict v) rfl).mpr hrun)]

theorem fatal (h : OpenAt s log) (m : String) :
    (s.call (.fatal m)).events =
      s.events ++ s.feed.running.map (Feed.phaseEvent · .error) ++ [.fatalError m] := by
  rw [call_fatal h.isOpen, Feed.closing, List.append_assoc]

end OpenAt

end Stream

end TokenAudit
