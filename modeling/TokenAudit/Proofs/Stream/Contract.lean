import Mathlib.Data.List.Nodup
import TokenAudit.Proofs.Stream.Grammar

/-! The stream's contract. Whatever is called and in whatever order, the records keep to the
grammar, and a call is dropped only when its record would leave it. -/

namespace TokenAudit

def Call.event? : Call → Option Event
  | .phase p s => some (Feed.phaseEvent p s)
  | .detectorStarted d family => some (.detectorStarted d family)
  | .reasoningStarted d => some (.reasoningStart d)
  | .reasoningChunk d text => some (.reasoningChunk d text)
  | .detectorScore d bits => some (.detectorScore d bits)
  | .detectorError d message => some (.detectorError d message)
  | .transactionSubmitted hash => some (.transactionSubmitted hash)
  | .transactionConfirmed hash blockNumber success =>
    some (.transactionConfirmed hash blockNumber success)
  | .finalVerdict v => some (.finalVerdict v)
  | .fatal _ => none

namespace Feed

theorem accept_of_event? {c : Call} {e : Event} (h : c.event? = some e) (f : Feed) :
    f.accept c = if f.admits e then (f.take e, [e]) else (f, []) := by
  cases c with
  | fatal m => cases h
  | detectorStarted d family =>
    cases h
    cases hd : f.detectors d <;> simp [accept, admits, take, hd]
  | finalVerdict v =>
    cases h
    simp [accept, admits, take, List.isEmpty_iff]
  | _ =>
    cases h
    rfl

def close (f : Feed) (ps : List Phase) : Feed := ps.foldl (fun g p => g.setPhase p .error) f

theorem phases_close (f : Feed) (ps : List Phase) (p : Phase) :
    (f.close ps).phases p = if p ∈ ps then some .error else f.phases p := by
  induction ps generalizing f with
  | nil => rfl
  | cons q ps ih =>
    change ((f.setPhase q .error).close ps).phases p = _
    rw [ih]
    by_cases hp : p ∈ ps
    · simp [hp]
    · by_cases hq : p = q
      · simp [hq, setPhase]
      · simp [hp, hq, setPhase]

theorem running_close_running (f : Feed) : (f.close f.running).running = [] := by
  apply List.eq_nil_iff_forall_not_mem.mpr
  intro p hp
  rw [mem_running, phases_close] at hp
  by_cases hr : p ∈ f.running
  · rw [if_pos hr] at hp
    cases hp
  · rw [if_neg hr, ← mem_running] at hp
    exact hr hp

theorem terminated_close (f : Feed) (ps : List Phase) :
    (f.close ps).terminated = f.terminated := by
  induction ps generalizing f with
  | nil => rfl
  | cons p ps ih => exact ih (f.setPhase p .error)

end Feed

theorem Tracks.close {f : Feed} {es : List Event} (h : Tracks f es) {ps : List Phase}
    (hnodup : ps.Nodup) (hrun : ∀ p ∈ ps, f.phases p = some .running) :
    Tracks (f.close ps) (es ++ ps.map (Feed.phaseEvent · .error)) := by
  induction ps generalizing f es with
  | nil =>
    rw [List.map_nil, List.append_nil]
    exact h
  | cons p ps ih =>
    obtain ⟨hp, hnodup⟩ := List.nodup_cons.mp hnodup
    have ha : f.admits (Feed.phaseEvent p .error) = true := by
      change Feed.phaseAllowed (f.phases p) .error = true
      rw [hrun p List.mem_cons_self]
      rfl
    -- The other phases still run, since each of them is closed once.
    have hrest : ∀ q ∈ ps, (f.take (Feed.phaseEvent p .error)).phases q = some .running := by
      intro q hq
      have hne : p ≠ q := fun he => hp (he ▸ hq)
      rw [Feed.phases_take, Feed.phaseEvent, Event.statusOf?, if_neg hne, Option.none_or]
      exact hrun q (List.mem_cons_of_mem _ hq)
    rw [List.map_cons, List.append_cons]
    exact ih (h.take ha) hnodup hrest

def Feed.closing (f : Feed) (message : String) : List Event :=
  f.running.map (phaseEvent · .error) ++ [.fatalError message]

namespace Stream

/-- The invariant of a stream: its records are in the grammar, and its feed tracks them. -/
structure Sound (s : Stream) : Prop where
  tracks : Tracks s.feed s.events
  grammar : Grammar s.events

theorem sound_empty : Sound empty where
  tracks := .empty
  grammar := ⟨fun p => (Tracks.empty.phases p).exists_word,
    fun d => (Tracks.empty.detectors d).exists_word, by simp [empty]⟩

theorem call_of_open {s : Stream} (hopen : s.feed.terminated = false) (c : Call) :
    s.call c = ⟨(s.feed.accept c).1, s.events ++ (s.feed.accept c).2⟩ := by
  simp only [call, Feed.step, hopen, Bool.false_eq_true, if_false]

theorem call_of_event? {s : Stream} (hopen : s.feed.terminated = false) {c : Call} {e : Event}
    (h : c.event? = some e) :
    s.call c = if s.feed.admits e then ⟨s.feed.take e, s.events ++ [e]⟩ else s := by
  rw [call_of_open hopen, Feed.accept_of_event? h]
  by_cases ha : s.feed.admits e = true
  · rw [if_pos ha, if_pos ha]
  · rw [if_neg ha, if_neg ha, List.append_nil]

theorem call_fatal {s : Stream} (hopen : s.feed.terminated = false) (m : String) :
    s.call (.fatal m) =
      ⟨(s.feed.close s.feed.running).take (.fatalError m), s.events ++ s.feed.closing m⟩ :=
  call_of_open hopen _

namespace Sound

variable {s : Stream}

theorem grammar_snoc (h : Sound s) {e : Event} (hopen : s.feed.terminated = false)
    (ha : s.feed.admits e = true) : Sound ⟨s.feed.take e, s.events ++ [e]⟩ :=
  ⟨h.tracks.take ha, (h.tracks.grammar_snoc_iff hopen).mpr ha⟩

theorem call (h : Sound s) (c : Call) : Sound (s.call c) := by
  cases ht : s.feed.terminated with
  | true =>
    rw [call_of_terminated ht]
    exact h
  | false =>
    cases he : c.event? with
    | some e =>
      rw [call_of_event? ht he]
      by_cases ha : s.feed.admits e = true
      · rw [if_pos ha]
        exact h.grammar_snoc ht ha
      · rw [if_neg ha]
        exact h
    | none =>
      cases c with
      | fatal m =>
        -- What runs is closed first, so that the fatal record finds nothing running.
        have hnodup : s.feed.running.Nodup := List.Nodup.filter _ (by decide)
        have closed := h.tracks.close hnodup fun p hp => Feed.mem_running.mp hp
        have ha : (s.feed.close s.feed.running).admits (.fatalError m) = true :=
          (Feed.admits_of_isTerminal rfl).mpr s.feed.running_close_running
        have hopen : (s.feed.close s.feed.running).terminated = false := by
          rw [Feed.terminated_close, ht]
        rw [call_fatal ht, Feed.closing, ← List.append_assoc]
        exact ⟨closed.take ha, (closed.grammar_snoc_iff hopen).mpr ha⟩
      | _ => cases he

theorem calls (h : Sound s) (cs : List Call) : Sound (s.calls cs) := by
  induction cs generalizing s with
  | nil => exact h
  | cons c cs ih => exact ih (h.call c)

theorem not_grammar_snoc (h : Sound s) (ht : s.feed.terminated = true) (e : Event) :
    ¬Grammar (s.events ++ [e]) := by
  intro hg
  rw [h.tracks.terminated, List.any_eq_true] at ht
  obtain ⟨x, hx, hterminal⟩ := ht
  obtain ⟨before, after, hsplit⟩ := List.append_of_mem hx
  have hlast := hg.terminal before x (after ++ [e]) (by simp [hsplit]) hterminal
  simp at hlast

end Sound

/-- The clones of a streamer share one feed under a lock, so any interleaving of theirs is a list of
calls. Whatever it is, its records are in the grammar; a call that asks for one record puts it there
exactly when the grammar still holds with it, and changes nothing otherwise; and a fatal call on an
open stream closes the running phases in order before its own record. -/
theorem calls_keep_contract (cs : List Call) :
    let s := empty.calls cs
    Grammar s.events ∧
    (∀ c e, c.event? = some e →
      ((s.call c).events = s.events ++ [e] ↔ Grammar (s.events ++ [e])) ∧
      (¬Grammar (s.events ++ [e]) → s.call c = s)) ∧
    (∀ m, (∀ e ∈ s.events, e.isTerminal = false) → (s.call (.fatal m)).events =
      s.events ++ ((openPhases s.events).map (Feed.phaseEvent · .error) ++ [.fatalError m])) ∧
    (∀ m, (∃ e ∈ s.events, e.isTerminal = true) → s.call (.fatal m) = s) := by
  intro s
  have sound : Sound s := sound_empty.calls cs
  refine ⟨sound.grammar, ?_, ?_, ?_⟩
  · intro c e he
    have unchanged : s.events ≠ s.events ++ [e] := by simp
    cases ht : s.feed.terminated with
    | true =>
      have hno := sound.not_grammar_snoc ht e
      rw [call_of_terminated ht]
      exact ⟨iff_of_false unchanged hno, fun _ => rfl⟩
    | false =>
      rw [call_of_event? ht he, sound.tracks.grammar_snoc_iff ht]
      by_cases ha : s.feed.admits e = true
      · rw [if_pos ha]
        exact ⟨iff_of_true rfl ha, fun hno => absurd ha hno⟩
      · rw [if_neg ha]
        exact ⟨iff_of_false unchanged ha, fun _ => rfl⟩
  · intro m hopen
    have ht : s.feed.terminated = false := by
      rw [sound.tracks.terminated]
      simpa using hopen
    rw [call_fatal ht, Feed.closing, sound.tracks.running_eq]
  · intro m hdone
    have ht : s.feed.terminated = true := by
      rw [sound.tracks.terminated]
      simpa using hdone
    exact call_of_terminated ht _

end Stream

end TokenAudit
