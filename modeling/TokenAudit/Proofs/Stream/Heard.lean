import TokenAudit.Proofs.Stream.PhaseLog

/-! Calls that are all heard: when the records that they ask for keep to the grammar, a stream puts
every one of them there. -/

namespace TokenAudit

def askedFor (cs : List Call) : List Event := cs.filterMap Call.event?

theorem askedFor_append (cs ds : List Call) : askedFor (cs ++ ds) = askedFor cs ++ askedFor ds :=
  List.filterMap_append

theorem mem_askedFor {cs : List Call} {e : Event} :
    e ∈ askedFor cs ↔ ∃ c ∈ cs, c.event? = some e := List.mem_filterMap

theorem phaseRecords_append (p : Phase) (es fs : List Event) :
    phaseRecords p (es ++ fs) = phaseRecords p es ++ phaseRecords p fs := List.filterMap_append

theorem detectorRecords_append (d : String) (es fs : List Event) :
    detectorRecords d (es ++ fs) = detectorRecords d es ++ detectorRecords d fs :=
  List.filter_append ..

theorem mem_detectorRecords {d : String} {e : Event} {es : List Event} :
    e ∈ detectorRecords d es ↔ e ∈ es ∧ e.detector? = some d := by
  simp [detectorRecords]

theorem Grammar.of_append {es fs : List Event} (h : Grammar (es ++ fs)) : Grammar es where
  phases p := by
    obtain ⟨w, hw, hp⟩ := h.phases p
    rw [phaseRecords_append] at hp
    exact ⟨w, hw, (List.prefix_append _ _).trans hp⟩
  detectors d := by
    obtain ⟨w, hw, hp⟩ := h.detectors d
    rw [detectorRecords_append] at hp
    exact ⟨w, hw, (List.prefix_append _ _).trans hp⟩
  terminal before e after hs he := by
    have hlong : es ++ fs = before ++ e :: (after ++ fs) := by
      rw [hs, List.append_assoc, List.cons_append]
    obtain ⟨hafter, hended⟩ := h.terminal before e _ hlong he
    exact ⟨(List.append_eq_nil_iff.mp hafter).1, hended⟩

namespace Stream

theorem Sound.call_heard {s : Stream} (h : Sound s) (hopen : s.feed.terminated = false) {c : Call}
    {e : Event} (he : c.event? = some e) (hg : Grammar (s.events ++ [e])) :
    s.call c = ⟨s.feed.take e, s.events ++ [e]⟩ := by
  rw [call_of_event? hopen he, if_pos ((h.tracks.grammar_snoc_iff hopen).mp hg)]

theorem Sound.calls_heard {s : Stream} (h : Sound s) (hopen : s.feed.terminated = false)
    {cs : List Call} (hcs : ∀ c ∈ cs, ∃ e, c.event? = some e ∧ e.isTerminal = false)
    (hg : Grammar (s.events ++ askedFor cs)) : (s.calls cs).events = s.events ++ askedFor cs := by
  -- A call that does not end the stream leaves it open for the next one.
  induction cs generalizing s with
  | nil => exact (List.append_nil _).symm
  | cons c cs ih =>
    obtain ⟨e, he, hterminal⟩ := hcs c List.mem_cons_self
    have hasked : askedFor (c :: cs) = [e] ++ askedFor cs := List.filterMap_cons_some he
    rw [hasked, ← List.append_assoc] at hg ⊢
    have hcall := h.call_heard hopen he hg.of_append
    have hstill : (s.call c).feed.terminated = false := by
      rw [hcall, Feed.terminated_take, hopen, hterminal]
      rfl
    have hevents : (s.call c).events = s.events ++ [e] := congrArg Stream.events hcall
    rw [← hevents] at hg ⊢
    exact ih (h.call c) hstill (fun d hd => hcs d (List.mem_cons_of_mem c hd)) hg

end Stream

end TokenAudit
