import TokenAudit.Detector.Panel

/-! Which calls a panel makes: those of its detectors about their own work, and those about the two
phases in which they work. -/

namespace TokenAudit

def Call.ofDetector : Call → Bool
  | .detectorStarted _ _ => true
  | .reasoningStarted _ => true
  | .reasoningChunk _ _ => true
  | .detectorScore _ _ => true
  | .detectorError _ _ => true
  | _ => false

namespace Panel

variable {σ α : Type}

theorem Interleaved.perm {ts : List Task} {cs : List Call} (h : Interleaved ts cs) :
    cs.Perm (ts.flatMap fun t => t.own ++ t.noticed) := by
  induction h with
  | nil => exact .refl _
  | call before c own noticed after h ih =>
    rw [List.flatMap_append, List.flatMap_cons] at ih ⊢
    exact (ih.cons c).trans List.perm_middle.symm
  | notice c noticed after h ih => exact ih.cons c
  | next h ih => exact ih

def Minds (w : Worked α) : Prop := ∀ c ∈ w.opening ++ w.closing, c.ofDetector = true

theorem ofDetector_lastCalls {name : String} {timeoutMs : Nat} {score : α → UInt8} {o : Outcome α} :
    ∀ c ∈ lastCalls name timeoutMs score o, c.ofDetector = true := by
  cases o <;> simp [lastCalls, Call.ofDetector]

theorem ofDetector_breakdownCalls (w : Worked α) : ∀ c ∈ breakdownCalls w, c.ofDetector = true := by
  unfold breakdownCalls
  split
  · simp [Call.ofDetector]
  · simp

theorem minds_workSecurity (p : Panel σ) (token : Address) (source : SourceResult) (s : σ) :
    Minds (p.workSecurity token source s).1 := by
  intro c hc
  rcases List.mem_append.mp hc with hc | hc
  · rw [List.mem_singleton.mp hc]
    rfl
  · exact ofDetector_lastCalls c hc

theorem minds_workSlot (p : Panel σ) (input : DetectorInput) (slot : Slot σ) (s : σ) :
    Minds (p.workSlot input slot s).1 := by
  intro c hc
  rcases List.mem_append.mp hc with hc | hc
  · rcases List.mem_cons.mp hc with rfl | hc
    · rfl
    · rw [List.mem_singleton.mp hc]
      rfl
  · rcases List.mem_append.mp hc with hc | hc
    · obtain ⟨text, -, rfl⟩ := List.mem_map.mp hc
      rfl
    · exact ofDetector_lastCalls c hc

theorem minds_workSlots (p : Panel σ) (input : DetectorInput) (slots : List (Slot σ)) (s : σ) :
    ∀ w ∈ (p.workSlots input slots s).1, Minds w := by
  induction slots generalizing s with
  | nil => exact nofun
  | cons slot slots ih =>
    intro w hw
    rcases List.mem_cons.mp hw with rfl | hw
    · exact p.minds_workSlot input slot s
    · exact ih _ w hw

theorem Order.split (o : Order) {security : Worked SecurityReport} {ws : List (Worked Assessment)}
    (hs : Minds security) (hws : ∀ w ∈ ws, Minds w) :
    ∃ before after, o.calls security ws = before ++ .phase .staticAnalysis .done :: after ∧
      (∀ c ∈ before, c.ofDetector = true) ∧ ∀ c ∈ after, c.ofDetector = true := by
  have hperm := (o.interleaved security ws).perm
  rw [tasks, List.flatMap_cons, ← List.append_assoc, List.append_assoc] at hperm
  have hmem : .phase .staticAnalysis .done ∈ o.calls security ws := hperm.mem_iff.mpr (by simp)
  obtain ⟨before, after, hsplit⟩ := List.append_of_mem hmem
  rw [hsplit] at hperm
  -- The end of the phase is one of the calls; without it all that is left is the detectors'.
  have hrest := ((List.perm_middle.symm.trans hperm).trans List.perm_middle).cons_inv
  have hown : ∀ c ∈ before ++ after, c.ofDetector = true := by
    intro c hc
    rcases List.mem_append.mp (hrest.mem_iff.mp hc) with hc | hc
    · rcases List.mem_append.mp hc with hc | hc
      · exact hs c hc
      · exact ofDetector_breakdownCalls security c hc
    · rw [List.flatMap_map] at hc
      obtain ⟨w, hw, hc⟩ := List.mem_flatMap.mp hc
      rcases List.mem_append.mp hc with hc | hc
      · exact hws w hw c hc
      · exact ofDetector_breakdownCalls w c hc
  exact ⟨before, after, hsplit, fun c hc => hown c (List.mem_append_left _ hc),
    fun c hc => hown c (List.mem_append_right _ hc)⟩

theorem calls_run (p : Panel σ) (token : Address) (source : SourceResult) (s : σ) :
    ∃ before after, (p.run token source s).calls =
        [.phase .staticAnalysis .running] ++ [.phase .modelConsensus .running] ++ before ++
          [.phase .staticAnalysis .done] ++ after ++ [.phase .modelConsensus .done] ∧
      (∀ c ∈ before, c.ofDetector = true) ∧ ∀ c ∈ after, c.ofDetector = true := by
  obtain ⟨before, after, hsplit, hbefore, hafter⟩ := p.order.split
    (p.minds_workSecurity token source s)
    (p.minds_workSlots (.ofSource token source) (if source.isAvailable then p.slots else [])
      (p.workSecurity token source s).2)
  refine ⟨before, after, ?_, hbefore, hafter⟩
  simp only [run, hsplit, List.append_assoc, List.cons_append, List.nil_append]

end Panel

end TokenAudit
