import Mathlib.Logic.Basic
import TokenAudit.Detector.Panel
import TokenAudit.Proofs.Risk.Membership

/-! What each bit of an aggregated code says of the detectors: whether the security service reported
in time and what, and which of the models gave an assessment in time that flags the bit. -/

namespace TokenAudit

theorem Text.occurs_iff (needle s : List Char) : Text.occurs needle s = true ↔ needle <:+: s := by
  induction s with
  | nil => simp [Text.occurs]
  | cons c s ih =>
    rw [Text.occurs, Bool.or_eq_true, ih, List.isPrefixOf_iff_prefix, List.infix_cons_iff]

namespace Rules

/-- The storage slot of proxies stands in a text, its letters in either case. -/
def NamesProxySlot (source : String) : Prop :=
  ∃ piece, piece <:+: source.toList ∧ piece.map Char.toLower = proxySlot.toList

theorem hasProxySlot_iff (source : String) : hasProxySlot source = true ↔ NamesProxySlot source := by
  rw [hasProxySlot, Text.occurs_iff, Text.lowerAscii, List.infix_map_iff]
  simp only [NamesProxySlot, eq_comm]

theorem contains_evaluate (threshold : Float) (report : Option SecurityReport)
    (source : SourceResult) (b : RiskBit) :
    (evaluate threshold report source).contains b = match b with
      | .unverifiedCode => !source.isAvailable
      | .sellRestriction => report.any fun r => decide (threshold < r.sellTax)
      | .knownHoneypot => report.any SecurityReport.isHoneypot
      | .upgradeableProxy => report.any SecurityReport.isProxy || hasProxySlot source.source
      | _ => false := by
  unfold evaluate
  cases report <;> cases b <;> cases hasProxySlot source.source <;> simp

end Rules

namespace Panel

theorem contains_aggregate (threshold : Float) (strict : Bool) (source : SourceResult)
    (security : Outcome SecurityReport) (slots : List (String × Outcome Assessment)) (b : RiskBit) :
    (aggregate threshold strict source security slots).mask.contains b =
      if b.family = .fixed then (Rules.evaluate threshold security.answer? source).contains b
      else (RiskMask.combine ((slots.filterMap fun s => s.2.answer?).map Assessment.mask)
        strict).contains b := by
  have hmodel : ∀ votes, b.family = .fixed → (RiskMask.combine votes strict).contains b = false := by
    intro votes hb
    rw [← Bool.not_eq_true, RiskMask.contains_combine, hb]
    exact fun h => by cases h.1
  have hunverified := Rules.contains_evaluate threshold security.answer? source .unverifiedCode
  unfold aggregate
  cases hs : source.isAvailable with
  | true =>
    by_cases hb : b.family = .fixed
    · simp [hb, hmodel _ hb]
    · simp [hb]
  | false =>
    rw [hs] at hunverified
    by_cases hb : b.family = .fixed
    · by_cases hbit : b = .unverifiedCode
      · subst hbit
        simp [hb, hunverified]
      · simp [hb, hmodel _ hb, Ne.symm hbit]
    · have hbit : .unverifiedCode ≠ b := fun h => hb (h ▸ rfl)
      simp [hb, hbit]

variable {σ : Type}

/-! ### Answers in time -/

def Reports (p : Panel σ) (token : Address) (s : σ) (r : SecurityReport) : Prop :=
  ∃ delay, (p.security token s).1.delay = some delay ∧ delay ≤ p.timeoutMs ∧
    ((p.security token s).1.draw (p.security token s).2).1 = .answered r

def Assesses (p : Panel σ) (prompt : String) (slot : Slot σ) (s : σ) (x : Assessment) : Prop :=
  ∃ delay text, (slot.ask systemPrompt prompt s).1.delay = some delay ∧ delay ≤ p.timeoutMs ∧
    ((slot.ask systemPrompt prompt s).1.draw (slot.ask systemPrompt prompt s).2).1.2 =
      .answered text ∧
    Assessment.parse slot.name text = .ok x

theorem endOf_inTime (timeoutMs : Nat) (delay : Option Nat) :
    (endOf timeoutMs delay).2 = true ↔ ∃ d, delay = some d ∧ d ≤ timeoutMs := by
  cases delay with
  | none => simp [endOf]
  | some d => by_cases h : d ≤ timeoutMs <;> simp [endOf, h]

theorem answer?_eq_some {α : Type} {o : Outcome α} {a : α} :
    o.answer? = some a ↔ o = .answered a := by
  cases o <;> simp [Outcome.answer?]

theorem bind_eq_answered {α β : Type} {o : Outcome α} {f : α → Except AuditError β} {b : β} :
    o.bind f = .answered b ↔ ∃ a, o = .answered a ∧ f a = .ok b := by
  cases o with
  | answered a => cases h : f a <;> simp [Outcome.bind, h]
  | _ => simp [Outcome.bind]

theorem answer?_workSecurity (p : Panel σ) (token : Address) (source : SourceResult) (s : σ)
    (r : SecurityReport) :
    (p.workSecurity token source s).1.outcome.answer? = some r ↔ p.Reports token s r := by
  rw [answer?_eq_some]
  have htime := endOf_inTime p.timeoutMs (p.security token s).1.delay
  simp only [workSecurity]
  by_cases h : (endOf p.timeoutMs (p.security token s).1.delay).2 = true
  · rw [if_pos h]
    obtain ⟨d, hd, hle⟩ := htime.mp h
    constructor
    · intro ho
      exact ⟨d, hd, hle, ho⟩
    · rintro ⟨-, -, -, ho⟩
      exact ho
  · rw [if_neg h]
    refine iff_of_false nofun fun ⟨d, hd, hle, _⟩ => ?_
    exact h (htime.mpr ⟨d, hd, hle⟩)

theorem answer?_workSlot (p : Panel σ) (input : DetectorInput) (slot : Slot σ) (s : σ)
    (x : Assessment) :
    (p.workSlot input slot s).1.outcome.answer? = some x ↔ p.Assesses input.prompt slot s x := by
  rw [answer?_eq_some]
  have htime := endOf_inTime p.timeoutMs (slot.ask systemPrompt input.prompt s).1.delay
  simp only [workSlot]
  rw [bind_eq_answered]
  by_cases h : (endOf p.timeoutMs (slot.ask systemPrompt input.prompt s).1.delay).2 = true
  · rw [if_pos h]
    obtain ⟨d, hd, hle⟩ := htime.mp h
    constructor
    · rintro ⟨text, ho, hx⟩
      exact ⟨d, text, hd, hle, ho, hx⟩
    · rintro ⟨-, text, -, -, ho, hx⟩
      exact ⟨text, ho, hx⟩
  · rw [if_neg h]
    refine iff_of_false (fun ⟨_, ho, _⟩ => by cases ho) fun ⟨d, _, hd, hle, _⟩ => ?_
    exact h (htime.mpr ⟨d, hd, hle⟩)

def asked (p : Panel σ) (input : DetectorInput) : List (Slot σ) → σ → List (Slot σ × σ)
  | [], _ => []
  | slot :: slots, s => (slot, s) :: asked p input slots (p.workSlot input slot s).2

theorem mem_answers_workSlots (p : Panel σ) (input : DetectorInput) (slots : List (Slot σ)) (s : σ)
    (x : Assessment) :
    x ∈ ((p.workSlots input slots s).1.map fun w => (w.name, w.outcome)).filterMap
        (fun w => w.2.answer?) ↔
      ∃ q ∈ p.asked input slots s, p.Assesses input.prompt q.1 q.2 x := by
  induction slots generalizing s with
  | nil => simp [workSlots, asked]
  | cons slot slots ih =>
    have hcons : ∀ ws : List (String × Outcome Assessment), ∀ w : String × Outcome Assessment,
        x ∈ (w :: ws).filterMap (fun w => w.2.answer?) ↔
          w.2.answer? = some x ∨ x ∈ ws.filterMap (fun w => w.2.answer?) := by
      intro ws w
      simp only [List.mem_filterMap, List.mem_cons, or_and_right, exists_or, exists_eq_left]
    simp only [workSlots, asked, List.map_cons]
    rw [hcons, ih, answer?_workSlot]
    simp only [List.mem_cons, or_and_right, exists_or, exists_eq_left]

/-- Of one run: an assessment that a model has given in time on a readable source. -/
def Given (p : Panel σ) (token : Address) (source : SourceResult) (s : σ) (x : Assessment) : Prop :=
  ∃ q ∈ p.asked (.ofSource token source) p.slots (p.workSecurity token source s).2,
    p.Assesses (DetectorInput.ofSource token source).prompt q.1 q.2 x

/-- Of the models that gave an assessment, and there is one, every one flags a bit when the rule is
strict, and any one when it is not. -/
def Agree (p : Panel σ) (token : Address) (source : SourceResult) (s : σ) (b : RiskBit) : Prop :=
  (∃ x, p.Given token source s x) ∧
    if p.strictConsensus then ∀ x, p.Given token source s x → x.mask.contains b = true
    else ∃ x, p.Given token source s x ∧ x.mask.contains b = true

/-! ### The bits of a run -/

theorem contains_run_of_fixed (p : Panel σ) (token : Address) (source : SourceResult) (s : σ)
    {b : RiskBit} (hb : b.family = .fixed) :
    (p.run token source s).aggregation.mask.contains b =
      (Rules.evaluate p.sellTaxThreshold (p.workSecurity token source s).1.outcome.answer?
        source).contains b := by
  simp only [run]
  rw [contains_aggregate, if_pos hb]

theorem contains_run_of_model (p : Panel σ) (token : Address) (source : SourceResult) (s : σ)
    {b : RiskBit} (hb : b.family = .model) :
    (p.run token source s).aggregation.mask.contains b = true ↔
      source.isAvailable = true ∧ p.Agree token source s b := by
  have hnot : b.family ≠ .fixed := by rw [hb]; decide
  simp only [run]
  rw [contains_aggregate, if_neg hnot, RiskMask.contains_combine]
  cases hs : source.isAvailable with
  | false => simp [workSlots]
  | true =>
    -- The votes that are counted are those of the models that gave an assessment.
    have hgiven := p.mem_answers_workSlots (.ofSource token source) p.slots
      (p.workSecurity token source s).2
    simp only [if_true]
    generalize (((p.workSlots (.ofSource token source) p.slots
      (p.workSecurity token source s).2).1.map fun w => (w.name, w.outcome)).filterMap
        fun w => w.2.answer?) = xs at hgiven ⊢
    have hmem : ∀ x, x ∈ xs ↔ p.Given token source s x := hgiven
    have hne : xs.map Assessment.mask ≠ [] ↔ ∃ x, p.Given token source s x := by
      rw [Ne, List.map_eq_nil_iff, List.eq_nil_iff_forall_not_mem]
      simp only [hmem, not_forall, not_not]
    rw [hne]
    simp only [Agree, hb, List.mem_map, forall_exists_index, and_imp, forall_apply_eq_imp_iff₂,
      exists_exists_and_eq_and, hmem, true_and]

theorem contains_run (p : Panel σ) (token : Address) (source : SourceResult) (s : σ) (b : RiskBit) :
    (p.run token source s).aggregation.mask.contains b = true ↔ match b with
      | .unverifiedCode => source.isAvailable = false
      | .sellRestriction => ∃ r, p.Reports token s r ∧ p.sellTaxThreshold < r.sellTax
      | .knownHoneypot => ∃ r, p.Reports token s r ∧ r.isHoneypot = true
      | .upgradeableProxy =>
        (∃ r, p.Reports token s r ∧ r.isProxy = true) ∨ Rules.NamesProxySlot source.source
      | b => source.isAvailable = true ∧ p.Agree token source s b := by
  have hreport : ∀ f : SecurityReport → Bool,
      (p.workSecurity token source s).1.outcome.answer?.any f = true ↔
        ∃ r, p.Reports token s r ∧ f r = true := by
    intro f
    simp only [Option.any_eq_true, answer?_workSecurity]
  cases b with
  | unverifiedCode =>
    rw [p.contains_run_of_fixed token source s rfl, Rules.contains_evaluate]
    simp
  | sellRestriction =>
    rw [p.contains_run_of_fixed token source s rfl, Rules.contains_evaluate]
    simp [hreport]
  | knownHoneypot =>
    rw [p.contains_run_of_fixed token source s rfl, Rules.contains_evaluate]
    simp [hreport]
  | upgradeableProxy =>
    rw [p.contains_run_of_fixed token source s rfl, Rules.contains_evaluate]
    simp [hreport, Rules.hasProxySlot_iff]
  | _ => exact p.contains_run_of_model token source s rfl

end Panel

end TokenAudit
