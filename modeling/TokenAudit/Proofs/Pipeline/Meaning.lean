import TokenAudit.Proofs.Detector.Findings
import TokenAudit.Proofs.Pipeline.Course
import TokenAudit.Proofs.Source.Readable

/-! What the bits of a returned verdict say of the collaborators: what they answered and whether that
came in time. -/

namespace TokenAudit

theorem RiskMask.testBit_bits (m : RiskMask) (b : RiskBit) :
    m.bits.toNat.testBit b.index = m.contains b := by
  rw [contains_eq, ← BitVec.testBit_toNat]
  rfl

namespace RiskVerdict

variable (request : AuditRequest) (decidedAt : Instant) (m : RiskMask)

theorem testBit_score_ofMask (b : RiskBit) :
    (ofMask request decidedAt m).score.toNat.testBit b.index = m.contains b := m.testBit_bits b

theorem approved_iff :
    (ofMask request decidedAt m).status = .approved ↔ ∀ b, m.contains b = false := by
  rw [← m.isClean_iff, ofMask]
  cases m.isClean <;> simp

theorem blocked_iff :
    (ofMask request decidedAt m).status = .blocked ↔ ∃ b, m.contains b = true := by
  have hclean : (∃ b, m.contains b = true) ↔ ¬m.isClean = true := by
    simp only [m.isClean_iff, not_forall, Bool.not_eq_false]
  rw [hclean, ofMask]
  cases m.isClean <;> simp

end RiskVerdict

theorem Rules.not_namesProxySlot_absent : ¬NamesProxySlot SourceResult.absent.source := by
  rw [← hasProxySlot_iff]
  decide +kernel

namespace Pipeline

variable {σ : Type}

/-! ### The source of a run -/

section

variable (p : Pipeline σ) (t : RunTerms) (token : Address) (a : Audit σ)

/-- The search led to this source within its time limit. -/
def Obtained (x : SourceResult) : Prop :=
  ∃ u, u ≤ a.now + p.sourceTimeoutMs ∧
    p.resolver.Obtains t.cancelAt token ⟨a.now, a.sourceTrace, a.state⟩ x u

def CameToNothing : Prop :=
  ∃ u, u ≤ a.now + p.sourceTimeoutMs ∧
    p.resolver.Lacks t.cancelAt token ⟨a.now, a.sourceTrace, a.state⟩ u

/-- The search took longer than its time limit, or never ended. -/
def Overran : Prop :=
  ∀ u, (∃ x, p.resolver.Obtains t.cancelAt token ⟨a.now, a.sourceTrace, a.state⟩ x u) ∨
      p.resolver.Lacks t.cancelAt token ⟨a.now, a.sourceTrace, a.state⟩ u →
    a.now + p.sourceTimeoutMs < u

theorem found_of_obtained {x : SourceResult} (h : p.Obtained t token a x) :
    p.found t token a = x := by
  obtain ⟨u, hu, hx⟩ := h
  have hsearch : (p.search t token a).1 = some x :=
    (p.resolver.resolve_eq_some_iff t.cancelAt token (Nat.le_add_right _ _) x).mpr ⟨u, hu, .inl hx⟩
  rw [found, hsearch]
  rfl

theorem obtained_or_absent :
    p.Obtained t token a (p.found t token a) ∨ p.found t token a = .absent := by
  unfold found
  cases hsearch : (p.search t token a).1 with
  | none => exact .inr rfl
  | some x =>
    obtain ⟨u, hu, hx | ⟨rfl, -⟩⟩ := (p.resolver.resolve_eq_some_iff t.cancelAt token
      (Nat.le_add_right a.now p.sourceTimeoutMs) x).mp hsearch
    · exact .inl ⟨u, hu, hx⟩
    · exact .inr rfl

theorem obtained_iff (x : SourceResult) :
    p.Obtained t token a x ↔ p.found t token a = x ∧ x.isAvailable = true := by
  constructor
  · intro h
    have hfound := p.found_of_obtained t token a h
    obtain ⟨_, _, hx⟩ := h
    exact ⟨hfound, Resolver.isAvailable_of_obtains hx⟩
  · rintro ⟨rfl, hx⟩
    obtain h | habsent := p.obtained_or_absent t token a
    · exact h
    · rw [habsent] at hx
      cases hx

theorem found_unavailable_iff :
    (p.found t token a).isAvailable = false ↔ ¬∃ x, p.Obtained t token a x := by
  simp only [obtained_iff, exists_eq_left', Bool.not_eq_true]

theorem not_obtained_iff :
    (¬∃ x, p.Obtained t token a x) ↔ p.CameToNothing t token a ∨ p.Overran t token a := by
  constructor
  · intro hno
    by_cases hnothing : p.CameToNothing t token a
    · exact .inl hnothing
    · refine .inr fun u hu => Nat.lt_of_not_le fun hle => ?_
      obtain ⟨x, hx⟩ | hlacks := hu
      · exact hno ⟨x, u, hle, hx⟩
      · exact hnothing ⟨u, hle, hlacks⟩
  · rintro (⟨_, -, hlacks⟩ | hover) ⟨x, u, hle, hx⟩
    · exact hx.not_lacks hlacks
    · exact absurd hle (Nat.not_le_of_lt (hover u (.inl ⟨x, hx⟩)))

end

/-! ### The bits -/

theorem found_and_iff (p : Pipeline σ) (t : RunTerms) (token : Address) (a : Audit σ)
    (q : SourceResult → Prop) : (p.found t token a).isAvailable = true ∧ q (p.found t token a) ↔
      ∃ x, p.Obtained t token a x ∧ q x := by
  simp only [obtained_iff, and_assoc, exists_eq_left']

theorem found_names_iff (p : Pipeline σ) (t : RunTerms) (token : Address) (a : Audit σ) :
    Rules.NamesProxySlot (p.found t token a).source ↔
      ∃ x, p.Obtained t token a x ∧ Rules.NamesProxySlot x.source := by
  constructor
  · intro h
    obtain hx | habsent := p.obtained_or_absent t token a
    · exact ⟨_, hx, h⟩
    · rw [habsent] at h
      exact absurd h Rules.not_namesProxySlot_absent
  · rintro ⟨x, hx, h⟩
    rw [p.found_of_obtained t token a hx]
    exact h

theorem contains_inspected (p : Pipeline σ) (t : RunTerms) (token : Address) (a : Audit σ)
    (b : RiskBit) :
    (p.inspected t token a).aggregation.mask.contains b = true ↔
      match b with
      | .unverifiedCode => ¬∃ x, p.Obtained t token a x
      | .sellRestriction => ∃ r, p.panel.Reports token (p.search t token a).2.state r ∧
          p.panel.sellTaxThreshold < r.sellTax
      | .knownHoneypot =>
        ∃ r, p.panel.Reports token (p.search t token a).2.state r ∧ r.isHoneypot = true
      | .upgradeableProxy =>
        (∃ r, p.panel.Reports token (p.search t token a).2.state r ∧ r.isProxy = true) ∨
          ∃ x, p.Obtained t token a x ∧ Rules.NamesProxySlot x.source
      | b => ∃ x, p.Obtained t token a x ∧
          p.panel.Agree token x (p.search t token a).2.state b := by
  rw [inspected, Panel.contains_run]
  cases b with
  | unverifiedCode => exact p.found_unavailable_iff t token a
  | sellRestriction | knownHoneypot => exact Iff.rfl
  | upgradeableProxy => exact or_congr_right (p.found_names_iff t token a)
  | _ =>
    exact p.found_and_iff t token a fun x => p.panel.Agree token x (p.search t token a).2.state _

/-! ### Runs without a readable source -/

theorem run_of_unobtained (p : Pipeline σ) (t : RunTerms) (request : AuditRequest) (a : Audit σ)
    (h : ¬∃ x, p.Obtained t request.token a x) (slots : List (Slot σ)) :
    { p with panel := { p.panel with slots := slots } }.run t request a = p.run t request a := by
  let q : Pipeline σ := { p with panel := { p.panel with slots := slots } }
  -- Only the panel differs, and without a source it asks none of its models.
  have hinspected : q.inspected t request.token a = p.inspected t request.token a := by
    have hfound := (p.found_unavailable_iff t request.token a).mpr h
    change Panel.run q.panel request.token (p.found t request.token a) _ = _
    simp only [inspected, Panel.run, hfound]
    rfl
  have hverdict : q.verdict t request a = p.verdict t request a := by
    rw [verdict, verdict, hinspected]
  have hjudged : q.judged t request.token a = p.judged t request.token a := by
    rw [judged, judged, judgement, judgement, hinspected]
    rfl
  have hexecute : q.execute t request a = p.execute t request a := by
    by_cases hz : request.token = .zero
    · rw [execute, execute, if_pos hz, if_pos hz]
    by_cases habandoned : p.Abandoned t request.token a
    · exact (q.execute_of_abandoned t a hz habandoned).trans
        (p.execute_of_abandoned t a hz habandoned).symm
    calc q.execute t request a
        = q.settle t (q.verdict t request a) (q.judged t request.token a) :=
          q.execute_of_not_abandoned t a hz habandoned
      _ = p.settle t (p.verdict t request a) (p.judged t request.token a) := by
          rw [hverdict, hjudged]
          rfl
      _ = p.execute t request a := (p.execute_of_not_abandoned t a hz habandoned).symm
  change q.run t request a = p.run t request a
  rw [run, run, hexecute]

/-- What each bit of a returned verdict says, whatever the collaborators answered and when. -/
theorem verdict_bits_mean (p : Pipeline σ) (t : RunTerms) (request : AuditRequest) (a : Audit σ)
    (v : RiskVerdict) (h : (p.run t request a).1 = some (.ok v)) :
    let token := request.token
    let asked := (p.search t token a).2.state
    let bit (b : RiskBit) : Prop := v.score.toNat.testBit b.index = true
    (bit .unverifiedCode ↔ p.CameToNothing t token a ∨ p.Overran t token a) ∧
    (bit .unverifiedCode ↔ ¬∃ x, p.Obtained t token a x) ∧
    (bit .sellRestriction ↔
      ∃ r, p.panel.Reports token asked r ∧ p.panel.sellTaxThreshold < r.sellTax) ∧
    (bit .knownHoneypot ↔ ∃ r, p.panel.Reports token asked r ∧ r.isHoneypot = true) ∧
    (bit .upgradeableProxy ↔ (∃ r, p.panel.Reports token asked r ∧ r.isProxy = true) ∨
      ∃ x, p.Obtained t token a x ∧ Rules.NamesProxySlot x.source) ∧
    (∀ b ∈ RiskBit.modelBits, bit b ↔
      ∃ x, p.Obtained t token a x ∧ p.panel.Agree token x asked b) ∧
    (v.status = .approved ↔ ∀ b, ¬bit b) ∧
    (v.status = .blocked ↔ ∃ b, bit b) ∧
    ((¬∃ x, p.Obtained t token a x) → v.status ≠ .approved ∧
      ∀ slots, { p with panel := { p.panel with slots := slots } }.run t request a =
        p.run t request a) := by
  intro token asked bit
  have hmask := p.contains_inspected t token a
  have hv := eq_verdict_of_run h
  unfold verdict at hv
  generalize (p.inspected t request.token a).aggregation.mask = m at hmask hv
  have hbit : ∀ b, bit b ↔ m.contains b = true := by
    intro b
    rw [← RiskVerdict.testBit_score_ofMask request t.decidedAt, ← hv]
  have happroved : v.status = .approved ↔ ∀ b, ¬bit b := by
    simp only [hbit, Bool.not_eq_true]
    rw [hv, RiskVerdict.approved_iff]
  have hblocked : v.status = .blocked ↔ ∃ b, bit b := by
    simp only [hbit]
    rw [hv, RiskVerdict.blocked_iff]
  have hsource : bit .unverifiedCode ↔ ¬∃ x, p.Obtained t token a x := (hbit _).trans (hmask _)
  refine ⟨hsource.trans (p.not_obtained_iff t token a), hsource, (hbit _).trans (hmask _),
    (hbit _).trans (hmask _), (hbit _).trans (hmask _), ?_, happroved, hblocked, ?_⟩
  · intro b hb
    have hmodel := hmask b
    rw [← hbit] at hmodel
    cases b with
    | unverifiedCode | sellRestriction | knownHoneypot | upgradeableProxy =>
      cases RiskBit.mem_modelBits.mp hb
    | _ => exact hmodel
  · intro hno
    refine ⟨fun hok => happroved.mp hok _ (hsource.mpr hno), fun slots => ?_⟩
    exact p.run_of_unobtained t request a hno slots

def disguised : Pipeline Unit where
  resolver := ⟨fun _ => Ask.pure (.ok (some ⟨" ", "C"⟩)), fun _ => Ask.pure (.ok "0x6001"),
    .answering fun _ _ =>
      Ask.pure (.ok "360894A13BA1A3210667C828492DB98DCA3E2076CC3735A920A3CA505D382BBC")⟩
  panel :=
    { security := fun _ s => (⟨none, fun s => (.timedOut, s)⟩, s)
      slots := [⟨"late", fun _ _ s => (⟨some 6, [], fun s => (([], .answered "\x7b\x7d"), s)⟩, s)⟩,
        ⟨"keen", fun _ _ s => (⟨some 5, [], fun s =>
          (([], .answered "\x7b\"logic_bomb\": true\x7d"), s)⟩, s)⟩]
      sellTaxThreshold := 0
      strictConsensus := true
      timeoutMs := 5 }
  committer := none
  sourceTimeoutMs := 0

theorem disguised_is_blocked :
    let request : AuditRequest := ⟨7, ⟨1⟩, 0⟩
    let terms : RunTerms := ⟨none, ⟨2025, 1, 1, 0, 0⟩⟩
    let a := start 0 () []
    let v : RiskVerdict := .ofMask request terms.decidedAt ⟨0x88⟩
    (disguised.run terms request a).1 = some (.ok v) ∧
      (∃ x, disguised.Obtained terms request.token a x ∧ disguised.panel.Agree request.token x
        (disguised.search terms request.token a).2.state .logicBomb) ∧
      v.status = .blocked := by
  intro request terms a v
  have hrun : (disguised.run terms request a).1 = some (.ok v) := by decide +kernel
  obtain ⟨-, -, -, -, -, hmodels, -, hblocked, -⟩ := verdict_bits_mean disguised terms request a v hrun
  exact ⟨hrun, (hmodels .logicBomb (by decide)).mp (by decide),
    hblocked.mpr ⟨.logicBomb, by decide⟩⟩

end Pipeline

end TokenAudit
