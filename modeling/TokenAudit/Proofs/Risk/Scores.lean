import TokenAudit.Proofs.Risk.Membership
import TokenAudit.Verdict

/-! The readings of a raw score. Whoever is asked for its status, its decoding or its verdict, a score
from 0 to 255 is the risk code of one mask, and any other score is an error and no code at all. -/

namespace TokenAudit

/-! ### Checks and masks -/

theorem RiskBit.ofLabel?_label (b : RiskBit) : ofLabel? b.label = some b := by cases b <;> decide

namespace RiskMask

theorem setChecks_map (f : RiskBit → Bool) (bs : List RiskBit) (m : RiskMask) :
    ∃ n, setChecks m (bs.map fun b => ⟨b.label, f b⟩) = .ok n ∧
      ∀ b, n.contains b = if b ∈ bs then f b else m.contains b := by
  induction bs generalizing m with
  | nil => exact ⟨m, rfl, fun b => by simp⟩
  | cons c bs ih =>
    obtain ⟨n, hn, hcontains⟩ := ih (m.set c (f c))
    refine ⟨n, ?_, fun b => ?_⟩
    · simp only [List.map_cons, setChecks, RiskBit.ofLabel?_label, hn]
    · rw [hcontains, contains_set]
      by_cases hb : b ∈ bs
      · simp [hb]
      · by_cases hc : c = b
        · subst hc
          simp
        · simp [hb, hc, Ne.symm hc]

theorem ofChecks_checks (m : RiskMask) : ofChecks m.checks = .ok m := by
  obtain ⟨n, hn, hcontains⟩ := setChecks_map m.contains RiskBit.all clean
  have hall : ∀ b : RiskBit, b ∈ RiskBit.all := by
    intro b
    cases b <;> decide
  have hsame : n = m := ext_contains fun b => (hcontains b).trans (if_pos (hall b))
  exact hn.trans (congrArg Except.ok hsame)

end RiskMask

/-! ### Scores and codes -/

theorem riskCode?_bits (m : RiskMask) : riskCode? (Int.ofNat m.bits.toNat) = some m := by
  have hbound : 0 ≤ Int.ofNat m.bits.toNat ∧ Int.ofNat m.bits.toNat ≤ 255 :=
    ⟨Int.natCast_nonneg _, Int.ofNat_le.mpr (Nat.le_of_lt_succ m.bits.toNat_lt)⟩
  rw [riskCode?, if_pos hbound, Int.ofNat_eq_natCast, Int.toNat_natCast, UInt8.ofNat_toNat]

theorem exists_code {score : Int} (h : 0 ≤ score ∧ score ≤ 255) :
    ∃ m : RiskMask, score = Int.ofNat m.bits.toNat := by
  obtain ⟨n, rfl⟩ := Int.eq_ofNat_of_zero_le h.1
  have hn : n < 256 := by omega
  exact ⟨⟨UInt8.ofNat n⟩, congrArg Int.ofNat (UInt8.toNat_ofNat_of_lt' hn).symm⟩

theorem riskCode?_eq_none {score : Int} (h : ¬(0 ≤ score ∧ score ≤ 255)) :
    riskCode? score = none := if_neg h

namespace VerdictStatus

theorem ofScore_approved_iff (score : Int) : ofScore score = .approved ↔ score = 0 := by
  unfold ofScore
  split
  · next h₀ => exact iff_of_true rfl h₀
  · next h₀ =>
    refine iff_of_false ?_ h₀
    split <;> exact nofun

theorem ofScore_blocked_iff (score : Int) :
    ofScore score = .blocked ↔ 1 ≤ score ∧ score ≤ 255 := by
  unfold ofScore
  split
  · next h₀ => exact iff_of_false nofun (by omega)
  · split
    · next h₁ => exact iff_of_true rfl h₁
    · next h₁ => exact iff_of_false nofun h₁

theorem ofScore_error_iff (score : Int) : ofScore score = .error ↔ ¬(0 ≤ score ∧ score ≤ 255) := by
  unfold ofScore
  split
  · next h₀ => exact iff_of_false nofun (by omega)
  · split
    · next h₁ => exact iff_of_false nofun (by omega)
    · next h₁ => exact iff_of_true rfl (by omega)

theorem ofScore_bits (m : RiskMask) :
    ofScore (Int.ofNat m.bits.toNat) = if m.isClean then .approved else .blocked := by
  have hzero : Int.ofNat m.bits.toNat = 0 ↔ m.isClean = true := by
    rw [RiskMask.isClean, beq_iff_eq, ← UInt8.toNat_inj]
    exact Int.ofNat_inj
  split
  · next h => exact (ofScore_approved_iff _).mpr (hzero.mpr h)
  · next h =>
    refine (ofScore_blocked_iff _).mpr ⟨?_, Int.ofNat_le.mpr (Nat.le_of_lt_succ m.bits.toNat_lt)⟩
    exact Int.lt_iff_le_and_ne.mpr ⟨Int.natCast_nonneg _, fun h₀ => h (hzero.mp h₀.symm)⟩

end VerdictStatus

namespace RiskDecoding

theorem ofScore_bits (m : RiskMask) :
    ofScore (Int.ofNat m.bits.toNat) =
      ⟨Int.ofNat m.bits.toNat, if m.isClean then .approved else .blocked, m.checks, m.summary⟩ := by
  rw [ofScore, riskCode?_bits, VerdictStatus.ofScore_bits]

theorem ofScore_of_no_code {score : Int} (h : ¬(0 ≤ score ∧ score ≤ 255)) :
    ofScore score = ⟨score, .error, [], s!"{score} is not a risk code"⟩ := by
  rw [ofScore, riskCode?_eq_none h]

end RiskDecoding

namespace RiskVerdict

variable (request : AuditRequest) (decidedAt : Instant)

theorem ofScore_bits (m : RiskMask) :
    ofScore request decidedAt (Int.ofNat m.bits.toNat) = ofMask request decidedAt m := by
  rw [ofScore, riskCode?_bits]

theorem ofScore_of_no_code {score : Int} (h : ¬(0 ≤ score ∧ score ≤ 255)) :
    ofScore request decidedAt score =
      error request decidedAt s!"internal score {score} is not a risk code" := by
  rw [ofScore, riskCode?_eq_none h]

theorem status_ofMask (m : RiskMask) : (ofMask request decidedAt m).status ≠ .error := by
  unfold ofMask
  cases m.isClean with
  | true => exact nofun
  | false => exact nofun

theorem isCommittable_ofMask (m : RiskMask) : (ofMask request decidedAt m).isCommittable = true :=
  decide_eq_true (status_ofMask request decidedAt m)

inductive Made : RiskVerdict → Prop
  | ofMask (m : RiskMask) : Made (ofMask request decidedAt m)
  | ofScore (score : Int) : Made (ofScore request decidedAt score)
  | error (reason : String) : Made (error request decidedAt reason)

variable {request decidedAt}

theorem score_ofMask_eq_zero_iff (m : RiskMask) :
    (ofMask request decidedAt m).score = 0 ↔ (ofMask request decidedAt m).status = .approved := by
  change m.bits = 0 ↔ (if m.isClean then VerdictStatus.approved else .blocked) = .approved
  rw [RiskMask.isClean]
  by_cases h : m.bits = 0 <;> simp [h]

theorem Made.score_eq_zero_iff {v : RiskVerdict} (h : Made request decidedAt v) :
    v.score = 0 ↔ v.status = .approved := by
  cases h with
  | ofMask m => exact score_ofMask_eq_zero_iff m
  | error reason => exact iff_of_false (by simp [RiskVerdict.error]) nofun
  | ofScore score =>
    by_cases hcode : 0 ≤ score ∧ score ≤ 255
    · obtain ⟨m, rfl⟩ := exists_code hcode
      rw [ofScore_bits]
      exact score_ofMask_eq_zero_iff m
    · rw [ofScore_of_no_code request decidedAt hcode]
      exact iff_of_false (by simp [RiskVerdict.error]) nofun

end RiskVerdict

/-- For every raw score the status, the decoding and the verdict agree. A verdict that may be committed
carries the very score as its code, told in the words of the decoding, and its checks give that code
back; a score outside the bounds becomes no code; and no verdict is zero but an approval. -/
theorem score_readings_agree (request : AuditRequest) (decidedAt : Instant) (score : Int) :
    let status := VerdictStatus.ofScore score
    let decoding := RiskDecoding.ofScore score
    let v := RiskVerdict.ofScore request decidedAt score
    decoding.status = status ∧ v.status = status ∧
    (status = .approved ↔ score = 0) ∧ (status = .blocked ↔ 1 ≤ score ∧ score ≤ 255) ∧
    (status = .error ↔ ¬(0 ≤ score ∧ score ≤ 255)) ∧
    (v.isCommittable = true ↔ 0 ≤ score ∧ score ≤ 255) ∧
    (v.isCommittable = true → Int.ofNat v.score.toNat = score ∧ v.checks = decoding.checks ∧
      v.reasoning = decoding.reasoning ∧
      ∃ m, RiskMask.ofChecks v.checks = .ok m ∧ Int.ofNat m.bits.toNat = score) ∧
    (¬(0 ≤ score ∧ score ≤ 255) →
      decoding = ⟨score, .error, [], s!"{score} is not a risk code"⟩ ∧
      v = RiskVerdict.error request decidedAt s!"internal score {score} is not a risk code") ∧
    ∀ u, RiskVerdict.Made request decidedAt u →
      (u.score = 0 ↔ u.status = .approved) ∧ (u.status = .error → u.score ≠ 0) := by
  intro status decoding v
  have hmade : ∀ u, RiskVerdict.Made request decidedAt u →
      (u.score = 0 ↔ u.status = .approved) ∧ (u.status = .error → u.score ≠ 0) := by
    intro u hu
    refine ⟨hu.score_eq_zero_iff, fun herror hzero => ?_⟩
    have happroved := hu.score_eq_zero_iff.mp hzero
    rw [herror] at happroved
    cases happroved
  have hstatus := And.intro (VerdictStatus.ofScore_approved_iff score)
    (And.intro (VerdictStatus.ofScore_blocked_iff score) (VerdictStatus.ofScore_error_iff score))
  by_cases hcode : 0 ≤ score ∧ score ≤ 255
  · obtain ⟨m, rfl⟩ := exists_code hcode
    have hdecoding : decoding = _ := RiskDecoding.ofScore_bits m
    have hv : v = RiskVerdict.ofMask request decidedAt m := RiskVerdict.ofScore_bits request decidedAt m
    have hsame : status = _ := VerdictStatus.ofScore_bits m
    have hcommits : v.isCommittable = true := hv ▸ RiskVerdict.isCommittable_ofMask request decidedAt m
    refine ⟨?_, ?_, hstatus.1, hstatus.2.1, hstatus.2.2, iff_of_true hcommits hcode, fun _ => ?_,
      fun hno => absurd hcode hno, hmade⟩
    · rw [hdecoding, hsame]
    · rw [hv, hsame]
      rfl
    · rw [hv, hdecoding]
      exact ⟨rfl, rfl, rfl, m, RiskMask.ofChecks_checks m, rfl⟩
  · have hdecoding : decoding = _ := RiskDecoding.ofScore_of_no_code hcode
    have hv : v = _ := RiskVerdict.ofScore_of_no_code request decidedAt hcode
    have hsame : status = .error := hstatus.2.2.mpr hcode
    have hrefused : ¬v.isCommittable = true := by
      rw [hv]
      exact nofun
    refine ⟨?_, ?_, hstatus.1, hstatus.2.1, hstatus.2.2, iff_of_false hrefused hcode,
      fun hcommits => absurd hcommits hrefused, fun _ => ⟨hdecoding, hv⟩, hmade⟩
    · rw [hdecoding, hsame]
    · rw [hv, hsame]
      rfl

end TokenAudit
