import TokenAudit.Detector.Panel
import TokenAudit.Proofs.Risk.Membership

/-! The votes of the models folded into one mask. A bit of the mask is read off which votes there are; so
order and repetition do not count, and what one vote more or less can change depends on the rule. -/

namespace TokenAudit

namespace RiskMask

/-- One vote more, at any place among the others. -/
inductive Joined (v : RiskMask) : List RiskMask → List RiskMask → Prop where
  | between (before after : List RiskMask) : Joined v (before ++ after) (before ++ v :: after)

variable {v : RiskMask} {votes more : List RiskMask} {b : RiskBit}

theorem Joined.mem_iff (h : Joined v votes more) (m : RiskMask) : m ∈ more ↔ m = v ∨ m ∈ votes := by
  obtain ⟨before, after⟩ := h
  rw [List.mem_append, List.mem_cons, List.mem_append]
  exact or_left_comm

theorem Joined.ne_nil (h : Joined v votes more) : more ≠ [] :=
  List.ne_nil_of_mem ((h.mem_iff v).mpr (.inl rfl))

theorem combine_nil (strict : Bool) : combine [] strict = clean := rfl

theorem combine_perm (h : votes.Perm more) (strict : Bool) :
    combine votes strict = combine more strict :=
  combine_congr (fun _ => h.mem_iff) strict

theorem Joined.combine_eq (h : Joined v votes more) (hv : v ∈ votes) (strict : Bool) :
    combine more strict = combine votes strict := by
  -- A vote that is given already counts once.
  refine combine_congr (fun m => (h.mem_iff m).trans ?_) strict
  constructor
  · rintro (rfl | hm)
    · exact hv
    · exact hm
  · exact .inr

theorem Joined.permissive (h : Joined v votes more) (hb : (combine votes false).contains b = true) :
    (combine more false).contains b = true := by
  obtain ⟨hfamily, -, u, hu, hset⟩ := (contains_combine votes false b).mp hb
  have hmem : u ∈ more := (h.mem_iff u).mpr (.inr hu)
  exact (contains_combine more false b).mpr ⟨hfamily, h.ne_nil, u, hmem, hset⟩

theorem Joined.strict (h : Joined v votes more) (hne : votes ≠ [])
    (hb : (combine more true).contains b = true) : (combine votes true).contains b = true := by
  obtain ⟨hfamily, -, hall⟩ := (contains_combine more true b).mp hb
  have hrest : ∀ u ∈ votes, u.contains b = true := fun u hu => hall u ((h.mem_iff u).mpr (.inr hu))
  exact (contains_combine votes true b).mpr ⟨hfamily, hne, hrest⟩

end RiskMask

namespace Panel

open RiskMask (Joined combine)

def given (slots : List (String × Outcome Assessment)) : List RiskMask :=
  (slots.filterMap fun s => s.2.answer?).map Assessment.mask

theorem joined_given (before after : List (String × Outcome Assessment)) (name : String)
    (x : Assessment) {lost : Outcome Assessment} (h : lost.answer? = none) :
    Joined x.mask (given (before ++ (name, lost) :: after))
      (given (before ++ (name, .answered x) :: after)) := by
  have hlost : given (before ++ (name, lost) :: after) = given before ++ given after := by
    simp [given, h]
  have hgiven : given (before ++ (name, .answered x) :: after) =
      given before ++ x.mask :: given after := by
    simp [given, Outcome.answer?]
  rw [hlost, hgiven]
  exact .between (given before) (given after)

/-- A bit of the folded votes is a bit of the models that any vote has set, or when strict every one of
at least one vote. So the order of votes and their repetition do not count; when any vote counts, one more
clears nothing; and when every vote counts, one more among others sets nothing, and one less clears
nothing unless it was the only one, with which all bits go. A model that fails is such a vote less. -/
theorem votes_fold_by_membership (votes : List RiskMask) (strict : Bool) :
    (∀ b, (combine votes strict).contains b = true ↔ b.family = .model ∧ votes ≠ [] ∧
      if strict then ∀ v ∈ votes, v.contains b = true else ∃ v ∈ votes, v.contains b = true) ∧
    (∀ permuted, votes.Perm permuted → combine permuted strict = combine votes strict) ∧
    (∀ v more, Joined v votes more → v ∈ votes → combine more strict = combine votes strict) ∧
    (∀ v more, Joined v votes more → ∀ b, (combine votes false).contains b = true →
      (combine more false).contains b = true) ∧
    (∀ v more, Joined v votes more → votes ≠ [] → ∀ b, (combine more true).contains b = true →
      (combine votes true).contains b = true) ∧
    (∀ v fewer, Joined v fewer votes →
      (fewer ≠ [] → ∀ b, (combine votes true).contains b = true →
        (combine fewer true).contains b = true) ∧
      (fewer = [] → ∀ b, (combine fewer true).contains b = false)) ∧
    ∀ threshold source security before after name x, ∀ lost : Outcome Assessment, lost.answer? = none →
      let voted := aggregate threshold true source security (before ++ (name, .answered x) :: after)
      let failed := aggregate threshold true source security (before ++ (name, lost) :: after)
      (failed.assessments ≠ [] → ∀ b, voted.modelMask.contains b = true →
        failed.modelMask.contains b = true) ∧
      (failed.assessments = [] → ∀ b, failed.modelMask.contains b = false) := by
  have hnone : ∀ b, (combine [] true).contains b = false := by
    intro b
    rw [RiskMask.combine_nil, RiskMask.contains_clean]
  refine ⟨RiskMask.contains_combine votes strict, fun _ h => (RiskMask.combine_perm h strict).symm,
    fun _ _ h hv => h.combine_eq hv strict, fun _ _ h _ => h.permissive,
    fun _ _ h hne _ => h.strict hne, fun _ _ h => ⟨fun hne _ => h.strict hne, ?_⟩, ?_⟩
  · rintro rfl
    exact hnone
  · intro threshold source security before after name x lost hlost voted failed
    have hjoined := joined_given before after name x hlost
    have hvotes : failed.assessments.map Assessment.mask =
        given (before ++ (name, lost) :: after) := rfl
    constructor
    · intro hne b
      have hsome : given (before ++ (name, lost) :: after) ≠ [] := by
        rw [← hvotes]
        exact fun hnil => hne (List.map_eq_nil_iff.mp hnil)
      exact hjoined.strict hsome
    · intro hnil
      have hempty : given (before ++ (name, lost) :: after) = [] := by
        rw [← hvotes, hnil, List.map_nil]
      have hmask : failed.modelMask = combine (given (before ++ (name, lost) :: after)) true := rfl
      rw [hmask, hempty]
      exact hnone

example : combine [⟨0x31⟩, ⟨0x73⟩] true = ⟨0x30⟩ := by decide

end Panel

end TokenAudit
