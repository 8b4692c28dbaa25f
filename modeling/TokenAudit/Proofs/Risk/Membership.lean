import TokenAudit.Risk

/-! Which bits a mask holds, after each of the operations on masks. -/

namespace TokenAudit

theorem RiskBit.toBitVec_mask (b : RiskBit) : b.mask.toBitVec = BitVec.twoPow 8 b.index := by
  cases b <;> rfl

theorem RiskBit.index_lt (b : RiskBit) : b.index < 8 := by cases b <;> decide

theorem RiskBit.index_inj {b c : RiskBit} : b.index = c.index ↔ b = c := by
  cases b <;> cases c <;> decide

theorem RiskBit.exists_index {i : Nat} (h : i < 8) : ∃ b : RiskBit, b.index = i := by
  have hall : ∀ i : Fin 8, ∃ b ∈ all, b.index = i := by decide
  obtain ⟨b, -, hb⟩ := hall ⟨i, h⟩
  exact ⟨b, hb⟩

theorem RiskBit.mem_modelBits {b : RiskBit} : b ∈ modelBits ↔ b.family = .model := by
  cases b <;> decide

namespace RiskMask

theorem contains_eq (m : RiskMask) (b : RiskBit) :
    m.contains b = m.bits.toBitVec.getLsbD b.index := by
  have hand : (m.bits &&& b.mask).toBitVec =
      if m.bits.toBitVec.getLsbD b.index then BitVec.twoPow 8 b.index else 0#8 := by
    rw [UInt8.toBitVec_and, RiskBit.toBitVec_mask, BitVec.and_twoPow]
  have hne : BitVec.twoPow 8 b.index ≠ 0#8 := by cases b <;> decide
  rw [Bool.eq_iff_iff, contains, bne_iff_ne, Ne, ← UInt8.toBitVec_inj, hand]
  split
  · simp_all
  · simp_all

@[simp] theorem contains_clean (b : RiskBit) : clean.contains b = false := by cases b <;> decide

@[simp] theorem contains_union (m n : RiskMask) (b : RiskBit) :
    (m.union n).contains b = (m.contains b || n.contains b) := by
  simp only [contains_eq, union, UInt8.toBitVec_or, BitVec.getLsbD_or]

@[simp] theorem contains_inter (m n : RiskMask) (b : RiskBit) :
    (m.inter n).contains b = (m.contains b && n.contains b) := by
  simp only [contains_eq, inter, UInt8.toBitVec_and, BitVec.getLsbD_and]

@[simp] theorem contains_insert (m : RiskMask) (b c : RiskBit) :
    (m.insert b).contains c = (m.contains c || decide (b = c)) := by
  simp only [contains_eq, insert, UInt8.toBitVec_or, BitVec.getLsbD_or, RiskBit.toBitVec_mask,
    BitVec.getLsbD_twoPow, b.index_lt, decide_true, Bool.true_and, RiskBit.index_inj]

@[simp] theorem contains_erase (m : RiskMask) (b c : RiskBit) :
    (m.erase b).contains c = (m.contains c && !decide (b = c)) := by
  simp only [contains_eq, erase, UInt8.toBitVec_and, UInt8.toBitVec_not, BitVec.getLsbD_and,
    BitVec.getLsbD_not, RiskBit.toBitVec_mask, BitVec.getLsbD_twoPow, b.index_lt, c.index_lt,
    decide_true, Bool.true_and, RiskBit.index_inj]

@[simp] theorem contains_set (m : RiskMask) (b c : RiskBit) (on : Bool) :
    (m.set b on).contains c = if b = c then on else m.contains c := by
  unfold set
  by_cases h : b = c <;> cases on <;> simp [h]

@[simp] theorem contains_only (m : RiskMask) (f : Family) (b : RiskBit) :
    (m.only f).contains b = (m.contains b && decide (b.family = f)) := by
  have hfamily : (familyBits f).contains b = decide (b.family = f) := by
    cases f <;> cases b <;> decide
  rw [only, contains_inter, hfamily]

theorem isClean_iff (m : RiskMask) : m.isClean = true ↔ ∀ b, m.contains b = false := by
  constructor
  · intro h b
    have hm : m = clean := by
      cases m
      exact congrArg RiskMask.mk (beq_iff_eq.mp h)
    rw [hm, contains_clean]
  · intro h
    refine beq_iff_eq.mpr (UInt8.toBitVec_inj.mp (BitVec.eq_of_getLsbD_eq fun i hi => ?_))
    obtain ⟨b, rfl⟩ := RiskBit.exists_index hi
    rw [← contains_eq, h b]
    simp

theorem contains_foldl_inter (m : RiskMask) (votes : List RiskMask) (b : RiskBit) :
    (votes.foldl inter m).contains b = true ↔
      m.contains b = true ∧ ∀ v ∈ votes, v.contains b = true := by
  induction votes generalizing m with
  | nil => simp
  | cons v votes ih => simp [ih, and_assoc]

theorem contains_foldl_union (m : RiskMask) (votes : List RiskMask) (b : RiskBit) :
    (votes.foldl union m).contains b = true ↔
      m.contains b = true ∨ ∃ v ∈ votes, v.contains b = true := by
  induction votes generalizing m with
  | nil => simp
  | cons v votes ih => simp [ih, or_assoc]

theorem contains_combine (votes : List RiskMask) (strict : Bool) (b : RiskBit) :
    (combine votes strict).contains b = true ↔ b.family = .model ∧ votes ≠ [] ∧
      if strict then ∀ v ∈ votes, v.contains b = true else ∃ v ∈ votes, v.contains b = true := by
  cases votes with
  | nil => simp [combine]
  | cons v votes =>
    rw [combine, contains_only]
    cases strict with
    | true => simp [contains_foldl_inter, and_comm]
    | false => simp [contains_foldl_union, and_comm]

theorem ext_contains {m n : RiskMask} (h : ∀ b, m.contains b = n.contains b) : m = n := by
  have hbits : m.bits = n.bits := by
    refine UInt8.toBitVec_inj.mp (BitVec.eq_of_getLsbD_eq fun i hi => ?_)
    obtain ⟨b, rfl⟩ := RiskBit.exists_index hi
    rw [← contains_eq, ← contains_eq, h b]
  cases m
  exact congrArg mk hbits

theorem combine_congr {votes votes' : List RiskMask} (h : ∀ m, m ∈ votes ↔ m ∈ votes')
    (strict : Bool) : combine votes strict = combine votes' strict := by
  have hnil : votes ≠ [] ↔ votes' ≠ [] := by
    simp only [Ne, List.eq_nil_iff_forall_not_mem, h]
  refine ext_contains fun b => Bool.eq_iff_iff.mpr ?_
  simp only [contains_combine, hnil, h]

end RiskMask

end TokenAudit
