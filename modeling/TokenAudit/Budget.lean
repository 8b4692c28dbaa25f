/-! The attempts a polling loop may make. -/

namespace TokenAudit

structure Budget where
  attempts : UInt32
  maxAttempts : UInt32
  intervalMs : UInt64
  deriving DecidableEq, Repr

namespace Budget

def fresh (maxAttempts : UInt32) (intervalMs : UInt64) : Budget := ⟨0, maxAttempts, intervalMs⟩

def begin? (b : Budget) : Option Budget :=
  if b.maxAttempts ≤ b.attempts then none else some { b with attempts := b.attempts + 1 }

def isExhausted (b : Budget) : Bool := decide (b.maxAttempts ≤ b.attempts)

def remaining (b : Budget) : Nat := b.maxAttempts.toNat - b.attempts.toNat

def run (b : Budget) : Nat → Budget × List Bool
  | 0 => (b, [])
  | n + 1 =>
    match b.begin? with
    | none => let (c, began) := run b n; (c, false :: began)
    | some b' => let (c, began) := run b' n; (c, true :: began)

theorem attempts_of_begin? {b c : Budget} (h : b.begin? = some c) :
    b.attempts.toNat < b.maxAttempts.toNat ∧ c.attempts.toNat = b.attempts.toNat + 1 ∧
      c.maxAttempts = b.maxAttempts ∧ c.intervalMs = b.intervalMs := by
  unfold begin? at h
  split at h
  · cases h
  · rename_i hmore
    cases h
    rw [UInt32.le_iff_toNat_le, Nat.not_le] at hmore
    have hmax := b.maxAttempts.toNat_lt
    refine ⟨hmore, ?_, rfl, rfl⟩
    simp only [UInt32.toNat_add, UInt32.reduceToNat]
    omega

theorem remaining_of_begin? {b c : Budget} (h : b.begin? = some c) :
    b.remaining = c.remaining + 1 := by
  obtain ⟨hmore, hattempts, hmax, -⟩ := attempts_of_begin? h
  rw [remaining, remaining, hattempts, hmax]
  omega

theorem begin?_eq_none_iff (b : Budget) : b.begin? = none ↔ b.isExhausted = true := by
  unfold begin? isExhausted
  split <;> simp_all

end Budget

end TokenAudit
