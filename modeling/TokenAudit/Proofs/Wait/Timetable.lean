import Mathlib.Data.Nat.Find
import TokenAudit.Budget
import TokenAudit.World

/-! Attempts that stand an interval apart, with requests that are answered at once. Where they stop
is read off which of them decide, and off the instant of the signal. -/

namespace TokenAudit

def Ask.answer {σ α : Type} (request : Ask σ α) (s : σ) : α × σ :=
  let (reply, s) := request s
  reply.draw s

theorem World.ask_prompt {σ κ α : Type} (world : World σ κ) (cancelAt : Option Nat)
    {request : Ask σ α} (h : (request world.state).1.delay = some 0) :
    world.ask ⟨cancelAt, none⟩ request =
      (some (request.answer world.state).1,
        { world with state := (request.answer world.state).2 }) := by
  have hdue : (⟨cancelAt, none⟩ : Window).await world.now (request world.state).1.delay =
      (true, world.now) := by
    rw [h]
    rfl
  rw [World.ask_of_await_true hdue]
  rfl

namespace Draws

variable {σ α : Type} (draw : σ → α × σ)

def stateAfter (s : σ) : Nat → σ
  | 0 => s
  | k + 1 => (draw (stateAfter s k)).2

def heard (s : σ) (k : Nat) : α := (draw (stateAfter draw s k)).1

end Draws

theorem Window.sleep_undisturbed {cancelAt : Option Nat} {now duration : Nat}
    (h : ∀ t, cancelAt = some t → now < t ∧ now + duration ≤ t) :
    (⟨cancelAt, none⟩ : Window).sleep now duration = (.ok, now + duration) := by
  cases cancelAt with
  | none => rfl
  | some t =>
    obtain ⟨hnow, hwake⟩ := h t rfl
    simp [sleep, isCancelled, cutBefore, Nat.not_le_of_lt hnow, Nat.not_lt_of_le hwake]

theorem Window.sleep_disturbed {t now duration : Nat} (h : t ≤ now ∨ t < now + duration) :
    (⟨some t, none⟩ : Window).sleep now duration = (.cancelled, max t now) := by
  by_cases hnow : t ≤ now
  · simp [sleep, isCancelled, hnow]
  · have hmax : max t now = t := Nat.max_eq_left (Nat.le_of_not_le hnow)
    simp [sleep, isCancelled, cutBefore, hnow, h.resolve_left hnow, hmax]

theorem Budget.begin?_ofNat {k : Nat} {maxAttempts : UInt32} (hk : k < maxAttempts.toNat)
    (intervalMs : UInt64) :
    (⟨UInt32.ofNat k, maxAttempts, intervalMs⟩ : Budget).begin? =
      some ⟨UInt32.ofNat (k + 1), maxAttempts, intervalMs⟩ := by
  have hmore : ¬maxAttempts ≤ UInt32.ofNat k := by
    rw [UInt32.le_iff_toNat_le, UInt32.toNat_ofNat_of_lt' (Nat.lt_trans hk maxAttempts.toNat_lt)]
    exact Nat.not_le_of_lt hk
  rw [begin?, if_neg hmore, UInt32.ofNat_add]
  rfl

theorem Budget.isExhausted_ofNat {k : Nat} {maxAttempts : UInt32} (hk : k ≤ maxAttempts.toNat)
    (intervalMs : UInt64) :
    (⟨UInt32.ofNat k, maxAttempts, intervalMs⟩ : Budget).isExhausted = decide (maxAttempts.toNat = k) := by
  rw [isExhausted, decide_eq_decide, UInt32.le_iff_toNat_le,
    UInt32.toNat_ofNat_of_lt' (Nat.lt_of_le_of_lt hk maxAttempts.toNat_lt)]
  exact ⟨fun h => Nat.le_antisymm h hk, Nat.le_of_eq⟩

structure Times where
  start : Nat
  interval : Nat

namespace Times

def dueAt (t : Times) (k : Nat) : Nat := t.start + k * t.interval

theorem dueAt_zero (t : Times) : t.dueAt 0 = t.start := by
  rw [dueAt, Nat.zero_mul, Nat.add_zero]

theorem dueAt_succ (t : Times) (k : Nat) : t.dueAt (k + 1) = t.dueAt k + t.interval := by
  rw [dueAt, dueAt, Nat.succ_mul, Nat.add_assoc]

end Times

structure Timetable extends Times where
  attempts : Nat
  cancelAt : Option Nat

namespace Timetable

/-- The signal fires before the rest after an attempt is over. -/
def Cut (t : Timetable) (k : Nat) : Prop :=
  ∃ instant, t.cancelAt = some instant ∧ (instant ≤ t.dueAt k ∨ instant < t.dueAt (k + 1))

/-- All attempts before this one have decided nothing, and no rest between them is cut off. -/
structure Begins (t : Timetable) (Undecided : Nat → Prop) (k : Nat) : Prop where
  inBudget : k < t.attempts
  undecided : ∀ j < k, Undecided j
  uncut : ∀ j < k, ¬t.Cut j

/-- This many attempts are made in full where each rests ahead of its request: none of them
decides, and no rest of theirs is cut off. -/
structure Passes (t : Timetable) (Undecided : Nat → Prop) (k : Nat) : Prop where
  inBudget : k ≤ t.attempts
  undecided : ∀ j < k, Undecided j
  uncut : ∀ j < k, ¬t.Cut j

variable {t : Timetable} {Undecided : Nat → Prop} {k : Nat}

theorem Begins.before (h : t.Begins Undecided (k + 1)) : t.Begins Undecided k where
  inBudget := Nat.lt_of_succ_lt h.inBudget
  undecided j hj := h.undecided j (Nat.lt_succ_of_lt hj)
  uncut j hj := h.uncut j (Nat.lt_succ_of_lt hj)

theorem sleep_of_uncut (h : ¬t.Cut k) :
    (⟨t.cancelAt, none⟩ : Window).sleep (t.dueAt k) t.interval = (.ok, t.dueAt (k + 1)) := by
  rw [Times.dueAt_succ]
  refine Window.sleep_undisturbed fun instant hi => ?_
  have hno : ¬(instant ≤ t.dueAt k ∨ instant < t.dueAt (k + 1)) := fun hcut => h ⟨instant, hi, hcut⟩
  rw [Times.dueAt_succ] at hno
  exact ⟨Nat.lt_of_not_le fun hle => hno (.inl hle), Nat.le_of_not_lt fun hlt => hno (.inr hlt)⟩

theorem sleep_of_cut {instant : Nat} (hi : t.cancelAt = some instant)
    (h : instant ≤ t.dueAt k ∨ instant < t.dueAt (k + 1)) :
    (⟨t.cancelAt, none⟩ : Window).sleep (t.dueAt k) t.interval =
      (.cancelled, max instant (t.dueAt k)) := by
  rw [Times.dueAt_succ] at h
  rw [hi, Window.sleep_disturbed h]

theorem exists_first (n : Nat) (Stops : Nat → Prop) :
    (∃ k < n, Stops k ∧ ∀ j < k, ¬Stops j) ∨ ∀ k < n, ¬Stops k := by
  classical
  by_cases hex : ∃ k, k < n ∧ Stops k
  · obtain ⟨hin, hstops⟩ := Nat.find_spec hex
    have hfirst : ∀ j < Nat.find hex, ¬Stops j := by
      intro j hj hstop
      exact Nat.find_min hex hj ⟨Nat.lt_trans hj hin, hstop⟩
    exact .inl ⟨Nat.find hex, hin, hstops, hfirst⟩
  · exact .inr fun k hk hstop => hex ⟨k, hk, hstop⟩

theorem exists_stop (t : Timetable) (Undecided : Nat → Prop) :
    (∃ k, t.Begins Undecided k ∧
      (¬Undecided k ∨ Undecided k ∧ k + 1 < t.attempts ∧ t.Cut k)) ∨
    (∀ k < t.attempts, Undecided k) ∧ ∀ k, k + 1 < t.attempts → ¬t.Cut k := by
  obtain ⟨k, hin, hstop, hbefore⟩ | hnone :=
    exists_first t.attempts fun k => ¬Undecided k ∨ k + 1 < t.attempts ∧ t.Cut k
  · have hgoesOn {j : Nat} (hj : j < k) : Undecided j ∧ ¬t.Cut j := by
      have hno := hbefore j hj
      exact ⟨by_contra fun hu => hno (.inl hu),
        fun hc => hno (.inr ⟨Nat.lt_of_le_of_lt hj hin, hc⟩)⟩
    have hbegins : t.Begins Undecided k :=
      ⟨hin, fun j hj => (hgoesOn hj).1, fun j hj => (hgoesOn hj).2⟩
    by_cases hu : Undecided k
    · exact .inl ⟨k, hbegins, .inr ⟨hu, hstop.resolve_left (not_not_intro hu)⟩⟩
    · exact .inl ⟨k, hbegins, .inl hu⟩
  · exact .inr ⟨fun k hk => by_contra fun hu => hnone k hk (.inl hu),
      fun k hk hc => hnone k (Nat.lt_of_succ_lt hk) (.inr ⟨hk, hc⟩)⟩

theorem Passes.before (h : t.Passes Undecided (k + 1)) : t.Passes Undecided k where
  inBudget := Nat.le_of_succ_le h.inBudget
  undecided j hj := h.undecided j (Nat.lt_succ_of_lt hj)
  uncut j hj := h.uncut j (Nat.lt_succ_of_lt hj)

theorem exists_end (t : Timetable) (Undecided : Nat → Prop) :
    (∃ k, t.Passes Undecided k ∧ k < t.attempts ∧ (t.Cut k ∨ ¬t.Cut k ∧ ¬Undecided k)) ∨
    t.Passes Undecided t.attempts := by
  have hgoesOn {j : Nat} (hno : ¬(t.Cut j ∨ ¬Undecided j)) : Undecided j ∧ ¬t.Cut j :=
    ⟨by_contra fun hu => hno (.inr hu), fun hc => hno (.inl hc)⟩
  obtain ⟨k, hin, hstop, hbefore⟩ | hnone :=
    exists_first t.attempts fun k => t.Cut k ∨ ¬Undecided k
  · have hpasses : t.Passes Undecided k :=
      ⟨Nat.le_of_lt hin, fun j hj => (hgoesOn (hbefore j hj)).1,
        fun j hj => (hgoesOn (hbefore j hj)).2⟩
    by_cases hcut : t.Cut k
    · exact .inl ⟨k, hpasses, hin, .inl hcut⟩
    · exact .inl ⟨k, hpasses, hin, .inr ⟨hcut, hstop.resolve_left hcut⟩⟩
  · exact .inr ⟨Nat.le_refl _, fun j hj => (hgoesOn (hnone j hj)).1,
      fun j hj => (hgoesOn (hnone j hj)).2⟩

theorem Begins.fires_within (h : t.Begins Undecided k) {instant : Nat}
    (hi : t.cancelAt = some instant) (hlater : t.start < instant)
    (hcut : instant ≤ t.dueAt k ∨ instant < t.dueAt (k + 1)) :
    t.dueAt k ≤ instant ∧ instant < t.dueAt (k + 1) := by
  cases k with
  | zero =>
    rw [← t.dueAt_zero] at hlater
    exact ⟨Nat.le_of_lt hlater, hcut.resolve_left (Nat.not_le_of_lt hlater)⟩
  | succ k =>
    have hno : ¬(instant ≤ t.dueAt k ∨ instant < t.dueAt (k + 1)) := fun hk =>
      h.uncut k (Nat.lt_succ_self k) ⟨instant, hi, hk⟩
    rw [t.dueAt_succ (k + 1)] at hcut ⊢
    rw [t.dueAt_succ k] at hno hcut ⊢
    omega

end Timetable

end TokenAudit
