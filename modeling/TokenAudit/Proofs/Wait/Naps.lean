import Mathlib.Algebra.Ring.Nat
import TokenAudit.Proofs.Wait.Timetable
import TokenAudit.Wait.Sleeper

/-! Sleeps one after another, and the instant of the cancellation among them: each is slept to its
end or cut off, and what is cut off once is cut off for good. -/

namespace TokenAudit

inductive Nap.Follows (cancelledAt : Option Nat) : Nap → Prop where
  | undisturbed (begun duration : Nat) (reported : Bool)
      (h : ∀ t, cancelledAt = some t → begun + duration ≤ t)
      (hr : reported = true → cancelledAt = some (begun + duration)) :
    Follows cancelledAt ⟨begun, duration, .ok, begun + duration, reported⟩
  | cut (begun duration t : Nat) (h : cancelledAt = some t) (ht : t ≤ begun + duration) :
    Follows cancelledAt ⟨begun, duration, .cancelled, max begun t, true⟩

/-- A sleep is cut off by a cancellation that has come before its end, and goes to its end
otherwise. -/
structure Nap.Punctual (cancelledAt : Option Nat) (n : Nap) : Prop where
  cut : ∀ t, cancelledAt = some t → t ≤ n.begun + n.duration →
    n.woken = .cancelled ∧ n.ended = max n.begun t ∧ n.reported = true
  undisturbed : (∀ t, cancelledAt = some t → n.begun + n.duration < t) →
    n.woken = .ok ∧ n.ended = n.begun + n.duration ∧ n.reported = false

/-- A sleep after one that was cut off is cut off as well, in no time. -/
def Nap.Resigns (m n : Nap) : Prop :=
  m.woken = .cancelled → n.woken = .cancelled ∧ n.ended = m.ended ∧ n.reported = true

theorem Nap.Follows.punctual_of_cancelled {cancelledAt : Option Nat} {n : Nap}
    (h : n.Follows cancelledAt) (hcut : n.woken = .cancelled) : n.Punctual cancelledAt := by
  cases h with
  | undisturbed => cases hcut
  | cut begun duration t ht hle =>
    refine ⟨fun t' ht' _ => ?_, fun hlater => absurd hle (Nat.not_le_of_lt (hlater t ht))⟩
    cases ht.symm.trans ht'
    exact ⟨rfl, rfl, rfl⟩

theorem Nap.Follows.punctual_of_ok {cancelledAt : Option Nat} {n : Nap}
    (h : n.Follows cancelledAt) (hok : n.woken = .ok)
    (hne : cancelledAt ≠ some (n.begun + n.duration)) : n.Punctual cancelledAt := by
  cases h with
  | cut => cases hok
  | undisturbed begun duration reported hlater hrep =>
    refine ⟨fun t ht hle => ?_, fun _ => ⟨rfl, rfl, Bool.eq_false_iff.mpr fun hr => hne (hrep hr)⟩⟩
    exact absurd (Nat.le_antisymm hle (hlater t ht) ▸ ht) hne

namespace Naps

def Chained : Nat → List Nap → Prop
  | _, [] => True
  | a, n :: ns => n.begun = a ∧ Chained n.ended ns

def lastEnd (a : Nat) : List Nap → Nat
  | [] => a
  | n :: ns => lastEnd n.ended ns

def wakeUps : Nat → List Nat → List Nat
  | _, [] => []
  | a, d :: ds => (a + d) :: wakeUps (a + d) ds

theorem lastEnd_concat (a : Nat) (ns : List Nap) (n : Nap) : lastEnd a (ns ++ [n]) = n.ended := by
  induction ns generalizing a with
  | nil => rfl
  | cons m ns ih => exact ih m.ended

theorem chained_concat (a : Nat) (ns : List Nap) (n : Nap) :
    Chained a (ns ++ [n]) ↔ Chained a ns ∧ n.begun = lastEnd a ns := by
  induction ns generalizing a with
  | nil => simp [Chained, lastEnd]
  | cons m ns ih => rw [List.cons_append, Chained, Chained, lastEnd, ih, and_assoc]

theorem mem_wakeUps_append {t a : Nat} {ds es : List Nat} (h : t ∈ wakeUps a ds) :
    t ∈ wakeUps a (ds ++ es) := by
  induction ds generalizing a with
  | nil => cases h
  | cons d ds ih =>
    rw [wakeUps, List.mem_cons] at h
    exact List.mem_cons.mpr (h.imp_right ih)

theorem lastEnd_undisturbed {a : Nat} {ns : List Nap} (hc : Chained a ns)
    (hf : ∀ n ∈ ns, n.Follows none) : lastEnd a ns = a + (ns.map Nap.duration).sum := by
  induction ns generalizing a with
  | nil => rfl
  | cons n ns ih =>
    obtain ⟨hn, hns⟩ := List.forall_mem_cons.mp hf
    cases hn with
    | undisturbed begun duration =>
      obtain ⟨rfl, hc⟩ := hc
      rw [lastEnd, ih hc hns, List.map_cons, List.sum_cons, Nat.add_assoc]
    | cut _ _ t h => cases h

def outcome (n : Nap) : Woken × Nat := (n.woken, n.ended)

theorem sleeps_resigned {t a : Nat} (ht : t ≤ a) {ns : List Nap}
    (h : ∀ n ∈ ns, n.woken = .cancelled ∧ n.ended = a) :
    ns.map outcome = (⟨some t, none⟩ : Window).sleeps a (ns.map Nap.duration) := by
  induction ns with
  | nil => rfl
  | cons n ns ih =>
    obtain ⟨⟨hwoken, hended⟩, hns⟩ := List.forall_mem_cons.mp h
    rw [List.map_cons, List.map_cons, Window.sleeps, Window.sleep_disturbed (.inl ht),
      Nat.max_eq_right ht, ← ih hns, outcome, hwoken, hended]

theorem sleeps_follow {cancelledAt : Option Nat} {a : Nat} {ns : List Nap} (hc : Chained a ns)
    (hf : ∀ n ∈ ns, n.Follows cancelledAt) (hr : ns.Pairwise Nap.Resigns)
    (hw : ∀ t, cancelledAt = some t → t ∉ wakeUps a (ns.map Nap.duration)) :
    ns.map outcome = (⟨cancelledAt, none⟩ : Window).sleeps a (ns.map Nap.duration) ∧
      ∀ n ∈ ns, n.Punctual cancelledAt := by
  induction ns generalizing a with
  | nil => exact ⟨rfl, nofun⟩
  | cons n ns ih =>
    obtain ⟨hfollows, hns⟩ := List.forall_mem_cons.mp hf
    obtain ⟨hresigns, hrest⟩ := List.pairwise_cons.mp hr
    obtain ⟨rfl, hc⟩ := hc
    have hne : cancelledAt ≠ some (n.begun + n.duration) := fun ht =>
      hw _ ht List.mem_cons_self
    have hn := hfollows
    cases hn with
    | undisturbed begun duration reported hlater hrep =>
      have hundisturbed : ∀ t, cancelledAt = some t → begun < t ∧ begun + duration ≤ t := by
        intro t ht
        have hlt : begun + duration < t := Nat.lt_of_le_of_ne (hlater t ht) fun h => hne (h ▸ ht)
        exact ⟨Nat.lt_of_le_of_lt (Nat.le_add_right _ _) hlt, hlater t ht⟩
      obtain ⟨hout, hpunctual⟩ :=
        ih hc hns hrest fun t ht hmem => hw t ht (List.mem_cons_of_mem _ hmem)
      refine ⟨?_, List.forall_mem_cons.mpr ⟨hfollows.punctual_of_ok rfl hne, hpunctual⟩⟩
      rw [List.map_cons, hout, List.map_cons, Window.sleeps, Window.sleep_undisturbed hundisturbed]
      rfl
    | cut begun duration t ht hle =>
      have hlt : t < begun + duration := Nat.lt_of_le_of_ne hle fun h => hne (h ▸ ht)
      have hcut : ∀ m ∈ ns, m.woken = .cancelled ∧ m.ended = max begun t := fun m hm =>
        ⟨(hresigns m hm rfl).1, (hresigns m hm rfl).2.1⟩
      refine ⟨?_, List.forall_mem_cons.mpr ⟨hfollows.punctual_of_cancelled rfl, ?_⟩⟩
      · rw [List.map_cons, List.map_cons, Window.sleeps, ht, Window.sleep_disturbed (.inr hlt),
          Nat.max_comm t begun, ← sleeps_resigned (Nat.le_max_right begun t) hcut]
        rfl
      -- Sleeps after the cut need no timer, so no wake-up of theirs can meet the cancellation.
      · exact fun m hm => (hns m hm).punctual_of_cancelled (hcut m hm).1

end Naps

end TokenAudit
