import TokenAudit.Proofs.Wait.Naps
import TokenAudit.Proofs.Wait.Reporting

/-! A sleeping task from move to move. The clock cannot leave the instant of a cancellation before
the sleeper has seen it, and no sleeper waits for anything but its timer once the owner is gone. -/

namespace TokenAudit

namespace CancelScope

variable {s : CancelScope} {w : Watch}

theorem mem_signals_act {i : Nat} {a : Act} (hi : i ∈ s.signals) (ha : a ≠ .drop i) :
    i ∈ (s.act a).signals := by
  cases a with
  | subscribe => by_cases ho : s.owned = true <;> simp [act, addSignal, ho, hi]
  | clone j => by_cases hj : j ∈ s.signals <;> simp [act, addSignal, hj, hi]
  | drop j =>
    have hne : i ≠ j := fun h => ha (h ▸ rfl)
    simp [act, hi, hne]
  | cancel =>
    have hsome : s.signals ≠ [] := List.ne_nil_of_mem hi
    by_cases ho : s.owned = true <;> simp [act, cancel, ho, hsome, hi]
  | release => exact hi

theorem stores_act (s : CancelScope) (a : Act) :
    ((s.act a).stores = s.stores ∧ (s.act a).fired = s.fired) ∨ s.stores < (s.act a).stores := by
  cases a with
  | subscribe => by_cases ho : s.owned = true <;> simp [act, addSignal, ho]
  | clone i => by_cases hi : i ∈ s.signals <;> simp [act, addSignal, hi]
  | drop i => simp [act]
  | cancel =>
    by_cases ho : s.owned = true
    · by_cases hs : s.signals = [] <;> simp [act, cancel, ho, hs]
    · simp [act, ho]
  | release => simp [act]

theorem owned_act (ho : s.owned = false) (a : Act) : (s.act a).owned = false := by
  cases a with
  | clone i => by_cases hi : i ∈ s.signals <;> simp [act, addSignal, hi, ho]
  | _ => simp [act, ho]

/-- A watcher has missed nothing: no cancellation was there at its last look, and none can come any
more if it has stopped looking. -/
inductive Watches (s : CancelScope) : Watch → Prop where
  | since (n : Nat) (hle : n ≤ s.stores) (h : s.stores = n → s.fired = false) :
    Watches s (.since n)
  | deaf (ho : s.owned = false) (hf : s.fired = false) : Watches s .deaf

theorem Watches.act (h : s.Watches w) (a : Act) : (s.act a).Watches w := by
  cases h with
  | since n hle hf =>
    obtain ⟨hstores, hfired⟩ | hlt := stores_act s a
    · exact .since n (hstores ▸ hle) fun h => hfired.trans (hf (hstores.symm.trans h))
    · exact .since n (Nat.le_of_lt (Nat.lt_of_le_of_lt hle hlt))
        fun h => absurd (Nat.lt_of_le_of_lt hle hlt) (Nat.not_lt_of_le (Nat.le_of_eq h))
  | deaf ho hf =>
    refine .deaf (owned_act ho a) (Bool.eq_false_iff.mpr fun h => ?_)
    obtain hfired | ⟨-, hheeded⟩ := (fired_act_iff s a).mp h
    · exact absurd (hf.symm.trans hfired) nofun
    · exact absurd (ho.symm.trans hheeded.1) nofun

inductive Finds (s : CancelScope) : Option Watch → Prop where
  | cancelled (h : s.fired = true) : Finds s none
  | quiet (w : Watch) (hf : s.fired = false) (hw : s.Watches w) (hstays : s.rouse? w = some w) :
    Finds s (some w)

theorem finds_look? (s : CancelScope) : s.Finds s.look? := by
  cases hf : s.fired with
  | true =>
    have hlook : s.look? = none := if_pos hf
    exact hlook ▸ .cancelled hf
  | false =>
    cases ho : s.owned with
    | true =>
      have hlook : s.look? = some (.since s.stores) := by simp [look?, hf, ho]
      exact hlook ▸ .quiet _ hf (.since _ (Nat.le_refl _) fun _ => hf) (by simp [rouse?, ho])
    | false =>
      have hlook : s.look? = some .deaf := by simp [look?, hf, ho]
      exact hlook ▸ .quiet _ hf (.deaf ho hf) rfl

theorem Watches.finds_rouse? (h : s.Watches w) : s.Finds (s.rouse? w) := by
  cases h with
  | deaf ho hf => exact .quiet .deaf hf (.deaf ho hf) rfl
  | since n hle hf =>
    by_cases hn : s.stores = n
    · cases ho : s.owned with
      | true =>
        have hrouse : s.rouse? (.since n) = some (.since n) := by simp [rouse?, hn, ho]
        exact hrouse ▸ .quiet _ (hf hn) (.since n hle hf) hrouse
      | false =>
        have hrouse : s.rouse? (.since n) = some .deaf := by simp [rouse?, hn, ho]
        exact hrouse ▸ .quiet _ (hf hn) (.deaf ho (hf hn)) rfl
    · have hrouse : s.rouse? (.since n) = s.look? := if_pos hn
      exact hrouse ▸ finds_look? s

end CancelScope

namespace Sleeper

open Naps

/-! ### Invariants -/

/-- Of a task that is to sleep `durations` from `instant` on: what its sleeps so far have come to. -/
structure Kept (instant : Nat) (durations : List Nat) (u : Sleeper) : Prop where
  observed : u.signal ∈ u.scope.signals
  fired_iff : u.scope.fired = true ↔ ∃ t, u.cancelledAt = some t
  past : ∀ t, u.cancelledAt = some t → t ≤ u.now
  split : u.naps.map Nap.duration ++ u.ahead = durations
  chained : Chained instant u.naps
  follows : ∀ n ∈ u.naps, n.Follows u.cancelledAt ∧ n.ended ≤ u.now
  resigned : u.naps.Pairwise Nap.Resigns

/-- A sleep is under way, which no earlier cancellation has prevented. The instant of one that has
come meanwhile is not over. -/
structure UnderWay (instant wake : Nat) (u : Sleeper) : Prop where
  due : ∃ d ds, u.ahead = d :: ds ∧ wake = u.begun + d
  follows : u.begun = lastEnd instant u.naps
  undisturbed : ∀ n ∈ u.naps, n.woken ≠ .cancelled
  begun_le : u.begun ≤ u.now
  le_wake : u.now ≤ wake
  timely : ∀ t, u.cancelledAt = some t → u.begun ≤ t ∧ t = u.now

def Staged (instant : Nat) (u : Sleeper) : Prop :=
  match u.stage with
  | .idle t => t = instant ∧ u.now ≤ instant ∧ u.naps = []
  | .ready => u.now = lastEnd instant u.naps ∧ ∀ n ∈ u.naps, n.woken = .cancelled → n.ended = u.now
  | .asked wake => u.UnderWay instant wake
  | .watching w wake => u.UnderWay instant wake ∧ u.scope.Watches w

structure Sound (instant : Nat) (durations : List Nat) (u : Sleeper) : Prop where
  kept : u.Kept instant durations
  staged : u.Staged instant

theorem sound_start (origin : Origin) (instant : Nat) (durations : List Nat) :
    (start origin instant durations).Sound instant durations := by
  have hscope : origin.scope.fired = false ∧ origin.signal ∈ origin.scope.signals := by
    cases origin <;> decide
  refine ⟨⟨hscope.2, ?_, nofun, rfl, trivial, nofun, .nil⟩, rfl, Nat.zero_le _, rfl⟩
  exact ⟨fun h => absurd (hscope.1.symm.trans h) nofun, nofun⟩

variable {instant : Nat} {durations : List Nat} {u v : Sleeper}

theorem Kept.restaged (h : u.Kept instant durations) (stage : Stage) (begun : Nat) :
    Kept instant durations { u with stage := stage, begun := begun } :=
  ⟨h.observed, h.fired_iff, h.past, h.split, h.chained, h.follows, h.resigned⟩

/-! ### Ends of sleeps -/

theorem Kept.finish (h : u.Kept instant durations) {d : Nat} {ds : List Nat}
    (hahead : u.ahead = d :: ds) (hbegun : u.begun = lastEnd instant u.naps) (woken : Woken)
    (hf : Nap.Follows u.cancelledAt ⟨u.begun, d, woken, u.now, u.scope.fired⟩)
    (hr : ∀ m ∈ u.naps, m.Resigns ⟨u.begun, d, woken, u.now, u.scope.fired⟩) :
    (u.finish woken).Sound instant durations := by
  have heq : u.finish woken =
      { u with
        stage := .ready
        ahead := ds
        naps := u.naps ++ [⟨u.begun, d, woken, u.now, u.scope.fired⟩] } := by
    simp only [Sleeper.finish, hahead]
  rw [heq]
  refine ⟨⟨h.observed, h.fired_iff, h.past, ?_, ?_, ?_, ?_⟩, ?_, ?_⟩
  · rw [← h.split, hahead, List.map_append, List.append_assoc]
    rfl
  · exact (chained_concat _ _ _).mpr ⟨h.chained, hbegun⟩
  · intro n hn
    obtain hn | hn := List.mem_append.mp hn
    · exact h.follows n hn
    · obtain rfl := List.mem_singleton.mp hn
      exact ⟨hf, Nat.le_refl _⟩
  · refine List.pairwise_append.mpr ⟨h.resigned, List.pairwise_singleton _ _, fun m hm n hn => ?_⟩
    obtain rfl := List.mem_singleton.mp hn
    exact hr m hm
  · exact (lastEnd_concat instant u.naps ⟨u.begun, d, woken, u.now, u.scope.fired⟩).symm
  · intro n hn hcut
    obtain hn | hn := List.mem_append.mp hn
    · exact (hr n hn hcut).2.1.symm
    · obtain rfl := List.mem_singleton.mp hn
      rfl

theorem UnderWay.settle {wake : Nat} (h : u.Kept instant durations) (hu : u.UnderWay instant wake)
    {found : Option Watch} (hfound : u.scope.Finds found) :
    (u.settle wake found).Sound instant durations := by
  -- A look ends the sleep with the cancellation or with the timer, or lets it go on.
  obtain ⟨d, ds, hahead, rfl⟩ := hu.due
  cases hfound with
  | cancelled hfired =>
    obtain ⟨t, ht⟩ := h.fired_iff.mp hfired
    obtain ⟨hbegun, rfl⟩ := hu.timely t ht
    refine h.finish hahead hu.follows .cancelled ?_ fun m hm hcut => absurd hcut (hu.undisturbed m hm)
    have hcut := Nap.Follows.cut u.begun d u.now ht hu.le_wake
    rw [Nat.max_eq_right hbegun] at hcut
    exact hfired ▸ hcut
  | quiet w hunfired hw hstays =>
    have hnone : ∀ t, u.cancelledAt ≠ some t := fun t ht =>
      absurd (hunfired.symm.trans (h.fired_iff.mpr ⟨t, ht⟩)) nofun
    by_cases hover : u.begun + d ≤ u.now
    · have hend : u.now = u.begun + d := Nat.le_antisymm hu.le_wake hover
      have hset : u.settle (u.begun + d) (some w) = u.finish .ok := if_pos hover
      rw [hset]
      refine h.finish hahead hu.follows .ok ?_ fun m hm hcut => absurd hcut (hu.undisturbed m hm)
      rw [hunfired, hend]
      exact .undisturbed u.begun d false (fun t ht => absurd ht (hnone t)) nofun
    · have hset : u.settle (u.begun + d) (some w) =
          { u with stage := .watching w (u.begun + d) } := if_neg hover
      rw [hset]
      exact ⟨h.restaged _ u.begun,
        ⟨hu.due, hu.follows, hu.undisturbed, hu.begun_le, hu.le_wake, hu.timely⟩, hw⟩

/-! ### Moves -/

theorem cancelledAt_act (u : Sleeper) (a : CancelScope.Act) :
    (u.act a).cancelledAt = u.cancelledAt ∨
      u.cancelledAt = none ∧ (u.act a).cancelledAt = some u.now := by
  by_cases h : a = .cancel ∧ u.scope.owned = true ∧ u.cancelledAt = none
  · exact .inr ⟨h.2.2, if_pos h⟩
  · exact .inl (if_neg h)

theorem follows_act {n : Nap} (hn : n.Follows u.cancelledAt) (hended : n.ended ≤ u.now)
    (a : CancelScope.Act) : n.Follows (u.act a).cancelledAt := by
  -- A first cancellation comes after every sleep that is over.
  obtain hsame | ⟨hnone, hnow⟩ := cancelledAt_act u a
  · exact hsame ▸ hn
  · rw [hnow]
    cases hn with
    | undisturbed begun duration reported h hr =>
      refine .undisturbed begun duration reported ?_ fun hrep => absurd (hr hrep) (hnone ▸ nofun)
      rintro t ⟨⟩
      exact hended
    | cut begun duration t h => exact absurd h (hnone ▸ nofun)

theorem fired_act_iff (h : u.Kept instant durations) (a : CancelScope.Act) :
    (u.act a).scope.fired = true ↔ ∃ t, (u.act a).cancelledAt = some t := by
  have hheeded : u.scope.Heeded ↔ u.scope.owned = true :=
    and_iff_left (List.ne_nil_of_mem h.observed)
  have hact : (u.act a).scope.fired = true ↔
      u.scope.fired = true ∨ a = .cancel ∧ u.scope.owned = true := by
    rw [← hheeded]
    exact CancelScope.fired_act_iff u.scope a
  rw [hact, h.fired_iff]
  by_cases hc : a = .cancel ∧ u.scope.owned = true ∧ u.cancelledAt = none
  · have hnow : (u.act a).cancelledAt = some u.now := if_pos hc
    exact iff_of_true (.inr ⟨hc.1, hc.2.1⟩) ⟨u.now, hnow⟩
  · have hsame : (u.act a).cancelledAt = u.cancelledAt := if_neg hc
    rw [hsame]
    refine or_iff_left_of_imp fun ⟨ha, ho⟩ => ?_
    exact Option.ne_none_iff_exists'.mp fun hnone => hc ⟨ha, ho, hnone⟩

theorem UnderWay.act {wake : Nat} (h : u.UnderWay instant wake) (a : CancelScope.Act) :
    (u.act a).UnderWay instant wake := by
  refine ⟨h.due, h.follows, h.undisturbed, h.begun_le, h.le_wake, fun t ht => ?_⟩
  obtain hsame | ⟨-, hnow⟩ := cancelledAt_act u a
  · exact h.timely t (hsame.symm.trans ht)
  · cases hnow.symm.trans ht
    exact ⟨h.begun_le, rfl⟩

theorem Sound.act (hs : u.Sound instant durations) {a : CancelScope.Act} (ha : a ≠ .drop u.signal) :
    (u.act a).Sound instant durations := by
  obtain ⟨h, hstage⟩ := hs
  refine ⟨⟨CancelScope.mem_signals_act h.observed ha, fired_act_iff h a, fun t ht => ?_, h.split,
    h.chained, fun n hn => ?_, h.resigned⟩, ?_⟩
  · obtain hsame | ⟨-, hnow⟩ := cancelledAt_act u a
    · exact h.past t (hsame.symm.trans ht)
    · cases hnow.symm.trans ht
      exact Nat.le_refl _
  · obtain ⟨hf, hended⟩ := h.follows n hn
    exact ⟨follows_act hf hended a, hended⟩
  · have hsame : (u.act a).stage = u.stage := rfl
    unfold Staged at hstage ⊢
    rw [hsame]
    cases hst : u.stage with
    | idle t =>
      rw [hst] at hstage
      exact hstage
    | ready =>
      rw [hst] at hstage
      exact hstage
    | asked wake =>
      rw [hst] at hstage
      exact UnderWay.act hstage a
    | watching w wake =>
      rw [hst] at hstage
      exact ⟨hstage.1.act a, hstage.2.act a⟩

theorem Kept.ask (h : u.Kept instant durations) (hnow : u.now = lastEnd instant u.naps)
    (hcut : ∀ n ∈ u.naps, n.woken = .cancelled → n.ended = u.now) {d : Nat} {ds : List Nat}
    (hahead : u.ahead = d :: ds) : (u.ask d).Sound instant durations := by
  -- A sleep after the cancellation ends where it begins, like those before it that were cut off.
  have hbegun : Kept instant durations { u with begun := u.now } := h.restaged u.stage u.now
  by_cases hfired : u.scope.fired = true
  · have hask : u.ask d = { u with begun := u.now }.finish .cancelled := if_pos hfired
    rw [hask]
    obtain ⟨t, ht⟩ := h.fired_iff.mp hfired
    refine hbegun.finish hahead hnow .cancelled ?_
      fun m hm hm' => ⟨rfl, (hcut m hm hm').symm, hfired⟩
    have hfollows := Nap.Follows.cut u.now d t ht (Nat.le_add_right_of_le (h.past t ht))
    rw [Nat.max_eq_left (h.past t ht)] at hfollows
    exact hfired ▸ hfollows
  · have hask : u.ask d = { u with begun := u.now, stage := .asked (u.now + d) } := if_neg hfired
    rw [hask]
    have hnone : ∀ t, u.cancelledAt ≠ some t := fun t ht => hfired (h.fired_iff.mpr ⟨t, ht⟩)
    refine ⟨h.restaged _ u.now, ⟨d, ds, hahead, rfl⟩, hnow, fun n hn hn' => ?_, Nat.le_refl _,
      Nat.le_add_right _ _, fun t ht => absurd ht (hnone t)⟩
    have hf := (h.follows n hn).1
    cases hf with
    | undisturbed => cases hn'
    | cut _ _ t ht => exact hnone t ht

theorem Sound.poll (hs : u.Sound instant durations) (hv : u.poll? = some v) :
    v.Sound instant durations := by
  obtain ⟨h, hstage⟩ := hs
  unfold Staged at hstage
  unfold poll? at hv
  split at hv
  case h_1 t hst =>
    simp only [hst] at hstage
    obtain ⟨rfl, -, hnaps⟩ := hstage
    obtain ⟨hnow, rfl⟩ : u.now = t ∧ { u with stage := .ready } = v := by simpa using hv
    refine ⟨h.restaged .ready u.begun, ?_, ?_⟩
    · show u.now = lastEnd t u.naps
      rw [hnaps]
      exact hnow
    · intro n hn
      rw [hnaps] at hn
      cases hn
  case h_2 hst =>
    simp only [hst] at hstage
    split at hv
    case h_1 => cases hv
    case h_2 d ds hahead =>
      cases hv
      exact h.ask hstage.1 hstage.2 hahead
  case h_3 wake hst =>
    simp only [hst] at hstage
    cases hv
    exact hstage.settle h u.scope.finds_look?
  case h_4 w wake hst =>
    simp only [hst] at hstage
    obtain ⟨-, rfl⟩ : _ ∧ u.settle wake (u.scope.rouse? w) = v := by simpa using hv
    exact hstage.1.settle h hstage.2.finds_rouse?

theorem Sound.pass (hs : u.Sound instant durations) {t : Nat} (ht : u.now < t)
    (hle : t ≤ u.horizon) : Sound instant durations { u with now := t } := by
  obtain ⟨h, hstage⟩ := hs
  refine ⟨⟨h.observed, h.fired_iff, fun t' ht' => ?_, h.split, h.chained, fun n hn => ?_,
    h.resigned⟩, ?_⟩
  · exact Nat.le_of_lt (Nat.lt_of_le_of_lt (h.past t' ht') ht)
  · obtain ⟨hf, hended⟩ := h.follows n hn
    exact ⟨hf, Nat.le_of_lt (Nat.lt_of_le_of_lt hended ht)⟩
  · unfold Staged at hstage ⊢
    unfold horizon at hle
    cases hst : u.stage with
    | idle t' =>
      simp only [hst] at hstage hle ⊢
      exact ⟨hstage.1, hstage.1 ▸ hle, hstage.2.2⟩
    | ready =>
      simp only [hst] at hle
      exact absurd ht (Nat.not_lt_of_le hle)
    | asked wake =>
      simp only [hst] at hle
      exact absurd ht (Nat.not_lt_of_le hle)
    | watching w wake =>
      simp only [hst] at hstage hle ⊢
      obtain ⟨hu, hw⟩ := hstage
      by_cases hstill : u.scope.rouse? w = some w
      · rw [if_pos hstill] at hle
        have hfound := hw.finds_rouse?
        rw [hstill] at hfound
        cases hfound with
        | quiet _ hunfired =>
          refine ⟨⟨hu.due, hu.follows, hu.undisturbed, Nat.le_of_lt (Nat.lt_of_le_of_lt hu.begun_le ht),
            hle, fun t' ht' => ?_⟩, hw⟩
          exact absurd (hunfired.symm.trans (h.fired_iff.mpr ⟨t', ht'⟩)) nofun
      · rw [if_neg hstill] at hle
        exact absurd ht (Nat.not_lt_of_le hle)

theorem Sound.move (hs : u.Sound instant durations) {m : Move} (hv : u.move? m = some v) :
    v.Sound instant durations := by
  cases m with
  | act a =>
    obtain ⟨ha, rfl⟩ : a ≠ .drop u.signal ∧ u.act a = v := by simpa [move?] using hv
    exact hs.act ha
  | poll => exact hs.poll hv
  | pass t =>
    obtain ⟨⟨ht, hle⟩, rfl⟩ : (u.now < t ∧ t ≤ u.horizon) ∧ { u with now := t } = v := by
      simpa [move?] using hv
    exact hs.pass ht hle

theorem Sound.run (hs : u.Sound instant durations) {ms : List Move} (hv : u.run? ms = some v) :
    v.Sound instant durations := by
  induction ms generalizing u with
  | nil => exact Option.some.inj hv ▸ hs
  | cons m ms ih =>
    obtain ⟨w, hw, hv⟩ := Option.bind_eq_some_iff.mp hv
    exact ih (hs.move hw) hv

end Sleeper

end TokenAudit
