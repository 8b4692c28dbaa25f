import TokenAudit.Proofs.Wait.Sleeping

/-! A whole sequence of sleeps. It goes on to its end in a bounded number of steps, and the instant
of the cancellation alone decides what each sleep comes to. -/

namespace TokenAudit.Sleeper

open Naps

variable {instant : Nat} {durations : List Nat} {u v : Sleeper}

def Finished (u : Sleeper) : Prop := u.stage = .ready ∧ u.ahead = []

def Move.isOwn : Move → Bool
  | .act _ => false
  | _ => true

theorem Sound.progress (hs : u.Sound instant durations) (h : ¬u.Finished) :
    ∃ m : Move, m.isOwn = true ∧ (u.move? m).isSome = true := by
  have hstage := hs.staged
  unfold Staged at hstage
  cases hst : u.stage with
  | idle t =>
    simp only [hst] at hstage
    by_cases hnow : u.now = t
    · exact ⟨.poll, rfl, by simp [move?, poll?, hst, hnow]⟩
    · have hlt : u.now < t := Nat.lt_of_le_of_ne (hstage.1 ▸ hstage.2.1) hnow
      exact ⟨.pass t, rfl, by simp [move?, horizon, hst, hlt]⟩
  | ready =>
    cases hahead : u.ahead with
    | nil => exact absurd ⟨hst, hahead⟩ h
    | cons d ds => exact ⟨.poll, rfl, by simp [move?, poll?, hst, hahead]⟩
  | asked wake => exact ⟨.poll, rfl, by simp [move?, poll?, hst]⟩
  | watching w wake =>
    by_cases hstill : u.scope.rouse? w = some w ∧ u.now < wake
    · exact ⟨.pass wake, rfl, by simp [move?, horizon, hst, hstill]⟩
    · exact ⟨.poll, rfl, by simp only [move?, poll?, hst, if_neg hstill, Option.isSome_some]⟩

/-! ### What is left to do -/

def cost (durations : List Nat) : Nat := (durations.map (· + 3)).sum

def toGo (u : Sleeper) : Nat :=
  match u.stage with
  | .idle t => t - u.now + 1 + cost u.ahead
  | .ready => cost u.ahead
  | .asked wake => wake - u.now + 2 + cost u.ahead.tail
  | .watching w wake =>
    wake - u.now + 1 + (if u.scope.rouse? w = some w then 0 else 1) + cost u.ahead.tail

theorem toGo_finish {d : Nat} {ds : List Nat} (hahead : u.ahead = d :: ds) (woken : Woken) :
    (u.finish woken).toGo = cost ds := by
  simp only [finish, hahead, toGo]

theorem toGo_settle {d wake : Nat} {ds : List Nat} (hahead : u.ahead = d :: ds)
    {found : Option Watch} (hfound : u.scope.Finds found) :
    (u.settle wake found).toGo =
      if found = none ∨ wake ≤ u.now then cost ds else wake - u.now + 1 + cost ds := by
  cases hfound with
  | cancelled =>
    rw [if_pos (.inl rfl)]
    exact toGo_finish hahead .cancelled
  | quiet w _ _ hstays =>
    by_cases hover : wake ≤ u.now
    · have hset : u.settle wake (some w) = u.finish .ok := if_pos hover
      rw [hset, if_pos (.inr hover), toGo_finish hahead .ok]
    · have hset : u.settle wake (some w) = { u with stage := .watching w wake } := if_neg hover
      rw [hset, if_neg (by simp [hover])]
      simp [toGo, hstays, hahead]

theorem Sound.toGo_poll (hs : u.Sound instant durations) (hv : u.poll? = some v) :
    v.toGo < u.toGo := by
  have hstage := hs.staged
  unfold Staged at hstage
  unfold poll? at hv
  split at hv
  case h_1 t hst =>
    obtain ⟨-, rfl⟩ : u.now = t ∧ { u with stage := .ready } = v := by simpa using hv
    simp only [toGo, hst]
    omega
  case h_2 hst =>
    split at hv
    case h_1 => cases hv
    case h_2 d ds hahead =>
      cases hv
      have hready : u.toGo = d + 3 + cost ds := by simp [toGo, hst, hahead, cost]
      by_cases hfired : u.scope.fired = true
      · have hask : u.ask d = { u with begun := u.now }.finish .cancelled := if_pos hfired
        have hlast : (u.ask d).toGo = cost ds := by
          rw [hask]
          exact toGo_finish (u := { u with begun := u.now }) hahead .cancelled
        rw [hlast, hready]
        omega
      · have hask : u.ask d = { u with begun := u.now, stage := .asked (u.now + d) } :=
          if_neg hfired
        rw [hask, hready]
        simp only [toGo, hahead, List.tail_cons]
        omega
  case h_3 wake hst =>
    simp only [hst] at hstage
    obtain ⟨d, ds, hahead, -⟩ := hstage.due
    cases hv
    rw [toGo_settle hahead u.scope.finds_look?]
    simp only [toGo, hst, hahead, List.tail_cons]
    split <;> omega
  case h_4 w wake hst =>
    simp only [hst] at hstage
    obtain ⟨hu, hw⟩ := hstage
    obtain ⟨d, ds, hahead, -⟩ := hu.due
    obtain ⟨hwoken, rfl⟩ : (u.scope.rouse? w = some w → wake ≤ u.now) ∧
        u.settle wake (u.scope.rouse? w) = v := by simpa using hv
    rw [toGo_settle hahead hw.finds_rouse?]
    simp only [toGo, hst, hahead, List.tail_cons]
    by_cases hstill : u.scope.rouse? w = some w
    · rw [if_pos (.inr (hwoken hstill)), if_pos hstill]
      omega
    · rw [if_neg hstill]
      split <;> omega

theorem toGo_pass {t : Nat} (ht : u.now < t) (hle : t ≤ u.horizon) :
    toGo { u with now := t } < u.toGo := by
  unfold horizon at hle
  cases hst : u.stage with
  | idle t' =>
    simp only [hst] at hle
    simp only [toGo, hst]
    omega
  | ready =>
    simp only [hst] at hle
    omega
  | asked wake =>
    simp only [hst] at hle
    omega
  | watching w wake =>
    simp only [hst] at hle
    simp only [toGo, hst]
    split at hle <;> omega

theorem toGo_act (u : Sleeper) (a : CancelScope.Act) : (u.act a).toGo ≤ u.toGo + 1 := by
  -- An act may wake the task once more.
  cases hst : u.stage with
  | watching w wake =>
    simp only [toGo, act, hst]
    split <;> split <;> omega
  | _ =>
    simp only [toGo, act, hst]
    omega

theorem Sound.toGo_move (hs : u.Sound instant durations) {m : Move} (hv : u.move? m = some v) :
    (m.isOwn = true → v.toGo < u.toGo) ∧ (m.isOwn = false → v.toGo ≤ u.toGo + 1) := by
  cases m with
  | act a =>
    obtain ⟨-, rfl⟩ : a ≠ .drop u.signal ∧ u.act a = v := by simpa [move?] using hv
    exact ⟨fun h => absurd h Bool.false_ne_true, fun _ => toGo_act u a⟩
  | poll => exact ⟨fun _ => hs.toGo_poll hv, fun h => absurd h.symm Bool.false_ne_true⟩
  | pass t =>
    obtain ⟨⟨ht, hle⟩, rfl⟩ : (u.now < t ∧ t ≤ u.horizon) ∧ { u with now := t } = v := by
      simpa [move?] using hv
    exact ⟨fun _ => toGo_pass ht hle, fun h => absurd h.symm Bool.false_ne_true⟩

theorem Sound.own_moves_le (hs : u.Sound instant durations) {ms : List Move}
    (hv : u.run? ms = some v) :
    ms.countP Move.isOwn + v.toGo ≤ u.toGo + ms.countP (!·.isOwn) := by
  induction ms generalizing u with
  | nil => exact Option.some.inj hv ▸ by simp
  | cons m ms ih =>
    obtain ⟨w, hw, hv⟩ := Option.bind_eq_some_iff.mp hv
    have hrest := ih (hs.move hw) hv
    obtain ⟨hless, hmore⟩ := hs.toGo_move hw
    cases hown : m.isOwn with
    | true =>
      have hone := hless hown
      rw [List.countP_cons_of_pos hown, List.countP_cons_of_neg (by simp [hown])]
      omega
    | false =>
      have hone := hmore hown
      rw [List.countP_cons_of_neg (by simp [hown]), List.countP_cons_of_pos (by simp [hown])]
      omega

/-! ### Signals without an owner -/

theorem finish_scope (u : Sleeper) (woken : Woken) :
    (u.finish woken).scope = u.scope ∧ (u.finish woken).cancelledAt = u.cancelledAt := by
  unfold finish
  cases u.ahead <;> exact ⟨rfl, rfl⟩

theorem settle_scope (u : Sleeper) (wake : Nat) (found : Option Watch) :
    (u.settle wake found).scope = u.scope ∧
      (u.settle wake found).cancelledAt = u.cancelledAt := by
  unfold settle
  split
  · exact finish_scope u .cancelled
  · split
    · exact finish_scope u .ok
    · exact ⟨rfl, rfl⟩

theorem poll?_scope (hv : u.poll? = some v) :
    v.scope = u.scope ∧ v.cancelledAt = u.cancelledAt := by
  unfold poll? at hv
  split at hv
  case h_1 t _ =>
    obtain ⟨-, rfl⟩ : u.now = t ∧ { u with stage := .ready } = v := by simpa using hv
    exact ⟨rfl, rfl⟩
  case h_2 =>
    split at hv
    case h_1 => cases hv
    case h_2 =>
      cases hv
      unfold ask
      split
      · exact finish_scope _ .cancelled
      · exact ⟨rfl, rfl⟩
  case h_3 wake _ =>
    cases hv
    exact settle_scope u wake _
  case h_4 w wake _ =>
    obtain ⟨-, rfl⟩ : _ ∧ u.settle wake (u.scope.rouse? w) = v := by simpa using hv
    exact settle_scope u wake _

theorem cancelledAt_unowned {ms : List Move} (ho : u.scope.owned = false)
    (hc : u.cancelledAt = none) (hv : u.run? ms = some v) : v.cancelledAt = none := by
  induction ms generalizing u with
  | nil => exact Option.some.inj hv ▸ hc
  | cons m ms ih =>
    obtain ⟨w, hw, hrest⟩ := Option.bind_eq_some_iff.mp hv
    cases m with
    | act a =>
      obtain ⟨-, rfl⟩ : a ≠ .drop u.signal ∧ u.act a = w := by simpa [move?] using hw
      have hsame : (u.act a).cancelledAt = u.cancelledAt :=
        if_neg fun h => Bool.false_ne_true (ho.symm.trans h.2.1)
      exact ih (CancelScope.owned_act ho a) (hsame.trans hc) hrest
    | poll =>
      obtain ⟨hscope, hsame⟩ := poll?_scope hw
      exact ih (hscope ▸ ho) (hsame.trans hc) hrest
    | pass t =>
      obtain ⟨-, rfl⟩ : _ ∧ { u with now := t } = w := by simpa [move?] using hw
      exact ih (u := { u with now := t }) ho hc hrest

/-! ### The sequence -/

/-- However the steps of a sleeping task mix with the acts on its scope: the task never hangs and
takes a bounded number of steps. Each sleep begins where the one before it ended; it lasts its time
unless the signal has fired by its end, and is cut off at that instant, or at once if the signal has
fired before it. After that no sleep takes time and the signal goes on reporting the cancellation.
Without a cancellation, with an owner or without one, the sleeps last their sum. -/
theorem sleeps_follow_signal (origin : Origin) (instant : Nat) (durations : List Nat)
    (ms : List Move) (u : Sleeper) (h : (start origin instant durations).run? ms = some u) :
    (¬u.Finished → ∃ m : Move, m.isOwn = true ∧ (u.move? m).isSome = true) ∧
    ms.countP Move.isOwn ≤ instant + 1 + cost durations + ms.countP (!·.isOwn) ∧
    u.naps.map Nap.duration ++ u.ahead = durations ∧ Chained instant u.naps ∧
    ((∀ t, u.cancelledAt = some t → t ∉ wakeUps instant durations) →
      (∀ n ∈ u.naps, n.Punctual u.cancelledAt) ∧
      u.naps.map outcome =
        (⟨u.cancelledAt, none⟩ : Window).sleeps instant (u.naps.map Nap.duration)) ∧
    u.naps.Pairwise Nap.Resigns ∧
    (∀ n ∈ u.naps, n.woken = .cancelled →
      n.reported = true ∧ u.scope.isCancelled? u.signal = some true) ∧
    (u.cancelledAt = none → (∀ n ∈ u.naps, n.woken = .ok) ∧
      lastEnd instant u.naps = instant + (u.naps.map Nap.duration).sum) ∧
    (origin = .never → u.cancelledAt = none) := by
  have hstart := sound_start origin instant durations
  have hs := hstart.run h
  have hfollows : ∀ n ∈ u.naps, n.Follows u.cancelledAt := fun n hn => (hs.kept.follows n hn).1
  refine ⟨hs.progress, ?_, hs.kept.split, hs.kept.chained, fun hw => ?_, hs.kept.resigned, ?_, ?_, ?_⟩
  · have hmoves := hstart.own_moves_le h
    have hgo : (start origin instant durations).toGo = instant + 1 + cost durations := rfl
    omega
  · have hw' : ∀ t, u.cancelledAt = some t → t ∉ wakeUps instant (u.naps.map Nap.duration) :=
      fun t ht hmem => hw t ht (hs.kept.split ▸ mem_wakeUps_append hmem)
    exact (sleeps_follow hs.kept.chained hfollows hs.kept.resigned hw').symm
  · intro n hn hcut
    have hn' := hfollows n hn
    cases hn' with
    | undisturbed => cases hcut
    | cut begun duration t ht =>
      refine ⟨rfl, ?_⟩
      rw [CancelScope.isCancelled?_of_mem hs.kept.observed, hs.kept.fired_iff.mpr ⟨t, ht⟩]
  · intro hnone
    rw [hnone] at hfollows
    refine ⟨fun n hn => ?_, lastEnd_undisturbed hs.kept.chained hfollows⟩
    have hn' := hfollows n hn
    cases hn' with
    | undisturbed => rfl
    | cut _ _ t ht => cases ht
  · rintro rfl
    exact cancelledAt_unowned rfl rfl h

theorem interrupted_sleeps_follow_signal :
    let ms : List Move := [.pass 1, .poll, .poll, .poll, .pass 3, .poll, .poll, .poll, .pass 4,
      .act .cancel, .act .release, .poll, .poll]
    let naps : List Nap := [⟨1, 2, .ok, 3, false⟩, ⟨3, 3, .cancelled, 4, true⟩,
      ⟨4, 4, .cancelled, 4, true⟩]
    let u : Sleeper := ⟨1, ⟨true, 1, [1, 0], 2, false⟩, 4, some 4, .ready, 4, [], naps⟩
    (start .subscribed 1 [2, 3, 4]).run? ms = some u ∧ (∀ n ∈ u.naps, n.Punctual (some 4)) ∧
      ms.countP Move.isOwn ≤ 1 + 1 + cost [2, 3, 4] + ms.countP (!·.isOwn) :=
  have hrun := by decide
  have h := sleeps_follow_signal .subscribed 1 [2, 3, 4] _ _ hrun
  ⟨hrun, (h.2.2.2.2.1 (by decide)).1, h.2.1⟩

end TokenAudit.Sleeper
