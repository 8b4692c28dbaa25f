import TokenAudit.World

/-! What a time limit does to a task that waits. A task that ends within the limit is as it would be
alone, and any other is dropped at the limit. This holds of each wait, and passes from waits to the
tasks that are made of them. -/

namespace TokenAudit

namespace World

variable {σ κ α β : Type}

structure SameMoment (u v : World σ κ) : Prop where
  now : u.now = v.now
  state : u.state = v.state

theorem SameMoment.rfl {u : World σ κ} : u.SameMoment u := ⟨Eq.refl _, Eq.refl _⟩

theorem SameMoment.trans {u v x : World σ κ} (h : u.SameMoment v) (h' : v.SameMoment x) :
    u.SameMoment x := ⟨h.now.trans h'.now, h.state.trans h'.state⟩

theorem SameMoment.symm {u v : World σ κ} (h : u.SameMoment v) : v.SameMoment u :=
  ⟨h.now.symm, h.state.symm⟩

theorem sameMoment_record (world : World σ κ) (act : κ) : (world.record act).SameMoment world :=
  ⟨Eq.refl _, Eq.refl _⟩

def andThen (m : Option α × World σ κ) (k : α → World σ κ → Option β × World σ κ) :
    Option β × World σ κ :=
  match m with
  | (none, world) => (none, world)
  | (some a, world) => k a world

theorem andThen_some (a : α) (world : World σ κ) (k : α → World σ κ → Option β × World σ κ) :
    andThen (some a, world) k = k a world := rfl

theorem andThen_none (world : World σ κ) (k : α → World σ κ → Option β × World σ κ) :
    andThen (none, world) k = (none, world) := rfl

def rest (world : World σ κ) (w : Window) (duration : Nat) : Option Woken × World σ κ :=
  match world.sleep w duration with
  | (.expired, world) => (none, world)
  | (woken, world) => (some woken, world)

theorem rest_cases (world : World σ κ) (w : Window) (duration : Nat) :
    (∃ rested, world.rest w duration = (some .ok, rested)) ∨
    (∃ rested, world.rest w duration = (some .cancelled, rested)) ∨
    ∃ rested, world.rest w duration = (none, rested) := by
  unfold rest
  rcases world.sleep w duration with ⟨_ | _ | _, rested⟩
  · exact .inl ⟨rested, rfl⟩
  · exact .inr (.inl ⟨rested, rfl⟩)
  · exact .inr (.inr ⟨rested, rfl⟩)

@[simp] theorem trace_rest (world : World σ κ) (w : Window) (duration : Nat) :
    (world.rest w duration).2.trace = world.trace := by
  unfold rest
  rw [← trace_sleep world w duration]
  rcases world.sleep w duration with ⟨_ | _ | _, rested⟩ <;> rfl

inductive Limited (limit : Nat) : Option α × World σ κ → Option α × World σ κ → Prop where
  | inTime (a : α) (world : World σ κ) (h : world.now ≤ limit) :
    Limited limit (some a, world) (some a, world)
  | late (alone : Option α × World σ κ) (world : World σ κ)
      (h : ∀ a, alone.1 = some a → limit < alone.2.now) (hw : world.now = limit) :
    Limited limit alone (none, world)

theorem Limited.eq_some_iff {limit : Nat} {alone limited : Option α × World σ κ}
    (h : Limited limit alone limited) (a : α) :
    limited.1 = some a ↔ alone.1 = some a ∧ alone.2.now ≤ limit := by
  cases h with
  | inTime b world hle => exact ⟨fun hb => ⟨hb, hle⟩, And.left⟩
  | late _ world hlate hw =>
    refine iff_of_false nofun fun ⟨ha, hle⟩ => ?_
    exact absurd hle (Nat.not_le_of_lt (hlate a ha))

/-- Of a task: its time goes forward, a time limit only cuts it short, and what has been recorded
before changes nothing of what it finds. -/
structure Regular (f : Window → World σ κ → Option α × World σ κ) : Prop where
  forward : ∀ cancelAt world, world.now ≤ (f ⟨cancelAt, none⟩ world).2.now
  limited : ∀ cancelAt limit world, world.now ≤ limit →
    Limited limit (f ⟨cancelAt, none⟩ world) (f ⟨cancelAt, some limit⟩ world)
  blind : ∀ w u v, SameMoment u v → (f w u).1 = (f w v).1 ∧ (f w u).2.SameMoment (f w v).2

theorem Regular.congr {f g : Window → World σ κ → Option α × World σ κ} (hg : Regular g)
    (h : ∀ w world, f w world = g w world) : Regular f := by
  have hfg : f = g := funext fun w => funext fun world => h w world
  rw [hfg]
  exact hg

theorem await_limited (cancelAt : Option Nat) (limit now : Nat) (delay : Option Nat) :
    (⟨cancelAt, some limit⟩ : Window).await now delay =
      if ∃ d, delay = some d ∧ now + d ≤ limit then (⟨cancelAt, none⟩ : Window).await now delay
      else (false, limit) := by
  cases delay with
  | none => simp [Window.await]
  | some d =>
    by_cases h : now + d ≤ limit
    · simp [Window.await, Window.cutBefore, h, Nat.not_lt.mpr h]
    · simp [Window.await, Window.cutBefore, h, Nat.lt_of_not_le h]

theorem sleep_alone (cancelAt : Option Nat) (now duration : Nat) :
    ∃ woken wake, (⟨cancelAt, none⟩ : Window).sleep now duration = (woken, wake) ∧
      woken ≠ .expired ∧ now ≤ wake ∧ ∀ limit, now ≤ limit →
        (⟨cancelAt, some limit⟩ : Window).sleep now duration =
          if wake ≤ limit then (woken, wake) else (.expired, limit) := by
  have hcut : ∀ limit planned, (if limit < planned then some limit else none : Option Nat) =
      if planned ≤ limit then none else some limit := by
    intro limit planned
    by_cases h : planned ≤ limit
    · rw [if_pos h, if_neg (Nat.not_lt.mpr h)]
    · rw [if_neg h, if_pos (Nat.lt_of_not_le h)]
  simp only [Window.sleep, Window.isCancelled, Window.cutBefore, hcut]
  cases cancelAt with
  | none =>
    refine ⟨.ok, now + duration, rfl, nofun, Nat.le_add_right _ _, fun limit _ => ?_⟩
    by_cases h : now + duration ≤ limit <;> simp [h]
  | some t =>
    by_cases ht : t ≤ now
    · exact ⟨.cancelled, now, by simp [ht], nofun, Nat.le_refl _, fun limit h => by simp [ht, h]⟩
    · by_cases hwake : t < now + duration
      · refine ⟨.cancelled, t, by simp [ht, hwake], nofun, Nat.le_of_not_le ht, fun limit _ => ?_⟩
        by_cases h : t ≤ limit <;> simp [ht, hwake, h]
      · refine ⟨.ok, now + duration, by simp [ht, hwake], nofun, Nat.le_add_right _ _,
          fun limit _ => ?_⟩
        by_cases h : now + duration ≤ limit <;> simp [ht, hwake, h]

theorem Regular.askAt (request : Option Nat → World σ κ → Ask σ α)
    (hr : ∀ c u v, SameMoment u v → request c u = request c v) :
    Regular fun w world => world.ask w (request w.cancelAt world) where
  forward cancelAt world := by
    simp only [World.ask, Window.await, Window.cutBefore]
    cases (request cancelAt world world.state).1.delay with
    | none => exact Nat.le_refl _
    | some d => exact Nat.le_add_right _ _
  limited cancelAt limit world h := by
    simp only [World.ask, await_limited]
    cases hd : (request cancelAt world world.state).1.delay with
    | none =>
      simp only [reduceCtorEq, false_and, exists_false, if_false]
      exact .late _ _ (fun _ hd => by cases hd) rfl
    | some d =>
      by_cases hle : world.now + d ≤ limit
      · simp only [Option.some.injEq, exists_eq_left', hle, if_true]
        exact .inTime _ _ hle
      · simp only [Option.some.injEq, exists_eq_left', hle, if_false]
        exact .late _ _ (fun _ _ => Nat.lt_of_not_le hle) rfl
  blind w u v h := by
    simp only [World.ask, hr _ u v h, h.now, h.state]
    rcases w.await v.now (request w.cancelAt v v.state).1.delay with ⟨_ | _, now⟩
    · exact ⟨rfl, rfl, rfl⟩
    · exact ⟨rfl, rfl, rfl⟩

theorem Regular.ask (request : Ask σ α) : Regular fun w (world : World σ κ) => world.ask w request :=
  .askAt (fun _ _ => request) fun _ _ _ _ => rfl

theorem Regular.rest (duration : Nat) :
    Regular fun w (world : World σ κ) => world.rest w duration where
  forward cancelAt world := by
    obtain ⟨woken, wake, hsleep, -, hle, -⟩ := sleep_alone cancelAt world.now duration
    simp only [World.rest, World.sleep, hsleep]
    cases woken <;> exact hle
  limited cancelAt limit world h := by
    obtain ⟨woken, wake, hsleep, hne, -, hcut⟩ := sleep_alone cancelAt world.now duration
    simp only [World.rest, World.sleep, hsleep, hcut limit h]
    by_cases hle : wake ≤ limit
    · rw [if_pos hle]
      cases woken with
      | expired => exact absurd rfl hne
      | ok | cancelled => exact .inTime _ _ hle
    · rw [if_neg hle]
      refine .late _ _ (fun _ _ => ?_) rfl
      cases woken with
      | expired => exact absurd rfl hne
      | ok | cancelled => exact Nat.lt_of_not_le hle
  blind w u v h := by
    simp only [World.rest, World.sleep, h.now]
    rcases w.sleep v.now duration with ⟨_ | _ | _, now⟩
    all_goals exact ⟨rfl, rfl, h.state⟩

theorem Regular.ended (a : α) {g : World σ κ → World σ κ} (hg : ∀ world, (g world).SameMoment world) :
    Regular fun _ world => (some a, g world) where
  forward _ world := Nat.le_of_eq (hg world).now.symm
  limited _ _ world h := .inTime a _ ((hg world).now ▸ h)
  blind _ u v h := ⟨rfl, (hg u).trans (h.trans (hg v).symm)⟩

theorem Regular.after {f : Window → World σ κ → Option α × World σ κ} (hf : Regular f)
    {g : World σ κ → World σ κ} (hg : ∀ world, (g world).SameMoment world) :
    Regular fun w world => f w (g world) where
  forward cancelAt world := (hg world).now ▸ hf.forward cancelAt (g world)
  limited cancelAt limit world h := hf.limited cancelAt limit (g world) ((hg world).now ▸ h)
  blind w u v h := hf.blind w _ _ ((hg u).trans (h.trans (hg v).symm))

theorem Regular.andThen {m : Window → World σ κ → Option α × World σ κ}
    {k : α → Window → World σ κ → Option β × World σ κ} (hm : Regular m) (hk : ∀ a, Regular (k a)) :
    Regular fun w world => World.andThen (m w world) fun a world => k a w world where
  forward cancelAt world := by
    have hfirst := hm.forward cancelAt world
    generalize m ⟨cancelAt, none⟩ world = first at hfirst ⊢
    rcases first with ⟨_ | a, after⟩
    · exact hfirst
    · exact Nat.le_trans hfirst ((hk a).forward cancelAt after)
  limited cancelAt limit world h := by
    have hfirst := hm.limited cancelAt limit world h
    generalize m ⟨cancelAt, none⟩ world = alone, m ⟨cancelAt, some limit⟩ world = limited at hfirst ⊢
    cases hfirst with
    | inTime a after hle => exact (hk a).limited cancelAt limit after hle
    | late _ after hlate hw =>
      refine .late _ _ (fun b hb => ?_) hw
      -- What starts after the limit does not end before it.
      rcases alone with ⟨_ | a, between⟩
      · cases hb
      · exact Nat.lt_of_lt_of_le (hlate a rfl) ((hk a).forward cancelAt between)
  blind w u v h := by
    obtain ⟨hanswer, hmoment⟩ := hm.blind w u v h
    generalize m w u = first, m w v = second at hanswer hmoment ⊢
    obtain ⟨answer, u⟩ := first
    obtain ⟨_, v⟩ := second
    cases hanswer
    cases answer with
    | none => exact ⟨rfl, hmoment⟩
    | some a => exact (hk a).blind w u v hmoment

/-! ### How tasks end -/

structure Ends (m : Option α × World σ κ) (a : α) (t : Nat) : Prop where
  answer : m.1 = some a
  time : m.2.now = t

theorem Ends.unique {m : Option α × World σ κ} {a b : α} {t u : Nat} (h : Ends m a t)
    (h' : Ends m b u) : a = b ∧ t = u :=
  ⟨Option.some.inj (h.answer.symm.trans h'.answer), h.time.symm.trans h'.time⟩

theorem ends_some {a b : α} {world : World σ κ} {t : Nat} :
    Ends (some a, world) b t ↔ b = a ∧ t = world.now :=
  ⟨fun h => ⟨(Option.some.inj h.answer).symm, h.time.symm⟩, fun h => ⟨h.1 ▸ rfl, h.2 ▸ rfl⟩⟩

theorem ends_andThen {m : Option α × World σ κ} {k : α → World σ κ → Option β × World σ κ} {b : β}
    {t : Nat} : Ends (andThen m k) b t ↔ ∃ a after, m = (some a, after) ∧ Ends (k a after) b t := by
  rcases m with ⟨_ | a, after⟩
  · exact iff_of_false (fun h => by cases h.answer) fun ⟨_, _, h, _⟩ => by cases h
  · constructor
    · exact fun h => ⟨a, after, rfl, h⟩
    · rintro ⟨_, _, ⟨⟩, h⟩
      exact h

theorem Regular.ends_congr {f : Window → World σ κ → Option α × World σ κ} (hf : Regular f)
    (w : Window) {u v : World σ κ} (h : SameMoment u v) {a : α} {t : Nat} :
    Ends (f w u) a t ↔ Ends (f w v) a t := by
  obtain ⟨hanswer, hmoment⟩ := hf.blind w u v h
  exact ⟨fun e => ⟨hanswer ▸ e.answer, hmoment.now ▸ e.time⟩,
    fun e => ⟨hanswer ▸ e.answer, hmoment.now ▸ e.time⟩⟩

theorem Regular.answer_iff {f : Window → World σ κ → Option α × World σ κ} (hf : Regular f)
    (cancelAt : Option Nat) {limit : Nat} {world : World σ κ} (h : world.now ≤ limit) (a : α) :
    (f ⟨cancelAt, some limit⟩ world).1 = some a ↔
      ∃ t, t ≤ limit ∧ Ends (f ⟨cancelAt, none⟩ world) a t := by
  rw [(hf.limited cancelAt limit world h).eq_some_iff]
  exact ⟨fun ⟨ha, hle⟩ => ⟨_, hle, ha, rfl⟩, fun ⟨_, hle, e⟩ => ⟨e.answer, e.time ▸ hle⟩⟩

/-! ### How long tasks go on -/

def within (limit : Nat) : Option Nat → Nat
  | some needed => min needed limit
  | none => limit

def needed (started : Nat) (m : Option α × World σ κ) : Option Nat :=
  m.1.map fun _ => m.2.now - started

theorem within_le (limit : Nat) (needed : Option Nat) : within limit needed ≤ limit := by
  cases needed with
  | none => exact Nat.le_refl _
  | some needed => exact Nat.min_le_right _ _

theorem Regular.now_limited {f : Window → World σ κ → Option α × World σ κ} (hf : Regular f)
    (cancelAt : Option Nat) (duration : Nat) (world : World σ κ) :
    (f ⟨cancelAt, some (world.now + duration)⟩ world).2.now =
      world.now + within duration (needed world.now (f ⟨cancelAt, none⟩ world)) := by
  have hforward := hf.forward cancelAt world
  have hlimited := hf.limited cancelAt (world.now + duration) world (Nat.le_add_right _ _)
  generalize f ⟨cancelAt, none⟩ world = alone, f ⟨cancelAt, some (world.now + duration)⟩ world =
    limited at hforward hlimited ⊢
  cases hlimited with
  | inTime a after hle =>
    have hneeded : after.now - world.now ≤ duration := Nat.sub_le_iff_le_add'.mpr hle
    simp only [needed, within, Option.map_some, Nat.min_eq_left hneeded]
    exact (Nat.add_sub_cancel' hforward).symm
  | late _ after hlate hw =>
    obtain ⟨_ | a, between⟩ := alone
    · exact hw
    · have hlater := hlate a rfl
      have hneeded : duration ≤ between.now - world.now :=
        Nat.le_sub_of_add_le' (Nat.le_of_lt hlater)
      simp only [needed, within, Option.map_some, Nat.min_eq_right hneeded]
      exact hw

end World

end TokenAudit
