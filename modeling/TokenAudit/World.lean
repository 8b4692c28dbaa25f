import TokenAudit.Wait

/-! What a running task sees: the time, the acts so far, and the state of those it asks. -/

namespace TokenAudit

/-- A request under way: due after `delay`, never when there is none; the answer is drawn then. -/
structure Reply (σ α : Type) where
  delay : Option Nat
  draw : σ → α × σ

/-- Asking may change the state at once, before any answer. -/
abbrev Ask (σ α : Type) : Type := σ → Reply σ α × σ

def Ask.now {σ α : Type} (draw : σ → α × σ) : Ask σ α := fun s => (⟨some 0, draw⟩, s)

def Ask.map {σ α β : Type} (f : α → β) (ask : Ask σ α) : Ask σ β := fun s =>
  let (reply, s) := ask s
  (⟨reply.delay, fun s => let (a, s) := reply.draw s; (f a, s)⟩, s)

def Ask.pure {σ α : Type} (a : α) : Ask σ α := Ask.now fun s => (a, s)

structure World (σ κ : Type) where
  now : Nat
  trace : List (Nat × κ)
  state : σ

namespace World

variable {σ κ α : Type}

def start (now : Nat) (state : σ) : World σ κ := ⟨now, [], state⟩

def record (world : World σ κ) (act : κ) : World σ κ :=
  { world with trace := world.trace ++ [(world.now, act)] }

def acts (world : World σ κ) : List κ := world.trace.map Prod.snd

def sleep (world : World σ κ) (w : Window) (duration : Nat) : Woken × World σ κ :=
  let (woken, now) := w.sleep world.now duration
  (woken, { world with now := now })

/-- No answer is left when the time limit drops the request, or when it is never due. -/
def ask (world : World σ κ) (w : Window) (request : Ask σ α) : Option α × World σ κ :=
  let (reply, asked) := request world.state
  match w.await world.now reply.delay with
  | (true, now) =>
    let (a, drawn) := reply.draw asked
    (some a, { world with now := now, state := drawn })
  | (false, now) => (none, { world with now := now, state := asked })

@[simp] theorem acts_record (world : World σ κ) (act : κ) :
    (world.record act).acts = world.acts ++ [act] := by
  simp [record, acts]

theorem acts_sleep (world : World σ κ) (w : Window) (duration : Nat) :
    ∃ woken after, world.sleep w duration = (woken, after) ∧ after.acts = world.acts :=
  ⟨_, _, rfl, rfl⟩

theorem ask_of_await_true {world : World σ κ} {w : Window} {request : Ask σ α} {now : Nat}
    (h : w.await world.now (request world.state).1.delay = (true, now)) :
    world.ask w request = (some ((request world.state).1.draw (request world.state).2).1,
      { world with
        now := now
        state := ((request world.state).1.draw (request world.state).2).2 }) := by
  simp only [ask, h]

theorem ask_of_await_false {world : World σ κ} {w : Window} {request : Ask σ α} {now : Nat}
    (h : w.await world.now (request world.state).1.delay = (false, now)) :
    world.ask w request = (none, { world with now := now, state := (request world.state).2 }) := by
  simp only [ask, h]

@[simp] theorem trace_record (world : World σ κ) (act : κ) :
    (world.record act).trace = world.trace ++ [(world.now, act)] := rfl

@[simp] theorem trace_sleep (world : World σ κ) (w : Window) (duration : Nat) :
    (world.sleep w duration).2.trace = world.trace := rfl

@[simp] theorem trace_ask (world : World σ κ) (w : Window) (request : Ask σ α) :
    (world.ask w request).2.trace = world.trace := by
  rcases h : w.await world.now (request world.state).1.delay with ⟨_ | _, now⟩
  · rw [ask_of_await_false h]
  · rw [ask_of_await_true h]

theorem ask_cases (world : World σ κ) (w : Window) (request : Ask σ α) :
    (∃ after, world.ask w request = (none, after) ∧ after.acts = world.acts) ∨
    ∃ s after, world.ask w request = (some ((request world.state).1.draw s).1, after) ∧
      after.acts = world.acts := by
  rcases h : w.await world.now (request world.state).1.delay with ⟨_ | _, now⟩
  · exact .inl ⟨_, ask_of_await_false h, rfl⟩
  · exact .inr ⟨_, _, ask_of_await_true h, rfl⟩

end World

end TokenAudit
