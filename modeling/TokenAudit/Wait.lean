/-! Waiting on a clock that moves only while someone waits. -/

namespace TokenAudit

/-- What bounds a wait: the instant the signal fires, and the time limit around it. -/
structure Window where
  cancelAt : Option Nat
  deadline : Option Nat
  deriving DecidableEq, Repr

inductive Woken where
  | ok
  | cancelled
  | expired
  deriving DecidableEq, Repr

namespace Window

def unbounded : Window := ⟨none, none⟩

def isCancelled (w : Window) (now : Nat) : Bool :=
  match w.cancelAt with
  | some t => decide (t ≤ now)
  | none => false

def cutBefore (w : Window) (wake : Nat) : Option Nat :=
  match w.deadline with
  | some t => if t < wake then some t else none
  | none => none

def sleep (w : Window) (now duration : Nat) : Woken × Nat :=
  let wake := now + duration
  if w.isCancelled now then (.cancelled, now)
  else
    let (planned, woken) := match w.cancelAt with
      | some t => if t < wake then (t, Woken.cancelled) else (wake, Woken.ok)
      | none => (wake, Woken.ok)
    match w.cutBefore planned with
    | some t => (.expired, t)
    | none => (woken, planned)

/-- A wait that the signal does not end; without a delay and a time limit it never ends. -/
def await (w : Window) (now : Nat) : Option Nat → Bool × Nat
  | some delay =>
    match w.cutBefore (now + delay) with
    | some t => (false, t)
    | none => (true, now + delay)
  | none => (false, w.deadline.getD now)

def sleeps (w : Window) : Nat → List Nat → List (Woken × Nat)
  | _, [] => []
  | now, d :: ds => let r := w.sleep now d; r :: sleeps w r.2 ds

end Window

end TokenAudit
