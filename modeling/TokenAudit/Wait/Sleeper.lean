import TokenAudit.Wait
import TokenAudit.Wait.Scope

/-! A task that sleeps several times on one signal of a scope, step by step. Between any two of its
steps the scope may be acted upon, and the clock moves only while the task has nothing to do. -/

namespace TokenAudit

/-- What a sleeper waits for besides its timer: a store it has not seen, or nothing more, once the
owner is gone. -/
inductive Watch where
  | since (stores : Nat)
  | deaf
  deriving DecidableEq, Repr

namespace CancelScope

def look? (s : CancelScope) : Option Watch :=
  if s.fired then none else if s.owned then some (.since s.stores) else some .deaf

/-- What a watcher that is woken finds. A store comes before the end of the owner, and whoever has
seen that end never looks again. -/
def rouse? (s : CancelScope) : Watch → Option Watch
  | .since n =>
    if s.stores ≠ n then s.look? else if s.owned then some (.since n) else some .deaf
  | .deaf => some .deaf

end CancelScope

inductive Origin where
  | pair
  | subscribed
  | never
  deriving DecidableEq, Repr

namespace Origin

def scope : Origin → CancelScope
  | pair => .opened
  | subscribed => CancelScope.opened.act .subscribe
  | never => CancelScope.opened.act .release

def signal : Origin → Nat
  | subscribed => 1
  | _ => 0

end Origin

structure Nap where
  begun : Nat
  duration : Nat
  woken : Woken
  ended : Nat
  reported : Bool
  deriving DecidableEq, Repr

/-- Before the first sleep; between two sleeps; asked whether the signal has fired, and not yet
looking out for it; looking out until the timer. -/
inductive Sleeper.Stage where
  | idle (start : Nat)
  | ready
  | asked (wake : Nat)
  | watching (w : Watch) (wake : Nat)
  deriving DecidableEq, Repr

structure Sleeper where
  signal : Nat
  scope : CancelScope
  now : Nat
  cancelledAt : Option Nat
  stage : Sleeper.Stage
  begun : Nat
  ahead : List Nat
  naps : List Nap
  deriving DecidableEq, Repr

namespace Sleeper

inductive Move where
  | act (a : CancelScope.Act)
  | poll
  | pass (t : Nat)
  deriving DecidableEq, Repr

def start (origin : Origin) (instant : Nat) (durations : List Nat) : Sleeper :=
  ⟨origin.signal, origin.scope, 0, none, .idle instant, instant, durations, []⟩

def finish (u : Sleeper) (woken : Woken) : Sleeper :=
  match u.ahead with
  | [] => u
  | d :: ds =>
    { u with
      stage := .ready
      ahead := ds
      naps := u.naps ++ [⟨u.begun, d, woken, u.now, u.scope.fired⟩] }

def settle (u : Sleeper) (wake : Nat) : Option Watch → Sleeper
  | none => u.finish .cancelled
  | some w => if wake ≤ u.now then u.finish .ok else { u with stage := .watching w wake }

def ask (u : Sleeper) (duration : Nat) : Sleeper :=
  let v := { u with begun := u.now }
  if u.scope.fired then v.finish .cancelled else { v with stage := .asked (u.now + duration) }

def poll? (u : Sleeper) : Option Sleeper :=
  match u.stage with
  | .idle instant => if u.now = instant then some { u with stage := .ready } else none
  | .ready =>
    match u.ahead with
    | [] => none
    | d :: _ => some (u.ask d)
  | .asked wake => some (u.settle wake u.scope.look?)
  | .watching w wake =>
    if u.scope.rouse? w = some w ∧ u.now < wake then none
    else some (u.settle wake (u.scope.rouse? w))

def horizon (u : Sleeper) : Nat :=
  match u.stage with
  | .idle instant => instant
  | .watching w wake => if u.scope.rouse? w = some w then wake else u.now
  | _ => u.now

def act (u : Sleeper) (a : CancelScope.Act) : Sleeper :=
  { u with
    scope := u.scope.act a
    cancelledAt :=
      if a = .cancel ∧ u.scope.owned = true ∧ u.cancelledAt = none then some u.now
      else u.cancelledAt }

/-- The signal of the sleeper stays with it. -/
def move? (u : Sleeper) : Move → Option Sleeper
  | .act a => if a = .drop u.signal then none else some (u.act a)
  | .poll => u.poll?
  | .pass t => if u.now < t ∧ t ≤ u.horizon then some { u with now := t } else none

def run? (u : Sleeper) : List Move → Option Sleeper
  | [] => some u
  | m :: ms => (u.move? m).bind fun v => v.run? ms

end Sleeper

end TokenAudit
