/-! Cancellation scopes: an owner who may cancel once for all, and the signals that observe it. -/

namespace TokenAudit

/-- What the owner has stored for all signals and how often, the signals that are there, how many
were ever made, and whether the owner is there. -/
structure CancelScope where
  fired : Bool
  stores : Nat
  signals : List Nat
  made : Nat
  owned : Bool
  deriving DecidableEq, Repr

namespace CancelScope

inductive Act where
  | subscribe
  | clone (signal : Nat)
  | drop (signal : Nat)
  | cancel
  | release
  deriving DecidableEq, Repr

def opened : CancelScope := ⟨false, 0, [0], 1, true⟩

def addSignal (s : CancelScope) : CancelScope :=
  { s with signals := s.made :: s.signals, made := s.made + 1 }

/-- Nothing is stored while nobody observes. -/
def cancel (s : CancelScope) : CancelScope :=
  if s.signals = [] then s else { s with fired := true, stores := s.stores + 1 }

/-- One who is gone does nothing. -/
def act (s : CancelScope) : Act → CancelScope
  | .subscribe => if s.owned then s.addSignal else s
  | .clone i => if i ∈ s.signals then s.addSignal else s
  | .drop i => { s with signals := s.signals.filter (· ≠ i) }
  | .cancel => if s.owned then s.cancel else s
  | .release => { s with owned := false }

def run (s : CancelScope) (acts : List Act) : CancelScope := acts.foldl act s

def isCancelled? (s : CancelScope) (signal : Nat) : Option Bool :=
  if signal ∈ s.signals then some s.fired else none

end CancelScope

end TokenAudit
