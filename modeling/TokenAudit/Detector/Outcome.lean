import TokenAudit.Error

/-! How the work of one detector ends. -/

namespace TokenAudit

/-- `panicked` carries the report of a task that broke down instead of returning. -/
inductive Outcome (α : Type) where
  | answered (a : α)
  | failed (e : AuditError)
  | timedOut
  | panicked (report : String)

namespace Outcome

variable {α β : Type}

def answer? : Outcome α → Option α
  | answered a => some a
  | _ => none

def bind (o : Outcome α) (f : α → Except AuditError β) : Outcome β :=
  match o with
  | answered a =>
    match f a with
    | .ok b => .answered b
    | .error e => .failed e
  | failed e => .failed e
  | timedOut => .timedOut
  | panicked report => .panicked report

end Outcome

end TokenAudit
