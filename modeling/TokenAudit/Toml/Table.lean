import TokenAudit.Json

/-! Tables of a TOML text as they grow: what may be opened again, and what may not. -/

namespace TokenAudit.Toml

/-- A table is implied when only a longer path named it, dotted when a key path did. -/
inductive Node where
  | value (j : Json)
  | table (implied dotted : Bool) (members : List (String × Node))
  | tables (rows : List (List (String × Node)))

abbrev Members : Type := List (String × Node)

namespace Node

mutual
def toJson : Node → Json
  | value j => j
  | table _ _ members => .obj (membersJson members)
  | tables rows => .arr (rowsJson rows)

def membersJson : List (String × Node) → List (String × Json)
  | [] => []
  | (k, n) :: ms => (k, toJson n) :: membersJson ms

def rowsJson : List (List (String × Node)) → List Json
  | [] => []
  | r :: rs => .obj (membersJson r) :: rowsJson rs
end

end Node

namespace Members

def get? (ms : Members) (k : String) : Option Node := (ms.find? fun m => m.1 = k).map Prod.snd

def put (k : String) (n : Node) : Members → Members
  | [] => [(k, n)]
  | (k', n') :: ms => if k' = k then (k, n) :: ms else (k', n') :: put k n ms

def toJson (ms : Members) : Json := .obj (Node.membersJson ms)

def changeLast (f : Members → Option Members) : List Members → Option (List Members)
  | [] => none
  | [r] => (f r).map fun r => [r]
  | r :: rs => (changeLast f rs).map (r :: ·)

def change (dotted : Bool) (f : Bool → Members → Option Members) (isDotted : Bool) :
    List String → Members → Option Members
  | [], ms => f isDotted ms
  | k :: ks, ms =>
    match get? ms k with
    | none => (change dotted f dotted ks []).map fun t => put k (.table true dotted t) ms
    | some (.value _) => none
    | some (.tables rows) =>
      (changeLast (change dotted f false ks) rows).map fun rows => put k (.tables rows) ms
    | some (.table implied was t) =>
      if dotted && !implied then none
      else (change dotted f was ks t).map fun t => put k (.table implied was t) ms

def assign (path : List String) (k : String) (n : Node) (ms : Members) : Option Members :=
  change true (fun isDotted t =>
    if isDotted = path.isEmpty ∨ (get? t k).isSome then none else some (put k n t)) false path ms

/-- A heading opens a table that is new or only implied. -/
def openTable (path : List String) (k : String) (ms : Members) : Option Members :=
  change false (fun _ t =>
    match get? t k with
    | none => some (put k (.table false false []) t)
    | some (.table true false inner) => some (put k (.table false false inner) t)
    | some _ => none) false path ms

def addRow (path : List String) (k : String) (ms : Members) : Option Members :=
  change false (fun _ t =>
    match get? t k with
    | none => some (put k (.tables [[]]) t)
    | some (.tables rows) => some (put k (.tables (rows ++ [[]])) t)
    | some _ => none) false path ms

def under (heading : List String) (f : Members → Option Members) (ms : Members) :
    Option Members :=
  change false (fun _ t => f t) false heading ms

end Members

end TokenAudit.Toml
