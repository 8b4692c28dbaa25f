import TokenAudit.Agent.Duration

/-! Command lines: what commands and options there are to give, and how words are taken as them. -/

namespace TokenAudit.Arguments

inductive Kind where
  | text
  | integer
  | block
  | count
  | duration
  deriving DecidableEq, Repr

inductive Value where
  | flag
  | text (s : String)
  | integer (n : Int)
  | natural (n : Nat)
  deriving DecidableEq, Repr

def Kind.read? (s : String) : Kind → Option Value
  | text => some (.text s)
  | integer => (Numeral.readInt64 s.toList).map .integer
  | block => (Numeral.readNat UInt64.size s.toList).map .natural
  | count =>
    (Numeral.readInt64 s.toList).bind fun n =>
      if 0 ≤ n ∧ n < Int.ofNat UInt32.size then some (.natural n.toNat) else none
  | duration => (Duration.readMillis? s).map .natural

/-- A named value, given behind its name or at its place. A variable may stand in for it, and
only with `negatives` may a bare negative number be it. -/
structure Spec where
  name : String
  kind : Kind
  required : Bool
  variable_ : Option String
  default : Option String
  negatives : Bool
  deriving DecidableEq, Repr

structure Command where
  name : String
  versioned : Bool
  options : List Spec
  place : Option Spec
  below : List String
  deriving DecidableEq, Repr

/-- Why no command results; help and version are asked for in the same way. -/
inductive Fault where
  | help
  | version
  | helpForNothing
  | unknownArgument
  | unknownCommand
  | noCommand
  | missingArgument
  | missingValue
  | badValue
  | unwantedValue
  | repeated
  deriving DecidableEq, Repr

def Fault.message : Fault → String
  | help => "help is asked for"
  | version => "the version is asked for"
  | helpForNothing | noCommand => "a command is missing"
  | unknownArgument => "an argument is not known here"
  | unknownCommand => "there is no such command"
  | missingArgument => "a required argument is not given"
  | missingValue => "an option has no value"
  | badValue => "a value is not of its kind"
  | unwantedValue => "a flag takes no value"
  | repeated => "an argument is given twice"

structure Pending where
  spec : Spec
  text : Option String
  deriving DecidableEq

structure Level where
  command : Command
  given : List (String × Value)
  pending : Option Pending
  placed : Bool
  escaped : Bool
  deriving DecidableEq

namespace Level

def start (c : Command) : Level := ⟨c, [], none, false, false⟩

def find? (l : Level) (name : String) : Option Value :=
  (l.given.find? fun g => g.1 = name).map Prod.snd

def take (l : Level) (spec : Spec) (text : String) : Except Fault Level :=
  if (l.find? spec.name).isSome then .error .repeated
  else
    match spec.kind.read? text with
    | none => .error .badValue
    | some v => .ok { l with given := l.given ++ [(spec.name, v)] }

def settle (l : Level) : Except Fault Level :=
  match l.pending with
  | none => .ok l
  | some ⟨_, none⟩ => .error .missingValue
  | some ⟨spec, some text⟩ => { l with pending := none }.take spec text

def awaiting? (l : Level) : Option Spec :=
  match l.pending with
  | some ⟨spec, none⟩ => some spec
  | _ => none

def place? (l : Level) : Option Spec := if l.placed then none else l.command.place

def raise (l : Level) (name : String) : Except Fault Level :=
  l.settle.bind fun l =>
    if (l.find? name).isSome then .error .repeated
    else .ok { l with given := l.given ++ [(name, .flag)] }

end Level

/-- The commands, with the one that all words start under, and the flag that all of them take. -/
structure Grammar where
  root : Command
  commands : List Command
  flag : String

def helpCommand : String := "help"

namespace Grammar

variable (g : Grammar)

def command? (name : String) : Option Command := g.commands.find? fun c => c.name = name

def below? (c : Command) (word : String) : Option Command :=
  if word ∈ c.below then g.command? word else none

def helpOn (c : Command) : List String → Fault
  | [] => .help
  | w :: ws =>
    match g.below? c w with
    | some c => helpOn c ws
    | none => if w = helpCommand ∧ ws = [] ∧ c.below ≠ [] then .help else .unknownCommand

def isNumber (s : List Char) : Bool :=
  let whole := s.takeWhile Numeral.isFigure
  let rest := s.dropWhile Numeral.isFigure
  let afterPoint := match rest with
    | '.' :: r => if whole = [] then rest else r.dropWhile Numeral.isFigure
    | r => r
  match afterPoint with
  | [] => true
  | 'e' :: r => (whole ≠ []) && r ≠ [] && r.all Numeral.isFigure
  | _ => false

/-- Where the words of one level lead: on, to a command below, or to a fault. -/
inductive Move where
  | stay (l : Level)
  | enter (l : Level) (c : Command)
  | fail (f : Fault)

def Move.ofExcept : Except Fault Level → Move
  | .ok l => .stay l
  | .error f => .fail f

def helpFlag : String := "help"

def versionFlag : String := "version"

def long (l : Level) (s : List Char) : Move :=
  let name := String.ofList (s.takeWhile (· != '='))
  let attached : Option String := match s.dropWhile (· != '=') with
    | [] => none
    | _ :: v => some (String.ofList v)
  let switch (r : Except Fault Level) : Move :=
    if attached.isSome then .fail .unwantedValue else .ofExcept r
  if name = g.flag then switch (l.raise g.flag)
  else if name = helpFlag then switch (l.settle.bind fun _ => .error .help)
  else if name = versionFlag ∧ l.command.versioned then
    switch (l.settle.bind fun _ => .error .version)
  else
    match l.command.options.find? fun o => o.name = name with
    | none => .fail .unknownArgument
    | some spec =>
      match attached with
      | some v => .ofExcept (l.settle.bind fun l => l.take spec v)
      | none => .ofExcept (l.settle.map fun l => { l with pending := some ⟨spec, none⟩ })

def short (l : Level) (s : List Char) : Move :=
  match s with
  | 'h' :: _ => .ofExcept (l.settle.bind fun _ => .error .help)
  | 'V' :: _ =>
    if l.command.versioned then .ofExcept (l.settle.bind fun _ => .error .version)
    else .fail .unknownArgument
  | _ => .fail .unknownArgument

def atPlace (l : Level) (word : String) : Move :=
  match l.place? with
  | some spec =>
    .ofExcept (l.settle.map fun l => { l with pending := some ⟨spec, some word⟩, placed := true })
  | none =>
    if l.escaped ∧ (word ∈ l.command.below ∨ (l.command.below ≠ [] ∧ word = helpCommand)) then
      .fail .unknownArgument
    else if l.command.below ≠ [] then .fail .unknownCommand
    else .fail .unknownArgument

def plain (l : Level) (word : String) : Move :=
  match l.awaiting? with
  | some spec => .stay { l with pending := some ⟨spec, some word⟩ }
  | none => atPlace l word

def negativesAllowed (l : Level) : Bool :=
  (l.awaiting?.any Spec.negatives) || (l.place?.any Spec.negatives)

def step (l : Level) (word : String) (rest : List String) : Move :=
  if l.escaped then atPlace l word
  else
    let entered := if l.awaiting?.isSome then none else g.below? l.command word
    match entered with
    | some c => .enter l c
    | none =>
      if l.awaiting?.isNone ∧ l.command.below ≠ [] ∧ word = helpCommand then
        .fail (g.helpOn l.command rest)
      else
        match word.toList with
        | ['-', '-'] => .stay { l with escaped := true }
        | '-' :: '-' :: s => g.long l s
        | ['-'] => plain l word
        | '-' :: s => if negativesAllowed l ∧ isNumber s then plain l word else short l s
        | _ => plain l word

def fill (env : String → Option String) (l : Level) : List Spec → Except Fault Level
  | [] => .ok l
  | spec :: specs =>
    if (l.find? spec.name).isSome then fill env l specs
    else
      match spec.variable_.bind env <|> spec.default with
      | none => fill env l specs
      | some text => (l.take spec text).bind fun l => fill env l specs

def specs (c : Command) : List Spec := c.options ++ c.place.toList

def finish (env : String → Option String) (l : Level) (entered : Bool) : Except Fault Level :=
  l.settle.bind fun l =>
    if ¬entered ∧ l.command.below ≠ [] then
      .error (if l.given = [] then .helpForNothing else .noCommand)
    else
      (fill env l (specs l.command)).bind fun l =>
        if (specs l.command).any fun s => s.required && (l.find? s.name).isNone then
          .error .missingArgument
        else .ok l

/-- Levels outside of the last one ask for nothing more. -/
def scan (env : String → Option String) (outer : List Level) (l : Level) :
    List String → Except Fault (List Level)
  | [] => (finish env l false).map fun l => l :: outer
  | w :: ws =>
    match g.step l w ws with
    | .stay l => scan env outer l ws
    | .enter l c => scan env (l :: outer) (Level.start c) ws
    | .fail f => .error f

def read (env : String → Option String) (words : List String) : Except Fault (List Level) :=
  g.scan env [] (Level.start g.root) words

end Grammar

end TokenAudit.Arguments
