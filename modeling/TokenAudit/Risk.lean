/-! The eight-bit risk code: its bits, masks, named checks and readings. -/

namespace TokenAudit

inductive Family where
  | fixed
  | model
  deriving DecidableEq, Repr

inductive RiskBit where
  | unverifiedCode
  | sellRestriction
  | knownHoneypot
  | upgradeableProxy
  | obfuscatedTax
  | privilegeEscalation
  | externalCallRisk
  | logicBomb
  deriving DecidableEq, Repr

namespace RiskBit

def all : List RiskBit :=
  [unverifiedCode, sellRestriction, knownHoneypot, upgradeableProxy,
   obfuscatedTax, privilegeEscalation, externalCallRisk, logicBomb]

def index : RiskBit → Nat
  | unverifiedCode => 0
  | sellRestriction => 1
  | knownHoneypot => 2
  | upgradeableProxy => 3
  | obfuscatedTax => 4
  | privilegeEscalation => 5
  | externalCallRisk => 6
  | logicBomb => 7

def label : RiskBit → String
  | unverifiedCode => "Unverified Code"
  | sellRestriction => "Sell Restriction"
  | knownHoneypot => "Known Honeypot"
  | upgradeableProxy => "Upgradeable Proxy"
  | obfuscatedTax => "Obfuscated Tax"
  | privilegeEscalation => "Privilege Escalation"
  | externalCallRisk => "External Call Risk"
  | logicBomb => "Logic Bomb"

def key : RiskBit → String
  | unverifiedCode => "unverified_code"
  | sellRestriction => "sell_restriction"
  | knownHoneypot => "known_honeypot"
  | upgradeableProxy => "upgradeable_proxy"
  | obfuscatedTax => "obfuscated_tax"
  | privilegeEscalation => "privilege_escalation"
  | externalCallRisk => "external_call_risk"
  | logicBomb => "logic_bomb"

def family (b : RiskBit) : Family := if b.index < 4 then .fixed else .model

def ofLabel? (label : String) : Option RiskBit := all.find? fun b => b.label = label

def ofKey? (key : String) : Option RiskBit := all.find? fun b => b.key = key

def modelBits : List RiskBit := [obfuscatedTax, privilegeEscalation, externalCallRisk, logicBomb]

def mask (b : RiskBit) : UInt8 := 1 <<< UInt8.ofNat b.index

end RiskBit

structure RiskMask where
  bits : UInt8
  deriving DecidableEq, Repr

structure RiskCheck where
  name : String
  triggered : Bool
  deriving DecidableEq, Repr

namespace RiskMask

def clean : RiskMask := ⟨0⟩

def isClean (m : RiskMask) : Bool := m.bits == 0

def contains (m : RiskMask) (b : RiskBit) : Bool := m.bits &&& b.mask != 0

def insert (m : RiskMask) (b : RiskBit) : RiskMask := ⟨m.bits ||| b.mask⟩

def erase (m : RiskMask) (b : RiskBit) : RiskMask := ⟨m.bits &&& ~~~b.mask⟩

def set (m : RiskMask) (b : RiskBit) (on : Bool) : RiskMask := if on then m.insert b else m.erase b

def union (m n : RiskMask) : RiskMask := ⟨m.bits ||| n.bits⟩

def inter (m n : RiskMask) : RiskMask := ⟨m.bits &&& n.bits⟩

def familyBits : Family → RiskMask
  | .fixed => ⟨0x0f⟩
  | .model => ⟨0xf0⟩

def only (m : RiskMask) (f : Family) : RiskMask := m.inter (familyBits f)

def triggered (m : RiskMask) : List RiskBit := RiskBit.all.filter m.contains

def checks (m : RiskMask) : List RiskCheck := RiskBit.all.map fun b => ⟨b.label, m.contains b⟩

def setChecks : RiskMask → List RiskCheck → Except String RiskMask
  | m, [] => .ok m
  | m, c :: cs =>
    match RiskBit.ofLabel? c.name with
    | some b => setChecks (m.set b c.triggered) cs
    | none => .error c.name

def ofChecks (cs : List RiskCheck) : Except String RiskMask := setChecks clean cs

def unknownCheckMessage (name : String) : String := s!"unknown risk check '{name}'"

def summary (m : RiskMask) : String :=
  if m.isClean then "No risk detectors triggered; trade cleared."
  else
    let names := ", ".intercalate (m.triggered.map RiskBit.label)
    s!"Blocked by risk code {m.bits.toNat}: {names}."

/-- Votes of the models: every vote counts when strict, any vote when not; no votes, no bits. -/
def combine (votes : List RiskMask) (strict : Bool) : RiskMask :=
  match votes with
  | [] => clean
  | first :: _ => (if strict then votes.foldl inter first else votes.foldl union clean).only .model

end RiskMask

inductive VerdictStatus where
  | approved
  | blocked
  | error
  deriving DecidableEq, Repr

/-- Scores from 1 to 255 block, zero approves, and nothing else is a risk code. -/
def VerdictStatus.ofScore (score : Int) : VerdictStatus :=
  if score = 0 then .approved
  else if 1 ≤ score ∧ score ≤ 255 then .blocked
  else .error

def riskCode? (score : Int) : Option RiskMask :=
  if 0 ≤ score ∧ score ≤ 255 then some ⟨UInt8.ofNat score.toNat⟩ else none

structure RiskDecoding where
  score : Int
  status : VerdictStatus
  checks : List RiskCheck
  reasoning : String
  deriving DecidableEq, Repr

namespace RiskDecoding

def ofScore (score : Int) : RiskDecoding :=
  match riskCode? score with
  | some m => ⟨score, VerdictStatus.ofScore score, m.checks, m.summary⟩
  | none => ⟨score, .error, [], s!"{score} is not a risk code"⟩

end RiskDecoding

end TokenAudit
