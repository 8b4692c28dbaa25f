import TokenAudit.Risk
import TokenAudit.Source

/-! The fixed rules behind the first four bits. -/

namespace TokenAudit

/-- What the token-security service knows of a token; taxes are fractions. -/
structure SecurityReport where
  isOpenSource : Bool
  isHoneypot : Bool
  isProxy : Bool
  sellTax : Float
  buyTax : Float

namespace Rules

def proxySlot : String := "360894a13ba1a3210667c828492db98dca3e2076cc3735a920a3ca505d382bbc"

def hasProxySlot (source : String) : Bool :=
  Text.occurs proxySlot.toList (Text.lowerAscii source.toList)

/-- Without a report its bits stay clear. -/
def evaluate (sellTaxThreshold : Float) (report : Option SecurityReport) (source : SourceResult) :
    RiskMask :=
  let m := RiskMask.clean.set .unverifiedCode (!source.isAvailable)
  let m := match report with
    | some r =>
      ((m.set .sellRestriction (decide (sellTaxThreshold < r.sellTax))).set
        .knownHoneypot r.isHoneypot).set .upgradeableProxy r.isProxy
    | none => m
  if hasProxySlot source.source then m.set .upgradeableProxy true else m

end Rules

end TokenAudit
