import TokenAudit.Settings
import TokenAudit.Web.Host

/-! What makes settings unusable; the first fault in a fixed order is reported. -/

namespace TokenAudit

inductive SettingsFault where
  | blankInstance
  | noSocket (text : String)
  | blankRpcUrl
  | noAddress (field text : String) (fault : HexFault)
  | zeroModule
  | noCommitter
  | notPositive (field : String)
  | noAttempts (field : String)
  | noOutput
  | noFraction (threshold : Float)
  | blankSlot (model : String)
  | slotTwice (name : String)
  | noModel (name : String)

namespace SettingsFault

def message : SettingsFault → String
  | blankInstance => "global.instance_id must not be empty"
  | noSocket text =>
    s!"api.bind_addr '{text}' is not a socket address: invalid socket address syntax"
  | blankRpcUrl => "chain.rpc_url must not be empty"
  | noAddress field text fault => s!"{field} '{text}' is not an address: {fault.message}"
  | zeroModule => "chain.module_address must not be the zero address"
  | noCommitter => "pipeline.commit_enabled requires chain.committer_address"
  | notPositive field => s!"{field} must be positive"
  | noAttempts field => s!"{field} must be at least 1"
  | noOutput => "decompiler.max_output_chars must be at least 1"
  | noFraction threshold =>
    s!"detectors.sell_tax_threshold {Double.display threshold} must be a fraction in [0, 1]"
  | blankSlot model => s!"detector model slot with model '{model}' has an empty name"
  | slotTwice name => s!"detector model '{name}' is defined twice"
  | noModel name => s!"detector model '{name}' has no model id"

end SettingsFault

namespace Settings

def parseAddress (text : String) : Except HexFault Address := Address.parse (trimmed text)

def when (b : Bool) (f : SettingsFault) : Option SettingsFault := if b then some f else none

def moduleFault? (s : Settings) : Option SettingsFault :=
  match parseAddress s.chain.moduleAddress with
  | .error e => some (.noAddress "chain.module_address" s.chain.moduleAddress e)
  | .ok a => when (a = Address.zero) .zeroModule

/-- A sender is needed only for commits, but must be an address whenever there is one. -/
def committerFault? (s : Settings) : Option SettingsFault :=
  match s.chain.committerAddress with
  | some text =>
    match parseAddress text with
    | .error e => some (.noAddress "chain.committer_address" text e)
    | .ok _ => none
  | none => when s.pipeline.commitEnabled .noCommitter

def durations (s : Settings) : List (String × UInt64) :=
  [("chain.rpc_timeout_ms", s.chain.rpcTimeoutMs),
    ("decompiler.poll_interval_ms", s.decompiler.pollIntervalMs),
    ("detectors.detector_timeout_ms", s.detectors.detectorTimeoutMs),
    ("pipeline.source_timeout_ms", s.pipeline.sourceTimeoutMs),
    ("poller.interval_ms", s.poller.intervalMs)]

def attempts (s : Settings) : List (String × UInt32) :=
  [("decompiler.max_poll_attempts", s.decompiler.maxPollAttempts),
    ("pipeline.confirm_attempts", s.pipeline.confirmAttempts),
    ("poller.max_attempts", s.poller.maxAttempts)]

def mockProvider : String := "mock"

def slotFault? (seen : List String) : List ModelSettings → Option SettingsFault
  | [] => none
  | m :: ms =>
    if isBlankText m.name then some (.blankSlot m.model)
    else if m.name ∈ seen then some (.slotTwice m.name)
    else if m.provider ≠ mockProvider ∧ isBlankText m.model then some (.noModel m.name)
    else slotFault? (m.name :: seen) ms

def isFraction (x : Float) : Bool := 0 ≤ x && x ≤ 1

def faults (s : Settings) : List (Option SettingsFault) :=
  [when (isBlankText s.global.instanceId) .blankInstance,
    when (!Host.isSocket s.api.bindAddr.toList) (.noSocket s.api.bindAddr),
    when (isBlankText s.chain.rpcUrl) .blankRpcUrl,
    s.moduleFault?, s.committerFault?] ++
  s.durations.map (fun d => when (d.2 = 0) (.notPositive d.1)) ++
  s.attempts.map (fun a => when (a.2 = 0) (.noAttempts a.1)) ++
  [when (s.decompiler.maxOutputChars = 0) .noOutput,
    when (!isFraction s.detectors.sellTaxThreshold) (.noFraction s.detectors.sellTaxThreshold),
    slotFault? [] s.detectors.models]

def fault? (s : Settings) : Option SettingsFault := s.faults.findSome? fun f => f

end Settings

end TokenAudit
