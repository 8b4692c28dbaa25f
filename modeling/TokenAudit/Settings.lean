import TokenAudit.Calldata
import TokenAudit.Wire

/-! The settings of the audit service, their defaults, and their record form. -/

namespace TokenAudit

structure GlobalSettings where
  instanceId : String

structure TelemetrySettings where
  serviceName : Option String
  otlpEndpoint : Option String

structure ApiSettings where
  bindAddr : String

structure ChainSettings where
  rpcUrl : String
  chainId : UInt64
  moduleAddress : String
  committerAddress : Option String
  protocol : Calldata.Protocol
  rpcTimeoutMs : UInt64

structure ExplorerSettings where
  baseUrl : String
  apiKeyEnv : String

structure DecompilerSettings where
  baseUrl : String
  apiKeyEnv : String
  pollIntervalMs : UInt64
  maxPollAttempts : UInt32
  maxOutputChars : UInt64

structure SecuritySettings where
  baseUrl : String

structure ModelSettings where
  name : String
  provider : String
  model : String
  baseUrl : Option String

structure DetectorSettings where
  sellTaxThreshold : Float
  strictConsensus : Bool
  detectorTimeoutMs : UInt64
  models : List ModelSettings

structure PipelineSettings where
  sourceTimeoutMs : UInt64
  commitEnabled : Bool
  confirmAttempts : UInt32

structure PollerSettings where
  intervalMs : UInt64
  maxAttempts : UInt32

structure Settings where
  global : GlobalSettings
  telemetry : TelemetrySettings
  api : ApiSettings
  chain : ChainSettings
  explorer : ExplorerSettings
  decompiler : DecompilerSettings
  security : SecuritySettings
  detectors : DetectorSettings
  pipeline : PipelineSettings
  poller : PollerSettings

namespace GlobalSettings

def toJson (s : GlobalSettings) : Json := .obj [("instance_id", .str s.instanceId)]

def ofJson? (j : Json) : Option GlobalSettings :=
  match j.fields ["instance_id"] false with
  | some [instanceId] => do return ⟨← instanceId.required Json.readString?⟩
  | _ => none

end GlobalSettings

namespace TelemetrySettings

def default : TelemetrySettings := ⟨none, none⟩

def toJson (s : TelemetrySettings) : Json :=
  .obj [("service_name", .ofOption Json.str s.serviceName),
    ("otlp_endpoint", .ofOption Json.str s.otlpEndpoint)]

def ofJson? (j : Json) : Option TelemetrySettings :=
  match j.fields ["service_name", "otlp_endpoint"] false with
  | some [serviceName, otlpEndpoint] => do
    return ⟨← serviceName.optional Json.readString?, ← otlpEndpoint.optional Json.readString?⟩
  | _ => none

end TelemetrySettings

namespace ApiSettings

def default : ApiSettings := ⟨"127.0.0.1:9340"⟩

def toJson (s : ApiSettings) : Json := .obj [("bind_addr", .str s.bindAddr)]

def ofJson? (j : Json) : Option ApiSettings :=
  match j.fields ["bind_addr"] false with
  | some [bindAddr] => do return ⟨← bindAddr.defaulted default.bindAddr Json.readString?⟩
  | _ => none

end ApiSettings

namespace ChainSettings

def toJson (s : ChainSettings) : Json :=
  .obj [("rpc_url", .str s.rpcUrl), ("chain_id", .ofUInt64 s.chainId),
    ("module_address", .str s.moduleAddress),
    ("committer_address", .ofOption Json.str s.committerAddress),
    ("protocol", s.protocol.toJson), ("rpc_timeout_ms", .ofUInt64 s.rpcTimeoutMs)]

def ofJson? (j : Json) : Option ChainSettings :=
  match j.fields ["rpc_url", "chain_id", "module_address", "committer_address", "protocol",
    "rpc_timeout_ms"] true with
  | some [rpcUrl, chainId, moduleAddress, committerAddress, protocol, rpcTimeoutMs] => do
    return { rpcUrl := ← rpcUrl.required Json.readString?
             chainId := ← chainId.defaulted 8453 Json.readUInt64?
             moduleAddress := ← moduleAddress.required Json.readString?
             committerAddress := ← committerAddress.optionalTail Json.readString?
             protocol := ← protocol.defaulted .v1 Calldata.Protocol.ofJson?
             rpcTimeoutMs := ← rpcTimeoutMs.defaulted 10000 Json.readUInt64? }
  | _ => none

end ChainSettings

namespace ExplorerSettings

def default : ExplorerSettings := ⟨"https://api.basescan.org", "BASESCAN_API_KEY"⟩

def toJson (s : ExplorerSettings) : Json :=
  .obj [("base_url", .str s.baseUrl), ("api_key_env", .str s.apiKeyEnv)]

def ofJson? (j : Json) : Option ExplorerSettings :=
  match j.fields ["base_url", "api_key_env"] true with
  | some [baseUrl, apiKeyEnv] => do
    return ⟨← baseUrl.defaulted default.baseUrl Json.readString?,
      ← apiKeyEnv.defaulted default.apiKeyEnv Json.readString?⟩
  | _ => none

end ExplorerSettings

namespace DecompilerSettings

def default : DecompilerSettings :=
  ⟨"https://api.dedaub.com", "DEDAUB_API_KEY", 3000, 10, 15000⟩

def toJson (s : DecompilerSettings) : Json :=
  .obj [("base_url", .str s.baseUrl), ("api_key_env", .str s.apiKeyEnv),
    ("poll_interval_ms", .ofUInt64 s.pollIntervalMs),
    ("max_poll_attempts", .ofUInt32 s.maxPollAttempts),
    ("max_output_chars", .ofUInt64 s.maxOutputChars)]

def ofJson? (j : Json) : Option DecompilerSettings :=
  match j.fields ["base_url", "api_key_env", "poll_interval_ms", "max_poll_attempts",
    "max_output_chars"] true with
  | some [baseUrl, apiKeyEnv, pollIntervalMs, maxPollAttempts, maxOutputChars] => do
    return { baseUrl := ← baseUrl.defaulted default.baseUrl Json.readString?
             apiKeyEnv := ← apiKeyEnv.defaulted default.apiKeyEnv Json.readString?
             pollIntervalMs := ← pollIntervalMs.defaulted default.pollIntervalMs Json.readUInt64?
             maxPollAttempts :=
               ← maxPollAttempts.defaulted default.maxPollAttempts Json.readUInt32?
             maxOutputChars := ← maxOutputChars.defaulted default.maxOutputChars Json.readUInt64? }
  | _ => none

end DecompilerSettings

namespace SecuritySettings

def default : SecuritySettings := ⟨"https://api.gopluslabs.io"⟩

def toJson (s : SecuritySettings) : Json := .obj [("base_url", .str s.baseUrl)]

def ofJson? (j : Json) : Option SecuritySettings :=
  match j.fields ["base_url"] true with
  | some [baseUrl] => do return ⟨← baseUrl.defaulted default.baseUrl Json.readString?⟩
  | _ => none

end SecuritySettings

namespace ModelSettings

def toJson (s : ModelSettings) : Json :=
  .obj [("name", .str s.name), ("provider", .str s.provider), ("model", .str s.model),
    ("base_url", .ofOption Json.str s.baseUrl)]

def ofJson? (j : Json) : Option ModelSettings :=
  match j.fields ["name", "provider", "model", "base_url"] true with
  | some [name, provider, model, baseUrl] => do
    return { name := ← name.required Json.readString?
             provider := ← provider.required Json.readString?
             model := ← model.required Json.readString?
             baseUrl := ← baseUrl.optionalTail Json.readString? }
  | _ => none

end ModelSettings

namespace DetectorSettings

def default : DetectorSettings := ⟨0.1, false, 60000, []⟩

def toJson (s : DetectorSettings) : Json :=
  .obj [("sell_tax_threshold", .float s.sellTaxThreshold),
    ("strict_consensus", .bool s.strictConsensus),
    ("detector_timeout_ms", .ofUInt64 s.detectorTimeoutMs),
    ("models", .ofList ModelSettings.toJson s.models)]

def ofJson? (j : Json) : Option DetectorSettings :=
  match j.fields ["sell_tax_threshold", "strict_consensus", "detector_timeout_ms",
    "models"] true with
  | some [sellTaxThreshold, strictConsensus, detectorTimeoutMs, models] => do
    return { sellTaxThreshold :=
               ← sellTaxThreshold.defaulted default.sellTaxThreshold Json.readFloat?
             strictConsensus := ← strictConsensus.defaulted false Json.readBool?
             detectorTimeoutMs :=
               ← detectorTimeoutMs.defaulted default.detectorTimeoutMs Json.readUInt64?
             models := ← models.defaulted [] (Json.readList? ModelSettings.ofJson?) }
  | _ => none

end DetectorSettings

namespace PipelineSettings

def default : PipelineSettings := ⟨45000, true, 30⟩

def toJson (s : PipelineSettings) : Json :=
  .obj [("source_timeout_ms", .ofUInt64 s.sourceTimeoutMs),
    ("commit_enabled", .bool s.commitEnabled), ("confirm_attempts", .ofUInt32 s.confirmAttempts)]

def ofJson? (j : Json) : Option PipelineSettings :=
  match j.fields ["source_timeout_ms", "commit_enabled", "confirm_attempts"] true with
  | some [sourceTimeoutMs, commitEnabled, confirmAttempts] => do
    return ⟨← sourceTimeoutMs.defaulted default.sourceTimeoutMs Json.readUInt64?,
      ← commitEnabled.defaulted default.commitEnabled Json.readBool?,
      ← confirmAttempts.defaulted default.confirmAttempts Json.readUInt32?⟩
  | _ => none

end PipelineSettings

namespace PollerSettings

def default : PollerSettings := ⟨1000, 120⟩

def toJson (s : PollerSettings) : Json :=
  .obj [("interval_ms", .ofUInt64 s.intervalMs), ("max_attempts", .ofUInt32 s.maxAttempts)]

def ofJson? (j : Json) : Option PollerSettings :=
  match j.fields ["interval_ms", "max_attempts"] true with
  | some [intervalMs, maxAttempts] => do
    return ⟨← intervalMs.defaulted default.intervalMs Json.readUInt64?,
      ← maxAttempts.defaulted default.maxAttempts Json.readUInt32?⟩
  | _ => none

end PollerSettings

namespace Settings

def toJson (s : Settings) : Json :=
  .obj [("global", s.global.toJson), ("otel", s.telemetry.toJson), ("api", s.api.toJson),
    ("chain", s.chain.toJson), ("verified_source", s.explorer.toJson),
    ("decompiler", s.decompiler.toJson), ("token_security", s.security.toJson),
    ("detectors", s.detectors.toJson), ("pipeline", s.pipeline.toJson),
    ("poller", s.poller.toJson)]

def ofJson? (j : Json) : Option Settings :=
  match j.fields ["global", "otel", "api", "chain", "verified_source", "decompiler",
    "token_security", "detectors", "pipeline", "poller"] true with
  | some [global, telemetry, api, chain, explorer, decompiler, security, detectors, pipeline,
      poller] => do
    return { global := ← global.required GlobalSettings.ofJson?
             telemetry := ← telemetry.defaulted .default TelemetrySettings.ofJson?
             api := ← api.defaulted .default ApiSettings.ofJson?
             chain := ← chain.required ChainSettings.ofJson?
             explorer := ← explorer.defaulted .default ExplorerSettings.ofJson?
             decompiler := ← decompiler.defaulted .default DecompilerSettings.ofJson?
             security := ← security.defaulted .default SecuritySettings.ofJson?
             detectors := ← detectors.defaulted .default DetectorSettings.ofJson?
             pipeline := ← pipeline.defaulted .default PipelineSettings.ofJson?
             poller := ← poller.defaulted .default PollerSettings.ofJson? }
  | _ => none

end Settings

end TokenAudit
