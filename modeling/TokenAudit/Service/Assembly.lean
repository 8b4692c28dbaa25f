import TokenAudit.Detector.Security
import TokenAudit.Pipeline
import TokenAudit.Rpc.Chain
import TokenAudit.Settings.Fault
import TokenAudit.Source.Explorer
import TokenAudit.Source.JobService

/-! A pipeline put together from settings, the variables around it, and a network. -/

namespace TokenAudit

abbrev Variables : Type := String → Option String

inductive AssemblyFault where
  | noKey (variable_ provider : String)
  | noBaseUrl (provider : String)
  | noCommitter
  | badCommitter (fault : HexFault)
  | badModule (fault : HexFault)
  deriving DecidableEq

namespace AssemblyFault

def message : AssemblyFault → String
  | noKey variable_ provider => s!"{variable_} is required when using provider='{provider}'"
  | noBaseUrl provider => s!"provider '{provider}' requires a base_url in config"
  | noCommitter => "pipeline.commit_enabled requires chain.committer_address"
  | badCommitter fault => s!"chain.committer_address: {fault.message}"
  | badModule fault => s!"chain.module_address: {fault.message}"

end AssemblyFault

structure RemoteModel where
  provider : String
  model : String
  baseUrl : Option String
  key : String
  deriving DecidableEq

inductive ModelClient where
  | mock
  | remote (m : RemoteModel)
  deriving DecidableEq

namespace ModelClient

def keyVariable (provider : String) : String :=
  String.ofList ((Text.upperAscii provider.toList).map fun c => if c = '-' then '_' else c)
    ++ "_API_KEY"

def knownBaseUrl? : String → Option String
  | "groq" => some "https://api.groq.com/openai/v1"
  | "fireworks" => some "https://api.fireworks.ai/inference/v1"
  | "xai" => some "https://api.x.ai/v1"
  | "mistral" => some "https://api.mistral.ai/v1"
  | "together" => some "https://api.together.xyz/v1"
  | _ => none

def selfAddressed : String := "openai"

def ofSettings (env : Variables) (m : ModelSettings) : Except AssemblyFault ModelClient :=
  if m.provider = Settings.mockProvider then .ok mock
  else
    match env (keyVariable m.provider) with
    | none => .error (.noKey (keyVariable m.provider) m.provider)
    | some key =>
      match m.baseUrl <|> knownBaseUrl? m.provider with
      | some url => .ok (remote ⟨m.provider, m.model, some url, key⟩)
      | none =>
        if m.provider = selfAddressed then .ok (remote ⟨m.provider, m.model, none, key⟩)
        else .error (.noBaseUrl m.provider)

def mockAnswer : String := Assessment.flaggingAnswer [] "mock model reports no findings"

end ModelClient

structure Ports (σ : Type) where
  network : Nat → Web.Network σ
  nextId : σ → Int64 × σ
  askModel : RemoteModel → String → String → σ → ModelReply σ × σ

namespace Ports

variable {σ : Type}

def silent (nextId : σ → Int64 × σ) : Ports σ where
  network _ := .silent
  nextId := nextId
  askModel m _ _ s :=
    (⟨some 0, [], fun s => (([], .failed (.upstream m.provider 0 "no connection")), s)⟩, s)

def slot (p : Ports σ) (name : String) : ModelClient → Slot σ
  | .mock =>
    ⟨name, fun _ _ s =>
      (⟨some 0, [], fun s => (([ModelClient.mockAnswer], .answered ModelClient.mockAnswer), s)⟩, s)⟩
  | .remote m => ⟨name, p.askModel m⟩

end Ports

namespace Pipeline

variable {σ : Type}

def slotsOf (ports : Ports σ) (env : Variables) :
    List ModelSettings → Except AssemblyFault (List (Slot σ))
  | [] => .ok []
  | m :: ms =>
    match ModelClient.ofSettings env m with
    | .error e => .error e
    | .ok c => (slotsOf ports env ms).map (ports.slot m.name c :: ·)

def confirmIntervalMs : UInt64 := 1000

/-- Addresses are looked at only if verdicts are to be committed. -/
def committerOf (client : Rpc.Client σ) (s : Settings) :
    Except AssemblyFault (Option (Committer σ)) :=
  if ¬s.pipeline.commitEnabled then .ok none
  else
    match s.chain.committerAddress with
    | none => .error .noCommitter
    | some text =>
      match Settings.parseAddress text, Settings.parseAddress s.chain.moduleAddress with
      | .error e, _ => .error (.badCommitter e)
      | .ok _, .error e => .error (.badModule e)
      | .ok sender, .ok target =>
        .ok (some ⟨.ofClient client sender target, s.chain.protocol, s.pipeline.confirmAttempts,
          confirmIntervalMs⟩)

def ofSettings (ports : Ports σ) (env : Variables) (s : Settings) :
    Except AssemblyFault (Pipeline σ) :=
  let network := ports.network s.chain.rpcTimeoutMs.toNat
  let client := Rpc.Client.ofAddress s.chain.rpcUrl network ports.nextId
  let explorer : Explorer σ :=
    ⟨s.explorer.baseUrl, (env s.explorer.apiKeyEnv).getD "", network⟩
  let service : Decompiler.JobService σ :=
    ⟨s.decompiler.baseUrl, (env s.decompiler.apiKeyEnv).getD "", network⟩
  let security : SecurityService σ := ⟨s.security.baseUrl, s.chain.chainId, network⟩
  match slotsOf ports env s.detectors.models with
  | .error e => .error e
  | .ok slots =>
    (committerOf client s).map fun committer =>
      { resolver := ⟨explorer.source, client.code,
          .service service.transport (.ofSettings s.decompiler)⟩
        panel :=
          { security := security.lookup
            slots := slots
            sellTaxThreshold := s.detectors.sellTaxThreshold
            strictConsensus := s.detectors.strictConsensus
            timeoutMs := s.detectors.detectorTimeoutMs.toNat }
        committer := committer
        sourceTimeoutMs := s.pipeline.sourceTimeoutMs.toNat }

end Pipeline

end TokenAudit
