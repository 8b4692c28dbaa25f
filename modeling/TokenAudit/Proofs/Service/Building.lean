import TokenAudit.Proofs.Service.Visibility

/-! Which settings without a fault a pipeline can be put together from. Their addresses are read once
more, with the same result; of the models nobody has asked where their provider is to be reached, and
that alone can still fail once every key is there. -/

namespace TokenAudit

/-! ### One model -/

namespace ModelSettings

/-- Providers that can be reached without an address in the settings. -/
def namedProviders : List String :=
  ["mock", "openai", "groq", "fireworks", "xai", "mistral", "together"]

def Addressed (m : ModelSettings) : Prop := m.baseUrl ≠ none ∨ m.provider ∈ namedProviders

def Keyed (env : Variables) (m : ModelSettings) : Prop :=
  m.provider ≠ Settings.mockProvider → env (ModelClient.keyVariable m.provider) ≠ none

instance (m : ModelSettings) : Decidable m.Addressed := inferInstanceAs (Decidable (_ ∨ _))

instance (env : Variables) (m : ModelSettings) : Decidable (m.Keyed env) :=
  inferInstanceAs (Decidable (_ → _))

end ModelSettings

namespace ModelClient

theorem mem_namedProviders {provider : String} :
    provider ∈ ModelSettings.namedProviders ↔ provider = Settings.mockProvider ∨
      provider = selfAddressed ∨ knownBaseUrl? provider ≠ none := by
  have hknown : knownBaseUrl? provider ≠ none ↔
      provider ∈ ["groq", "fireworks", "xai", "mistral", "together"] := by
    unfold knownBaseUrl?
    split <;> simp_all
  rw [hknown]
  exact List.mem_cons.trans (or_congr_right List.mem_cons)

variable {env : Variables} {m : ModelSettings}

theorem ofSettings_of_keyed (hkey : m.Keyed env) :
    (m.Addressed → ∃ c, ofSettings env m = .ok c) ∧
      (¬m.Addressed → ofSettings env m = .error (.noBaseUrl m.provider)) := by
  unfold ofSettings
  by_cases hmock : m.provider = Settings.mockProvider
  · rw [if_pos hmock]
    exact ⟨fun _ => ⟨_, rfl⟩, fun h => absurd (.inr (mem_namedProviders.mpr (.inl hmock))) h⟩
  obtain ⟨key, hkey⟩ := Option.ne_none_iff_exists'.mp (hkey hmock)
  have haddressed : m.Addressed ↔
      (m.baseUrl <|> knownBaseUrl? m.provider) ≠ none ∨ m.provider = selfAddressed := by
    unfold ModelSettings.Addressed
    rw [mem_namedProviders]
    cases m.baseUrl <;> simp [hmock, or_comm]
  rw [if_neg hmock, hkey, haddressed]
  cases (m.baseUrl <|> knownBaseUrl? m.provider) with
  | some url => exact ⟨fun _ => ⟨_, rfl⟩, fun h => absurd (.inl (Option.some_ne_none url)) h⟩
  | none =>
    dsimp only
    by_cases hself : m.provider = selfAddressed
    · rw [if_pos hself]
      exact ⟨fun _ => ⟨_, rfl⟩, fun h => absurd (.inr hself) h⟩
    · rw [if_neg hself]
      exact ⟨fun h => absurd h (by simp [hself]), fun _ => rfl⟩

end ModelClient

namespace Pipeline

variable {σ : Type}

/-! ### All models -/

section

variable (ports : Ports σ) {env : Variables} {ms : List ModelSettings}

theorem slotsOf_ok (h : ∀ m ∈ ms, ∃ c, ModelClient.ofSettings env m = .ok c) :
    ∃ slots, slotsOf ports env ms = .ok slots := by
  induction ms with
  | nil => exact ⟨[], rfl⟩
  | cons m ms ih =>
    obtain ⟨c, hc⟩ := h m List.mem_cons_self
    obtain ⟨slots, hslots⟩ := ih fun m' hm' => h m' (List.mem_cons_of_mem _ hm')
    refine ⟨ports.slot m.name c :: slots, ?_⟩
    rw [slotsOf, hc, hslots]
    rfl

theorem slotsOf_error {m : ModelSettings} {e : AssemblyFault} {before after : List ModelSettings}
    (hbefore : ∀ b ∈ before, ∃ c, ModelClient.ofSettings env b = .ok c)
    (hm : ModelClient.ofSettings env m = .error e) :
    slotsOf ports env (before ++ m :: after) = .error e := by
  induction before with
  | nil =>
    rw [List.nil_append, slotsOf, hm]
  | cons b before ih =>
    obtain ⟨c, hc⟩ := hbefore b List.mem_cons_self
    rw [List.cons_append, slotsOf, hc, ih fun b' hb' => hbefore b' (List.mem_cons_of_mem _ hb')]
    rfl

end

theorem exists_unaddressed {ms : List ModelSettings} (h : ¬∀ m ∈ ms, m.Addressed) :
    ∃ before m after, ms = before ++ m :: after ∧ (∀ b ∈ before, b.Addressed) ∧ ¬m.Addressed := by
  cases hfind : ms.find? fun m => !decide m.Addressed with
  | none =>
    exact absurd (fun m hm => by simpa using List.find?_eq_none.mp hfind m hm) h
  | some m =>
    obtain ⟨hm, before, after, rfl, hbefore⟩ := List.find?_eq_some_iff_append.mp hfind
    exact ⟨before, m, after, rfl, fun b hb => by simpa using hbefore b hb, by simpa using hm⟩

end Pipeline

/-! ### The addresses -/

namespace Settings

variable {s : Settings}

theorem moduleAddress_of_valid (h : s.fault? = none) :
    ∃ a, parseAddress s.chain.moduleAddress = .ok a ∧ a ≠ Address.zero := by
  have hfault : s.moduleFault? = none :=
    List.findSome?_eq_none_iff.mp h _ (List.mem_append_left _ (by simp))
  unfold moduleFault? at hfault
  cases hparse : parseAddress s.chain.moduleAddress with
  | error e =>
    rw [hparse] at hfault
    cases hfault
  | ok a =>
    rw [hparse] at hfault
    refine ⟨a, rfl, fun hzero => ?_⟩
    rw [hzero] at hfault
    cases hfault

theorem committerAddress_of_valid (h : s.fault? = none) (hcommit : s.pipeline.commitEnabled = true) :
    ∃ text a, s.chain.committerAddress = some text ∧ parseAddress text = .ok a := by
  have hfault : s.committerFault? = none :=
    List.findSome?_eq_none_iff.mp h _ (List.mem_append_left _ (by simp))
  unfold committerFault? at hfault
  cases htext : s.chain.committerAddress with
  | none =>
    rw [htext, hcommit] at hfault
    cases hfault
  | some text =>
    rw [htext] at hfault
    cases hparse : parseAddress text with
    | error e =>
      simp only [hparse] at hfault
      cases hfault
    | ok a => exact ⟨text, a, rfl, hparse⟩

end Settings

namespace Pipeline

variable {σ : Type} {s : Settings}

theorem committerOf_of_valid (client : Rpc.Client σ) (h : s.fault? = none) :
    ∃ committer, committerOf client s = .ok committer ∧
      committer.isSome = s.pipeline.commitEnabled := by
  unfold committerOf
  cases hcommit : s.pipeline.commitEnabled with
  | false => exact ⟨none, rfl, rfl⟩
  | true =>
    obtain ⟨text, sender, htext, hsender⟩ := Settings.committerAddress_of_valid h hcommit
    obtain ⟨target, htarget, -⟩ := Settings.moduleAddress_of_valid h
    rw [htext]
    simp only [hsender, htarget]
    exact ⟨_, rfl, rfl⟩

section

variable (ports : Ports σ) (env : Variables)

theorem ofSettings_of_slots (h : s.fault? = none) {slots : List (Slot σ)}
    (hslots : slotsOf ports env s.detectors.models = .ok slots) :
    ∃ p, ofSettings ports env s = .ok p ∧ p.panel.slots = slots ∧
      p.committer.isSome = s.pipeline.commitEnabled := by
  unfold ofSettings
  simp only [hslots]
  obtain ⟨committer, hcommitter, hsome⟩ := committerOf_of_valid
    (Rpc.Client.ofAddress s.chain.rpcUrl (ports.network s.chain.rpcTimeoutMs.toNat) ports.nextId) h
  rw [hcommitter]
  exact ⟨_, rfl, rfl, hsome⟩

theorem ofSettings_of_no_slots {e : AssemblyFault}
    (hslots : slotsOf ports env s.detectors.models = .error e) :
    ofSettings ports env s = .error e := by
  unfold ofSettings
  simp only [hslots]

variable {ports env}

theorem ofSettings_of_addressed (hvalid : s.fault? = none)
    (hkeys : ∀ m ∈ s.detectors.models, m.Keyed env)
    (haddressed : ∀ m ∈ s.detectors.models, m.Addressed) :
    ∃ p, ofSettings ports env s = .ok p ∧ p.committer.isSome = s.pipeline.commitEnabled := by
  obtain ⟨slots, hslots⟩ := slotsOf_ok ports fun m hm =>
    (ModelClient.ofSettings_of_keyed (hkeys m hm)).1 (haddressed m hm)
  obtain ⟨p, hp, -, hcommitter⟩ := ofSettings_of_slots ports env hvalid hslots
  exact ⟨p, hp, hcommitter⟩

theorem ofSettings_of_unaddressed (hkeys : ∀ m ∈ s.detectors.models, m.Keyed env)
    {m : ModelSettings} {before after : List ModelSettings}
    (hsplit : s.detectors.models = before ++ m :: after) (hbefore : ∀ b ∈ before, b.Addressed)
    (hm : ¬m.Addressed) : ofSettings ports env s = .error (.noBaseUrl m.provider) := by
  rw [hsplit] at hkeys
  refine ofSettings_of_no_slots ports env ?_
  rw [hsplit]
  refine slotsOf_error ports (fun b hb => ?_) ?_
  · exact (ModelClient.ofSettings_of_keyed (hkeys b (by simp [hb]))).1 (hbefore b hb)
  · exact (ModelClient.ofSettings_of_keyed (hkeys m (by simp))).2 hm

theorem addressed_of_ofSettings (hkeys : ∀ m ∈ s.detectors.models, m.Keyed env) {p : Pipeline σ}
    (hp : ofSettings ports env s = .ok p) : ∀ m ∈ s.detectors.models, m.Addressed := by
  by_contra hno
  obtain ⟨before, m, after, hsplit, hbefore, hm⟩ := exists_unaddressed hno
  cases hp.symm.trans (ofSettings_of_unaddressed hkeys hsplit hbefore hm)

variable (ports env)

/-- Of settings without a fault, and with the key of every model: a pipeline is put together exactly
where every model is addressed, with a committer exactly where verdicts are to be committed; and
otherwise the first model that is not addressed is the one reported. -/
theorem valid_settings_build_where_addressed (s : Settings) (hvalid : s.fault? = none)
    (hkeys : ∀ m ∈ s.detectors.models, m.Keyed env) :
    ((∃ p, ofSettings ports env s = .ok p) ↔ ∀ m ∈ s.detectors.models, m.Addressed) ∧
    (∀ p, ofSettings ports env s = .ok p →
      p.panel.slots.map Slot.name = s.detectors.models.map ModelSettings.name ∧
        p.committer.isSome = s.pipeline.commitEnabled) ∧
    ∀ e, ofSettings ports env s = .error e ↔ ∃ before m after,
      s.detectors.models = before ++ m :: after ∧ (∀ b ∈ before, b.Addressed) ∧ ¬m.Addressed ∧
        e = .noBaseUrl m.provider := by
  refine ⟨⟨fun ⟨p, hp⟩ => addressed_of_ofSettings hkeys hp, fun h => ?_⟩,
    fun p hp => ⟨names_ofSettings hp, ?_⟩, fun e => ⟨fun he => ?_, ?_⟩⟩
  · obtain ⟨p, hp, -⟩ := ofSettings_of_addressed hvalid hkeys h
    exact ⟨p, hp⟩
  · obtain ⟨p', hp', hcommitter⟩ :=
      ofSettings_of_addressed hvalid hkeys (addressed_of_ofSettings hkeys hp)
    cases hp.symm.trans hp'
    exact hcommitter
  · have hno : ¬∀ m ∈ s.detectors.models, m.Addressed := by
      intro h
      obtain ⟨p, hp, -⟩ := ofSettings_of_addressed hvalid hkeys h
      cases he.symm.trans hp
    obtain ⟨before, m, after, hsplit, hbefore, hm⟩ := exists_unaddressed hno
    refine ⟨before, m, after, hsplit, hbefore, hm, ?_⟩
    cases he.symm.trans (ofSettings_of_unaddressed hkeys hsplit hbefore hm)
    rfl
  · rintro ⟨before, m, after, hsplit, hbefore, hm, rfl⟩
    exact ofSettings_of_unaddressed hkeys hsplit hbefore hm

end

def committingWith (models : List ModelSettings) : Settings where
  global := ⟨"audit"⟩
  telemetry := .default
  api := .default
  chain :=
    ⟨"http://127.0.0.1:8545", 8453, "0x1234567890123456789012345678901234567890",
      some "0x00000000000000000000000000000000000000aa", .v1, 10000⟩
  explorer := .default
  decompiler := .default
  security := .default
  detectors := { DetectorSettings.default with models := models }
  pipeline := .default
  poller := .default

theorem addressed_model_builds :
    let s := committingWith [⟨"GPT", "openai", "gpt-4o", none⟩, ⟨"Mock", "mock", "", none⟩,
      ⟨"DeepSeek", "deep-infra", "deepseek-v3", some "http://models"⟩]
    ∃ p, ofSettings verifiedPorts (fun _ => some "key") s = .ok p ∧ p.committer.isSome = true := by
  intro s
  have hbuild := valid_settings_build_where_addressed verifiedPorts (fun _ => some "key") s
    (by decide +kernel) (fun m _ _ => nofun)
  obtain ⟨p, hp⟩ := hbuild.1.mpr (by decide +kernel)
  exact ⟨p, hp, (hbuild.2.1 p hp).2⟩

theorem unaddressed_model_does_not_build :
    let s := committingWith [⟨"DeepSeek", "deep-infra", "deepseek-v3", none⟩]
    s.fault? = none ∧ (∀ m ∈ s.detectors.models, m.Keyed fun _ => some "key") ∧
      ofSettings verifiedPorts (fun _ => some "key") s = .error (.noBaseUrl "deep-infra") := by
  intro s
  exact ⟨by decide +kernel, fun m _ _ => nofun, rfl⟩

end Pipeline

end TokenAudit
