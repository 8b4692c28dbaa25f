import TokenAudit.Proofs.Pipeline.Explanation
import TokenAudit.Service.Assembly

/-! Which detectors of an assembled pipeline are visible on its stream. Settings without a fault give
the models names that differ from each other, but not from the one under which the security lookup is
told of; a model of that name and the lookup share one sequence of records. -/

namespace TokenAudit

def Event.isStart : Event → Bool
  | .detectorStarted _ _ => true
  | _ => false

def Event.isEnd : Event → Bool
  | .detectorScore _ _ => true
  | .detectorError _ _ => true
  | _ => false

theorem Event.detector?_of_isStart {e : Event} (h : e.isStart = true) : e.detector? ≠ none := by
  cases e with
  | detectorStarted => exact nofun
  | _ => cases h

theorem Event.detector?_of_isEnd {e : Event} (h : e.isEnd = true) : e.detector? ≠ none := by
  cases e with
  | detectorScore | detectorError => exact nofun
  | _ => cases h

namespace Panel

variable {σ α : Type}

theorem conclusion_isEnd (name : String) (timeoutMs : Nat) (score : α → UInt8) (o : Outcome α) :
    (conclusion name timeoutMs score o).isEnd = true ∧
      (conclusion name timeoutMs score o).isStart = false := by
  cases o <;> exact ⟨rfl, rfl⟩

section

variable (p : Panel σ) (token : Address) (source : SourceResult) (s : σ)

theorem filter_work_perm {P : Event → Bool} {x : Event} {f : Worked Assessment → Event}
    (hsecurity : [.detectorStarted securityName .fixed, p.securityEnd token source s,
      Feed.phaseEvent .staticAnalysis .done].filter P = [x])
    (hmodel : ∀ w ∈ p.works token source s, (told w).filter P = [f w]) :
    ((askedFor (p.work token source s)).filter P).Perm (x :: (p.works token source s).map f) := by
  have hperm := (p.interleaved_work token source s).told_perm.filter P
  have hmodels : ((p.works token source s).flatMap fun w => (told w).filter P) =
      (p.works token source s).map f := by
    rw [List.map_eq_flatMap]
    exact List.flatMap_congr hmodel
  unfold lanes at hperm
  rw [List.map_cons, List.flatMap_cons, told_security, List.filter_append, hsecurity, List.map_map,
    List.flatMap_map, List.filter_flatMap] at hperm
  exact hmodels ▸ hperm

theorem starts_work : ((askedFor (p.work token source s)).filter Event.isStart).Perm
    (.detectorStarted securityName .fixed ::
      (p.works token source s).map fun w => .detectorStarted w.name .model) := by
  refine p.filter_work_perm token source s ?_ fun w hw => ?_
  · have hend : (p.securityEnd token source s).isStart = false := (conclusion_isEnd ..).2
    exact congrArg (_ :: ·) (List.filter_cons_of_neg (by simp [hend]))
  · obtain ⟨texts, htells, -⟩ := p.tells_works token source s w hw
    have hend : (modelEnd p.timeoutMs w).isStart = false := (conclusion_isEnd ..).2
    rw [htells, List.filter_cons_of_pos rfl, List.filter_cons_of_neg Bool.false_ne_true,
      List.filter_append, List.filter_cons_of_neg (by simp [hend])]
    simp [Event.isStart]

theorem ends_work : ((askedFor (p.work token source s)).filter Event.isEnd).Perm
    (p.securityEnd token source s :: (p.works token source s).map (modelEnd p.timeoutMs)) := by
  refine p.filter_work_perm token source s ?_ fun w hw => ?_
  · have hend : (p.securityEnd token source s).isEnd = true := (conclusion_isEnd ..).1
    exact List.filter_cons_of_pos hend
  · obtain ⟨texts, htells, -⟩ := p.tells_works token source s w hw
    have hend : (modelEnd p.timeoutMs w).isEnd = true := (conclusion_isEnd ..).1
    rw [htells, List.filter_cons_of_neg Bool.false_ne_true,
      List.filter_cons_of_neg Bool.false_ne_true, List.filter_append,
      List.filter_cons_of_pos hend]
    simp [Event.isEnd]

end

end Panel

theorem Grammar.one_start {es : List Event} (h : Grammar es) (d : String) :
    ((detectorRecords d es).filter Event.isStart).length ≤ 1 := by
  obtain ⟨w, hw, hp⟩ := h.detectors d
  refine Nat.le_trans (hp.sublist.filter Event.isStart).length_le ?_
  obtain ⟨family, r, e, hr, he⟩ := hw
  have hreasoned : r.filter Event.isStart = [] := by
    cases hr with
    | silent => rfl
    | opened texts => simp [Event.isStart]
  have hend : e.isStart = false := by cases he <;> rfl
  rw [List.filter_cons_of_pos rfl, List.filter_append, hreasoned,
    List.filter_cons_of_neg (by simp [hend])]
  exact Nat.le_refl 1

/-! ### The names in settings -/

namespace Settings

theorem slotFault?_eq_none {seen : List String} {ms : List ModelSettings}
    (h : slotFault? seen ms = none) :
    (ms.map ModelSettings.name).Nodup ∧ ∀ m ∈ ms, m.name ∉ seen := by
  induction ms generalizing seen with
  | nil => exact ⟨List.nodup_nil, nofun⟩
  | cons m ms ih =>
    unfold slotFault? at h
    split at h
    · cases h
    split at h
    · cases h
    next hfresh =>
    split at h
    · cases h
    obtain ⟨hnodup, hunseen⟩ := ih h
    refine ⟨List.nodup_cons.mpr ⟨fun hmem => ?_, hnodup⟩, List.forall_mem_cons.mpr ⟨hfresh, ?_⟩⟩
    · obtain ⟨m', hm', hname⟩ := List.mem_map.mp hmem
      exact hunseen m' hm' (hname ▸ List.mem_cons_self)
    · exact fun m' hm' hmem => hunseen m' hm' (List.mem_cons_of_mem _ hmem)

theorem nodup_of_fault? {s : Settings} (h : s.fault? = none) :
    (s.detectors.models.map ModelSettings.name).Nodup := by
  have hslots : slotFault? [] s.detectors.models ∈ s.faults :=
    List.mem_append_right _ (List.mem_cons_of_mem _ (List.mem_cons_of_mem _ List.mem_cons_self))
  exact (slotFault?_eq_none (List.findSome?_eq_none_iff.mp h _ hslots)).1

end Settings

namespace Pipeline

variable {σ : Type}

theorem names_slotsOf {ports : Ports σ} {env : Variables} {ms : List ModelSettings}
    {slots : List (Slot σ)} (h : slotsOf ports env ms = .ok slots) :
    slots.map Slot.name = ms.map ModelSettings.name := by
  induction ms generalizing slots with
  | nil =>
    cases h
    rfl
  | cons m ms ih =>
    unfold slotsOf at h
    split at h
    · cases h
    next client _ =>
    cases hrest : slotsOf ports env ms with
    | error e =>
      rw [hrest] at h
      cases h
    | ok rest =>
      rw [hrest] at h
      cases h
      have hname : (ports.slot m.name client).name = m.name := by cases client <;> rfl
      rw [List.map_cons, List.map_cons, hname, ih hrest]

theorem names_ofSettings {ports : Ports σ} {env : Variables} {s : Settings} {p : Pipeline σ}
    (h : ofSettings ports env s = .ok p) :
    p.panel.slots.map Slot.name = s.detectors.models.map ModelSettings.name := by
  unfold ofSettings at h
  dsimp only at h
  split at h
  · cases h
  next slots hslots =>
  generalize committerOf _ s = committer at h
  cases committer with
  | error => cases h
  | ok c =>
    rw [← Except.ok.inj h]
    exact names_slotsOf hslots

/-- For each detector the stream has one record of its start, with its family, and one of its end, with
its outcome. -/
structure Visible (p : Pipeline σ) (t : RunTerms) (token : Address) (a : Audit σ)
    (models : List String) (es : List Event) : Prop where
  starts : (es.filter Event.isStart).Perm
    (.detectorStarted Panel.securityName .fixed :: models.map (.detectorStarted · .model))
  ends : (es.filter Event.isEnd).Perm
    (p.panel.securityEnd token (p.found t token a) (p.asked t token a) ::
      (p.panel.works token (p.found t token a) (p.asked t token a)).map
        (Panel.modelEnd p.panel.timeoutMs))

section

variable {p : Pipeline σ} {t : RunTerms} {token : Address} {a : Audit σ} {models : List String}
  {es rest : List Event} (hrest : ∀ e ∈ rest, e.detector? = none)

include hrest

theorem visible_of_heard
    (hmodels : (p.panel.works token (p.found t token a) (p.asked t token a)).map Worked.name = models)
    (hes : es = opening ++ (p.detection t token a ++ closing)) :
    p.Visible t token a models (es ++ rest) := by
  rw [hes, List.append_assoc, List.append_assoc]
  constructor
  · rw [filter_around Event.detector?_of_isStart hrest, ← hmodels, List.map_map]
    exact p.panel.starts_work token (p.found t token a) (p.asked t token a)
  · rw [filter_around Event.detector?_of_isEnd hrest]
    exact p.panel.ends_work token (p.found t token a) (p.asked t token a)

theorem Visible.not_mem (h : p.Visible t token a models (es ++ rest)) (hg : Grammar es) :
    Panel.securityName ∉ models := by
  intro hmem
  have hone := hg.one_start Panel.securityName
  have hperm : (detectorRecords Panel.securityName ((es ++ rest).filter Event.isStart)).length =
      (detectorRecords Panel.securityName (models.map (.detectorStarted · .model))).length + 1 :=
    (h.starts.filter _).length_eq
  have hmodel : .detectorStarted Panel.securityName .model ∈
      detectorRecords Panel.securityName (models.map (.detectorStarted · .model)) :=
    mem_detectorRecords.mpr ⟨List.mem_map_of_mem hmem, rfl⟩
  have hpos := List.length_pos_of_mem hmodel
  have hcomm : detectorRecords Panel.securityName (es.filter Event.isStart) =
      (detectorRecords Panel.securityName es).filter Event.isStart := List.filter_comm ..
  rw [List.filter_append, filter_of_no_detector Event.detector?_of_isStart hrest,
    List.append_nil, hcomm] at hperm
  omega

end

/-- Of a run on a readable source of a pipeline that is put together from settings without a fault, in
whatever order its detectors work. -/
theorem visible_unless_named_alike (ports : Ports σ) (env : Variables) (s : Settings)
    (p : Pipeline σ) (order : Panel.Order) (t : RunTerms) (request : AuditRequest) (now : Nat)
    (state : σ) (ledger : Ledger) (hvalid : s.fault? = none) (hp : ofSettings ports env s = .ok p)
    (hz : request.token ≠ .zero) (h : ¬p.Abandoned t request.token (start now state ledger))
    (havailable : (p.found t request.token (start now state ledger)).isAvailable = true) :
    let q : Pipeline σ := { p with panel := { p.panel with order := order } }
    let a := start now state ledger
    q.Visible t request.token a (s.detectors.models.map ModelSettings.name)
      (q.run t request a).2.stream.events ↔
        ∀ m ∈ s.detectors.models, m.name ≠ Panel.securityName := by
  intro q a
  have hslots : q.panel.slots.map Slot.name = s.detectors.models.map ModelSettings.name := by
    rw [← names_ofSettings hp]
  have hworks : (q.panel.works request.token (q.found t request.token a)
      (q.asked t request.token a)).map Worked.name = s.detectors.models.map ModelSettings.name := by
    have hfound : (q.found t request.token a).isAvailable = true := havailable
    rw [q.panel.names_works, if_pos hfound, hslots]
  obtain ⟨rest, hevents, hrest⟩ := events_run (p := q) (t := t) (a := a) hz h rfl
  rw [hevents]
  constructor
  · intro hvisible m hm hname
    -- Without names that differ the calls are not all heard, yet what is heard keeps to the grammar.
    have hgrammar : Grammar (q.judged t request.token a).stream.events :=
      (Stream.sound_empty.calls (q.script t request.token a)).grammar
    exact hvisible.not_mem hrest hgrammar (hname ▸ List.mem_map_of_mem hm)
  · intro hnames
    have hdistinct : q.panel.Distinct := by
      unfold Panel.Distinct
      rw [hslots]
      refine List.nodup_cons.mpr ⟨fun hmem => ?_, Settings.nodup_of_fault? hvalid⟩
      obtain ⟨m, hm, hname⟩ := List.mem_map.mp hmem
      exact hnames m hm hname
    exact visible_of_heard hrest hworks (events_judged (hdistinct.names ..) rfl)

theorem exists_assembled {r : Except AssemblyFault (Pipeline σ)} {P : Pipeline σ → Prop}
    [DecidablePred P] (h : r.toOption.any (fun p => decide (P p)) = true) :
    ∃ p, r = .ok p ∧ P p := by
  cases r with
  | error => cases h
  | ok p => exact ⟨p, rfl, of_decide_eq_true h⟩

def settingsWith (name : String) : Settings where
  global := ⟨"audit"⟩
  telemetry := .default
  api := .default
  chain :=
    ⟨"http://node", 8453, "0x1234567890123456789012345678901234567890", none, .v1, 10000⟩
  explorer := .default
  decompiler := .default
  security := .default
  detectors := { DetectorSettings.default with models := [⟨name, "mock", "", none⟩] }
  pipeline := { PipelineSettings.default with commitEnabled := false }
  poller := .default

def verifiedPorts : Ports Unit where
  network _ _ := Ask.pure (.ok ⟨200, verifiedText.toList.map fun c => UInt8.ofNat c.toNat⟩)
  nextId s := (1, s)
  askModel _ _ _ s := (⟨none, [], fun s => (([], .timedOut), s)⟩, s)
where
  verifiedText : String :=
    "\x7b\"status\":\"1\",\"message\":\"OK\"," ++
      "\"result\":[\x7b\"SourceCode\":\"contract\",\"ContractName\":\"C\"\x7d]\x7d"

theorem model_named_like_lookup_is_hidden :
    (settingsWith "GoPlus").fault? = none ∧
      ∃ p, ofSettings verifiedPorts (fun _ => none) (settingsWith "GoPlus") = .ok p ∧
        (p.found ⟨none, ⟨2025, 1, 1, 0, 0⟩⟩ ⟨1⟩ (start 0 () [])).isAvailable = true ∧
        ¬p.Visible ⟨none, ⟨2025, 1, 1, 0, 0⟩⟩ ⟨1⟩ (start 0 () []) ["GoPlus"]
          (p.run ⟨none, ⟨2025, 1, 1, 0, 0⟩⟩ ⟨7, ⟨1⟩, 0⟩ (start 0 () [])).2.stream.events := by
  refine ⟨by decide +kernel, ?_⟩
  have hassembled : ∃ p, ofSettings verifiedPorts (fun _ => none) (settingsWith "GoPlus") = .ok p ∧
      (p.found ⟨none, ⟨2025, 1, 1, 0, 0⟩⟩ ⟨1⟩ (start 0 () [])).isAvailable = true ∧
      (p.run ⟨none, ⟨2025, 1, 1, 0, 0⟩⟩ ⟨7, ⟨1⟩, 0⟩ (start 0 () [])).2.stream.events.filter
        Event.isStart = [.detectorStarted "GoPlus" .fixed] :=
    exists_assembled (by decide +kernel)
  obtain ⟨p, hp, hfound, hstarts⟩ := hassembled
  refine ⟨p, hp, hfound, fun hvisible => ?_⟩
  have htwo := hvisible.starts.length_eq
  rw [hstarts] at htwo
  exact absurd htwo (by decide)

theorem model_named_otherwise_is_visible :
    ∃ p, ofSettings verifiedPorts (fun _ => none) (settingsWith "GPT") = .ok p ∧
      p.Visible ⟨none, ⟨2025, 1, 1, 0, 0⟩⟩ ⟨1⟩ (start 0 () []) ["GPT"]
        (p.run ⟨none, ⟨2025, 1, 1, 0, 0⟩⟩ ⟨7, ⟨1⟩, 0⟩ (start 0 () [])).2.stream.events := by
  have hassembled : ∃ p, ofSettings verifiedPorts (fun _ => none) (settingsWith "GPT") = .ok p ∧
      (p.found ⟨none, ⟨2025, 1, 1, 0, 0⟩⟩ ⟨1⟩ (start 0 () [])).isAvailable = true :=
    exists_assembled (by decide +kernel)
  obtain ⟨p, hp, hfound⟩ := hassembled
  refine ⟨p, hp, ?_⟩
  have hnames : ∀ m ∈ (settingsWith "GPT").detectors.models, m.name ≠ Panel.securityName := by
    decide +kernel
  have hiff := visible_unless_named_alike verifiedPorts (fun _ => none) (settingsWith "GPT") p
    p.panel.order ⟨none, ⟨2025, 1, 1, 0, 0⟩⟩ ⟨7, ⟨1⟩, 0⟩ 0 () [] (by decide +kernel) hp
    (by decide +kernel) (fun ⟨_, h, _⟩ => nomatch h) hfound
  exact hiff.mpr hnames

end Pipeline

end TokenAudit
