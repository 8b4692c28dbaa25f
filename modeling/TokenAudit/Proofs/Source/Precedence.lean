import Mathlib.Data.List.TakeWhile
import TokenAudit.Proofs.Source.Readable
import TokenAudit.Proofs.Source.Requests

/-! Which source a search takes and whom it asks for one. Verified source goes before decompiled code;
the node is asked only for want of the first, the decompiler only about code that is worth it, and
whatever is found has a text. -/

namespace TokenAudit

theorem Text.trim_eq_nil_iff (s : List Char) : trim s = [] ↔ blank s = true := by
  have hright : ∀ t : List Char, trimRight t = [] ↔ ∀ c ∈ t, isBlank c = true := by
    intro t
    rw [trimRight, List.reverse_eq_nil_iff, List.dropWhile_eq_nil_iff]
    simp only [List.mem_reverse]
  rw [trim, hright, blank, List.all_eq_true, trimLeft]
  constructor
  · intro h c hc
    rw [← List.takeWhile_append_dropWhile (p := isBlank) (l := s)] at hc
    rcases List.mem_append.mp hc with hfront | hback
    · exact List.mem_takeWhile_imp hfront
    · exact h c hback
  · intro h c hc
    exact h c ((List.dropWhile_sublist isBlank).subset hc)

theorem trimmed_ne_empty_iff (s : String) : trimmed s ≠ "" ↔ isBlankText s = false := by
  have hempty : trimmed s = "" ↔ Text.trim s.toList = [] := by
    rw [trimmed, ← String.toList_inj, String.toList_ofList]
    rfl
  rw [Ne, hempty, Text.trim_eq_nil_iff, isBlankText, Bool.not_eq_true]

namespace Resolver

open World (SameMoment)
open Decompiler (SourceWorld requests requests_note requests_record requests_ask)

variable {σ α : Type}

/-! ### The way of a search -/

theorem ask_of_sameMoment {u v after : SourceWorld σ} {w : Window} {request : Ask σ α}
    {answer : Option α} (hm : u.SameMoment v) (h : v.ask w request = (answer, after)) :
    ∃ world, u.ask w request = (answer, world) ∧ world.SameMoment after ∧
      requests world = requests u := by
  obtain ⟨hanswer, hmoment⟩ := (World.Regular.ask request).blind w u v hm
  rw [h] at hanswer hmoment
  exact ⟨(u.ask w request).2, Prod.ext hanswer rfl, hmoment, requests_ask u w request⟩

section

variable (r : Resolver σ) {cancelAt : Option Nat} {address : Address} {start : SourceWorld σ}

theorem resolve_of_source {v : VerifiedSource} {after : SourceWorld σ}
    (h : start.ask ⟨cancelAt, none⟩ (r.explorer address) = (some (.ok (some v)), after))
    (hv : isBlankText v.source = false) :
    ∃ world, requests world = requests start ++ [.explorerAsked address] ∧ ∀ bytecode decompiler,
      Resolver.resolve ⟨r.explorer, bytecode, decompiler⟩ ⟨cancelAt, none⟩ address start =
        (some (.verified v.source v.contractName), world) := by
  obtain ⟨explored, hask, -, hrequests⟩ :=
    ask_of_sameMoment (World.sameMoment_record start (.explorerAsked address)) h
  have haccepted : accepted (.ok (some v)) = some v := by simp [accepted, hv]
  refine ⟨Decompiler.note explored (.verifiedFound address v.contractName), ?_,
    fun bytecode decompiler => ?_⟩
  · rw [requests_note, hrequests, requests_record _ rfl]
  · rw [resolve_eq, hask]
    simp only [World.andThen, onExplored, haccepted]

theorem resolve_of_unverified {unverified : SourceWorld σ}
    (h : r.Unverified cancelAt address start unverified) :
    ∃ before, before.SameMoment unverified ∧
      requests before = requests start ++ [.explorerAsked address] ∧ ∀ d : Decompiler σ,
        { r with decompiler := d }.resolve ⟨cancelAt, none⟩ address start =
          { r with decompiler := d }.fromBytecode ⟨cancelAt, none⟩ address before := by
  obtain ⟨answer, hask, hno⟩ := h
  obtain ⟨explored, hask, hmoment, hrequests⟩ :=
    ask_of_sameMoment (World.sameMoment_record start (.explorerAsked address)) hask
  rw [requests_record _ rfl] at hrequests
  have haccepted := accepted_of_noSource hno
  cases answer with
  | ok found =>
    refine ⟨explored, hmoment, hrequests, fun d => ?_⟩
    rw [resolve_eq, hask]
    simp only [World.andThen, onExplored, haccepted]
  | error e =>
    refine ⟨Decompiler.note explored (.lookupFailed address e),
      (Decompiler.sameMoment_note explored _).trans hmoment, ?_, fun d => ?_⟩
    · rw [requests_note, hrequests]
    · rw [resolve_eq, hask]
      rfl

theorem fromBytecode_of_answer {before unverified after : SourceWorld σ}
    {answer : Except AuditError String} (hm : before.SameMoment unverified)
    (h : unverified.ask ⟨cancelAt, none⟩ (r.bytecode address) = (some answer, after)) :
    ∃ fetched, fetched.SameMoment after ∧
      requests fetched = requests before ++ [.bytecodeAsked address] ∧ ∀ d : Decompiler σ,
        { r with decompiler := d }.fromBytecode ⟨cancelAt, none⟩ address before =
          { r with decompiler := d }.onBytecode ⟨cancelAt, none⟩ address answer fetched := by
  have hasking := (World.sameMoment_record _ (.bytecodeAsked address)).trans
    ((Decompiler.sameMoment_note before (.unverified address)).trans hm)
  obtain ⟨fetched, hask, hmoment, hrequests⟩ := ask_of_sameMoment hasking h
  rw [requests_record _ rfl, requests_note] at hrequests
  refine ⟨fetched, hmoment, hrequests, fun d => ?_⟩
  rw [fromBytecode_eq, hask]
  rfl

theorem requests_exhausted (world : SourceWorld σ) :
    requests (exhausted world).2 = requests world := requests_note world _

theorem requests_conclude (address : Address) (world : SourceWorld σ)
    (answer : Except AuditError String) :
    requests (conclude address world answer).2 = requests world := by
  unfold conclude
  split
  · split
    · rw [requests_exhausted, requests_note]
    · exact requests_note world _
  · rw [requests_exhausted, requests_note]

theorem requests_concluded (address : Address) (m : Decompiler.Ran σ (Except AuditError String)) :
    requests (World.andThen m fun answer world => conclude address world answer).2 =
      requests m.2 := by
  rcases m with ⟨_ | answer, world⟩
  · rfl
  · exact requests_conclude address world answer

theorem resolve_of_coded {code : String} {coded : SourceWorld σ}
    (h : r.Coded cancelAt address start code coded) :
    ∃ before, before.SameMoment coded ∧
      requests before = requests start ++ [.explorerAsked address, .bytecodeAsked address] ∧
      r.resolve ⟨cancelAt, none⟩ address start =
        World.andThen (r.decompiler.decompile ⟨cancelAt, none⟩ code before)
          fun answer world => conclude address world answer := by
  obtain ⟨unverified, hu, hb, hc⟩ := h
  obtain ⟨before, hmoment, hrequests, hresolve⟩ := r.resolve_of_unverified hu
  obtain ⟨fetched, hfetched, hmore, hfrom⟩ := r.fromBytecode_of_answer hmoment hb
  refine ⟨fetched, hfetched, ?_, ?_⟩
  · rw [hmore, hrequests, List.append_assoc]
    rfl
  · calc r.resolve ⟨cancelAt, none⟩ address start
        = r.onBytecode ⟨cancelAt, none⟩ address (.ok code) fetched :=
          (hresolve r.decompiler).trans (hfrom r.decompiler)
      _ = _ := by simp only [onBytecode, hc, Bool.false_eq_true, if_false]

theorem resolve_of_uncoded {unverified : SourceWorld σ}
    (h : r.Unverified cancelAt address start unverified)
    (hno : ¬∃ code coded, r.Coded cancelAt address start code coded) :
    requests (r.resolve ⟨cancelAt, none⟩ address start).2 =
        requests start ++ [.explorerAsked address, .bytecodeAsked address] ∧
      ∀ d : Decompiler σ, { r with decompiler := d }.resolve ⟨cancelAt, none⟩ address start =
        r.resolve ⟨cancelAt, none⟩ address start := by
  obtain ⟨before, hmoment, hrequests, hresolve⟩ := r.resolve_of_unverified h
  rw [hresolve r.decompiler]
  simp only [hresolve]
  rcases hb : unverified.ask ⟨cancelAt, none⟩ (r.bytecode address) with ⟨_ | answer, after⟩
  · have hasking := (World.sameMoment_record _ (.bytecodeAsked address)).trans
      ((Decompiler.sameMoment_note before (.unverified address)).trans hmoment)
    obtain ⟨fetched, hask, -, hmore⟩ := ask_of_sameMoment hasking hb
    rw [requests_record _ rfl, requests_note] at hmore
    simp only [fromBytecode_eq, hask, World.andThen, hmore, hrequests, List.append_assoc]
    exact ⟨rfl, fun _ => trivial⟩
  · obtain ⟨fetched, -, hmore, hfrom⟩ := r.fromBytecode_of_answer hmoment hb
    rw [hfrom r.decompiler]
    simp only [hfrom]
    cases answer with
    | error e =>
      simp only [onBytecode, requests_exhausted, requests_note, hmore, hrequests, List.append_assoc]
      exact ⟨rfl, fun _ => trivial⟩
    | ok code =>
      have hc : Bytecode.isTrivial code = true := by
        by_contra hc
        exact hno ⟨code, after, unverified, h, hb, Bool.not_eq_true _ ▸ hc⟩
      simp only [onBytecode, hc, if_true, requests_note, hmore, hrequests, List.append_assoc]
      exact ⟨rfl, fun _ => trivial⟩

variable {x : SourceResult}

theorem resolve_answer_iff : (r.resolve ⟨cancelAt, none⟩ address start).1 = some x ↔
    (∃ t, r.Obtains cancelAt address start x t) ∨
      x = .absent ∧ ∃ t, r.Lacks cancelAt address start t := by
  have hends : (r.resolve ⟨cancelAt, none⟩ address start).1 = some x ↔
      ∃ t, World.Ends (r.resolve ⟨cancelAt, none⟩ address start) x t :=
    ⟨fun h => ⟨_, h, rfl⟩, fun ⟨_, h⟩ => h.answer⟩
  rw [hends]
  simp only [ends_resolve_iff, exists_or, exists_and_left]

theorem verified_iff : (r.resolve ⟨cancelAt, none⟩ address start).1 = some x ∧
    x.provider = .verified ↔ ∃ v after,
      start.ask ⟨cancelAt, none⟩ (r.explorer address) = (some (.ok (some v)), after) ∧
      trimmed v.source ≠ "" ∧ x = ⟨v.source, v.contractName, .verified, false⟩ := by
  rw [resolve_answer_iff]
  constructor
  · rintro ⟨⟨t, hx⟩ | ⟨rfl, -⟩, hp⟩
    · cases hx with
      | verified v after he hv => exact ⟨v, after, he, (trimmed_ne_empty_iff _).mpr hv, rfl⟩
      | decompiled => cases hp
    · cases hp
  · rintro ⟨v, after, he, hv, rfl⟩
    exact ⟨.inl ⟨_, .verified v after he ((trimmed_ne_empty_iff _).mp hv)⟩, rfl⟩

theorem decompiled_iff : (r.resolve ⟨cancelAt, none⟩ address start).1 = some x ∧
    x.provider = .decompiled ↔ ∃ code coded text after,
      r.Coded cancelAt address start code coded ∧
      r.decompiler.decompile ⟨cancelAt, none⟩ code coded = (some (.ok text), after) ∧
      trimmed text ≠ "" ∧ x = ⟨text, decompiledName address, .decompiled, true⟩ := by
  rw [resolve_answer_iff]
  constructor
  · rintro ⟨⟨t, hx⟩ | ⟨rfl, -⟩, hp⟩
    · cases hx with
      | verified => cases hp
      | decompiled code text coded after hc hd ht =>
        exact ⟨code, coded, text, after, hc, hd, (trimmed_ne_empty_iff _).mpr ht, rfl⟩
    · cases hp
  · rintro ⟨code, coded, text, after, hc, hd, ht, rfl⟩
    have htext := (trimmed_ne_empty_iff _).mp ht
    exact ⟨.inl ⟨_, .decompiled code text coded after hc hd htext⟩, rfl⟩

theorem absent_iff : (r.resolve ⟨cancelAt, none⟩ address start).1 = some x ∧
    x.provider = .absent ↔
      x = ⟨"", "", .absent, false⟩ ∧ ∃ t, r.Lacks cancelAt address start t := by
  rw [resolve_answer_iff]
  constructor
  · rintro ⟨⟨t, hx⟩ | habsent, hp⟩
    · cases hx <;> cases hp
    · exact habsent
  · rintro ⟨rfl, hlacks⟩
    exact ⟨.inr ⟨rfl, hlacks⟩, rfl⟩

theorem wellFormed_of_resolve (h : (r.resolve ⟨cancelAt, none⟩ address start).1 = some x) :
    (x.isAvailable = true ↔ trimmed x.source ≠ "") ∧
      (x.isDecompiled = true ↔ x.provider = .decompiled) := by
  rw [trimmed_ne_empty_iff]
  obtain ⟨t, hx⟩ | ⟨rfl, -⟩ := r.resolve_answer_iff.mp h
  · cases hx with
    | verified v after he hv => exact ⟨iff_of_true rfl hv, iff_of_false nofun nofun⟩
    | decompiled code text coded after hc hd ht => exact ⟨iff_of_true rfl ht, iff_of_true rfl rfl⟩
  · exact ⟨iff_of_false nofun (by decide), iff_of_false nofun nofun⟩

end

theorem submission_of_not_trivial {code : String} (h : Bytecode.isTrivial code = false) :
    Bytecode.submission code ≠
      .error (.input "empty or invalid bytecode, nothing to decompile") := by
  rw [Bytecode.submission, if_neg (by rw [h]; exact nofun)]
  split
  · exact nofun
  · exact fun hsame => absurd hsame (by decide)

/-- Whatever the explorer, the node and the decompiler answer: verified source is returned as it is
and asks nobody else; else the node is asked once, and the decompiler once about code that is worth
it; the text that comes of it is returned as it is unless it is blank, and all else is no source. -/
theorem source_follows_answers (r : Resolver σ) (cancelAt : Option Nat) (address : Address)
    (start : SourceWorld σ) :
    let w : Window := ⟨cancelAt, none⟩
    let ran := r.resolve w address start
    (∀ x, ran.1 = some x ∧ x.provider = .verified ↔ ∃ v after,
      start.ask w (r.explorer address) = (some (.ok (some v)), after) ∧ trimmed v.source ≠ "" ∧
      x = ⟨v.source, v.contractName, .verified, false⟩) ∧
    (∀ v after, start.ask w (r.explorer address) = (some (.ok (some v)), after) →
      trimmed v.source ≠ "" → requests ran.2 = requests start ++ [.explorerAsked address] ∧
      ∀ bytecode decompiler,
        Resolver.resolve ⟨r.explorer, bytecode, decompiler⟩ w address start = ran) ∧
    (∀ unverified, r.Unverified cancelAt address start unverified →
      (¬∃ code coded, r.Coded cancelAt address start code coded) →
      requests ran.2 = requests start ++ [.explorerAsked address, .bytecodeAsked address] ∧
      ∀ d : Decompiler σ, { r with decompiler := d }.resolve w address start = ran) ∧
    (∀ code coded, r.Coded cancelAt address start code coded → ∃ before more,
      before.SameMoment coded ∧
      ran = World.andThen (r.decompiler.decompile w code before)
        (fun answer world => conclude address world answer) ∧
      requests ran.2 = requests start ++ .explorerAsked address :: .bytecodeAsked address :: more ∧
      r.decompiler.Asks code more) ∧
    (∀ x, ran.1 = some x ∧ x.provider = .decompiled ↔ ∃ code coded text after,
      r.Coded cancelAt address start code coded ∧
      r.decompiler.decompile w code coded = (some (.ok text), after) ∧ trimmed text ≠ "" ∧
      x = ⟨text, decompiledName address, .decompiled, true⟩) ∧
    (∀ x, ran.1 = some x ∧ x.provider = .absent ↔
      x = ⟨"", "", .absent, false⟩ ∧ ∃ t, r.Lacks cancelAt address start t) ∧
    (∀ x, ran.1 = some x → (x.isAvailable = true ↔ trimmed x.source ≠ "") ∧
      (x.isDecompiled = true ↔ x.provider = .decompiled)) ∧
    ∀ t limits, r.decompiler = .service t limits →
      (∀ code coded, r.Coded cancelAt address start code coded → Bytecode.submission code ≠
        .error (.input "empty or invalid bytecode, nothing to decompile")) ∧
      ∀ x, ran.1 = some x → x.provider = .decompiled →
        x.source.toList.length ≤ limits.maxOutputChars := by
  intro w ran
  refine ⟨fun x => r.verified_iff, fun v after he hv => ?_, fun unverified hu hno =>
    r.resolve_of_uncoded hu hno, fun code coded hc => ?_, fun x => r.decompiled_iff,
    fun x => r.absent_iff, fun x hx => r.wellFormed_of_resolve hx, fun t limits hd =>
    ⟨fun code coded hc => ?_, fun x hx hp => ?_⟩⟩
  · obtain ⟨world, hrequests, hran⟩ := r.resolve_of_source he ((trimmed_ne_empty_iff _).mp hv)
    have hsame : ran = _ := hran r.bytecode r.decompiler
    exact ⟨(congrArg (fun ran => requests ran.2) hsame).trans hrequests,
      fun bytecode decompiler => (hran bytecode decompiler).trans hsame.symm⟩
  · obtain ⟨before, hmoment, hbefore, hran⟩ := r.resolve_of_coded hc
    obtain ⟨more, hmore, hasks⟩ := Decompiler.asks_decompile r.decompiler w code before
    refine ⟨before, more, hmoment, hran, ?_, hasks⟩
    have hwhole : requests ran.2 = requests (r.decompiler.decompile w code before).2 :=
      (congrArg (fun ran => requests ran.2) hran).trans (requests_concluded address _)
    rw [hwhole, hmore, hbefore, List.append_assoc]
    rfl
  · obtain ⟨-, -, -, hcode⟩ := hc
    exact submission_of_not_trivial hcode
  · obtain ⟨code, coded, text, after, -, hrun, -, rfl⟩ := r.decompiled_iff.mp ⟨hx, hp⟩
    rw [hd] at hrun
    exact Decompiler.length_submit (congrArg Prod.fst hrun)

end Resolver

end TokenAudit
