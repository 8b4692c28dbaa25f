import TokenAudit.Proofs.Source.Waits

/-! When a contract has a readable source: which answers of the explorer, the node and the
decompiler lead to one, and which lead to none. -/

namespace TokenAudit

open World (Ends)

namespace Resolver

open Decompiler (SourceWorld Ran note sameMoment_note)

variable {σ : Type}

inductive NoSource : Except AuditError (Option VerifiedSource) → Prop where
  | failed (e : AuditError) : NoSource (.error e)
  | missing : NoSource (.ok none)
  | blank (v : VerifiedSource) (h : isBlankText v.source = true) : NoSource (.ok (some v))

section

variable (r : Resolver σ) (cancelAt : Option Nat) (address : Address) (start : SourceWorld σ)

def Unverified (after : SourceWorld σ) : Prop :=
  ∃ answer, start.ask ⟨cancelAt, none⟩ (r.explorer address) = (some answer, after) ∧ NoSource answer

def Coded (code : String) (after : SourceWorld σ) : Prop :=
  ∃ unverified, r.Unverified cancelAt address start unverified ∧
    unverified.ask ⟨cancelAt, none⟩ (r.bytecode address) = (some (.ok code), after) ∧
    Bytecode.isTrivial code = false

/-- The source that the answers lead to, and when. -/
inductive Obtains : SourceResult → Nat → Prop where
  | verified (v : VerifiedSource) (after : SourceWorld σ)
      (he : start.ask ⟨cancelAt, none⟩ (r.explorer address) = (some (.ok (some v)), after))
      (hv : isBlankText v.source = false) :
    Obtains (.verified v.source v.contractName) after.now
  | decompiled (code text : String) (coded after : SourceWorld σ)
      (hc : r.Coded cancelAt address start code coded)
      (hd : r.decompiler.decompile ⟨cancelAt, none⟩ code coded = (some (.ok text), after))
      (ht : isBlankText text = false) :
    Obtains (.decompiled address text) after.now

/-- The answers lead to no source, and when that is known. -/
inductive Lacks : Nat → Prop where
  | bytecodeFailed (e : AuditError) (unverified after : SourceWorld σ)
      (hu : r.Unverified cancelAt address start unverified)
      (hb : unverified.ask ⟨cancelAt, none⟩ (r.bytecode address) = (some (.error e), after)) :
    Lacks after.now
  | bytecodeTrivial (code : String) (unverified after : SourceWorld σ)
      (hu : r.Unverified cancelAt address start unverified)
      (hb : unverified.ask ⟨cancelAt, none⟩ (r.bytecode address) = (some (.ok code), after))
      (hc : Bytecode.isTrivial code = true) : Lacks after.now
  | decompilerFailed (code : String) (e : AuditError) (coded after : SourceWorld σ)
      (hc : r.Coded cancelAt address start code coded)
      (hd : r.decompiler.decompile ⟨cancelAt, none⟩ code coded = (some (.error e), after)) :
    Lacks after.now
  | decompiledBlank (code text : String) (coded after : SourceWorld σ)
      (hc : r.Coded cancelAt address start code coded)
      (hd : r.decompiler.decompile ⟨cancelAt, none⟩ code coded = (some (.ok text), after))
      (ht : isBlankText text = true) : Lacks after.now

end

theorem isAvailable_of_obtains {r : Resolver σ} {cancelAt : Option Nat} {address : Address}
    {start : SourceWorld σ} {source : SourceResult} {t : Nat}
    (h : r.Obtains cancelAt address start source t) : source.isAvailable = true := by
  cases h <;> rfl

/-! ### One stage of the search after another -/

theorem accepted_of_noSource {answer : Except AuditError (Option VerifiedSource)}
    (h : NoSource answer) : accepted answer = none := by
  cases h with
  | failed | missing => rfl
  | blank v hv => simp only [accepted, hv, if_true]

theorem noSource_or (answer : Except AuditError (Option VerifiedSource)) :
    NoSource answer ∨ ∃ v, answer = .ok (some v) ∧ isBlankText v.source = false := by
  rcases answer with e | _ | v
  · exact .inl (.failed e)
  · exact .inl .missing
  · cases hv : isBlankText v.source with
    | true => exact .inl (.blank v hv)
    | false => exact .inr ⟨v, rfl, hv⟩

variable {r : Resolver σ} {w : Window} {address : Address} {world : SourceWorld σ}
  {x : SourceResult} {t : Nat}

theorem ends_resolve : Ends (r.resolve w address world) x t ↔
    ∃ answer after, world.ask w (r.explorer address) = (some answer, after) ∧
      Ends (r.onExplored w address answer after) x t := by
  rw [resolve_eq, ← World.ends_andThen]
  exact (World.Regular.andThen (.ask (r.explorer address)) fun answer =>
    r.regular_onExplored address answer).ends_congr w (World.sameMoment_record world _)

theorem ends_onExplored_of_noSource {answer : Except AuditError (Option VerifiedSource)}
    (h : NoSource answer) :
    Ends (r.onExplored w address answer world) x t ↔ Ends (r.fromBytecode w address world) x t := by
  cases answer with
  | ok found =>
    simp only [onExplored, accepted_of_noSource h]
  | error e =>
    exact (r.regular_fromBytecode address).ends_congr w (sameMoment_note world _)

theorem ends_onExplored_of_source {v : VerifiedSource} (h : isBlankText v.source = false) :
    Ends (r.onExplored w address (.ok (some v)) world) x t ↔
      x = .verified v.source v.contractName ∧ t = world.now := by
  have haccepted : accepted (.ok (some v)) = some v := by simp [accepted, h]
  simp only [onExplored, haccepted]
  exact World.ends_some

theorem ends_fromBytecode : Ends (r.fromBytecode w address world) x t ↔
    ∃ answer after, world.ask w (r.bytecode address) = (some answer, after) ∧
      Ends (r.onBytecode w address answer after) x t := by
  rw [fromBytecode_eq, ← World.ends_andThen]
  exact (World.Regular.andThen (.ask (r.bytecode address)) fun answer =>
    r.regular_onBytecode address answer).ends_congr w
      ((World.sameMoment_record _ _).trans (sameMoment_note world _))

theorem ends_onBytecode {code : String} (h : Bytecode.isTrivial code = false) :
    Ends (r.onBytecode w address (.ok code) world) x t ↔
      ∃ answer after, r.decompiler.decompile w code world = (some answer, after) ∧
        Ends (conclude address after answer) x t := by
  rw [← World.ends_andThen]
  simp only [onBytecode, h, Bool.false_eq_true, if_false]

section

variable {cancelAt : Option Nat} {code : String} {start after : SourceWorld σ}

theorem ends_resolve_of_unverified (h : r.Unverified cancelAt address start after) :
    Ends (r.resolve ⟨cancelAt, none⟩ address start) x t ↔
      Ends (r.fromBytecode ⟨cancelAt, none⟩ address after) x t := by
  obtain ⟨answer, he, hno⟩ := h
  rw [ends_resolve, ← ends_onExplored_of_noSource hno]
  simp only [he, Prod.mk.injEq, Option.some.injEq, and_assoc, exists_eq_left', exists_and_left]

theorem ends_resolve_of_coded (h : r.Coded cancelAt address start code after) :
    Ends (r.resolve ⟨cancelAt, none⟩ address start) x t ↔
      ∃ answer done, r.decompiler.decompile ⟨cancelAt, none⟩ code after = (some answer, done) ∧
        Ends (conclude address done answer) x t := by
  obtain ⟨unverified, hu, hb, hc⟩ := h
  rw [ends_resolve_of_unverified hu, ends_fromBytecode, ← ends_onBytecode hc]
  simp only [hb, Prod.mk.injEq, Option.some.injEq, and_assoc, exists_eq_left', exists_and_left]

end

theorem ends_conclude_error {e : AuditError} :
    Ends (conclude address world (.error e)) x t ↔ x = .absent ∧ t = world.now := World.ends_some

theorem ends_conclude_ok {text : String} :
    Ends (conclude address world (.ok text)) x t ↔
      x = (if isBlankText text then .absent else .decompiled address text) ∧ t = world.now := by
  cases h : isBlankText text with
  | true =>
    simp only [conclude, h, if_true]
    exact World.ends_some
  | false =>
    simp only [conclude, h, Bool.false_eq_true, if_false]
    exact World.ends_some

theorem ends_onBytecode_error {e : AuditError} :
    Ends (r.onBytecode w address (.error e) world) x t ↔ x = .absent ∧ t = world.now :=
  World.ends_some

theorem ends_onBytecode_of_trivial {code : String} (h : Bytecode.isTrivial code = true) :
    Ends (r.onBytecode w address (.ok code) world) x t ↔ x = .absent ∧ t = world.now := by
  simp only [onBytecode, h, if_true]
  exact World.ends_some

theorem ends_resolve_iff (r : Resolver σ) (cancelAt : Option Nat) (address : Address)
    (start : SourceWorld σ) (x : SourceResult) (t : Nat) :
    Ends (r.resolve ⟨cancelAt, none⟩ address start) x t ↔
      r.Obtains cancelAt address start x t ∨ x = .absent ∧ r.Lacks cancelAt address start t := by
  constructor
  · intro h
    obtain ⟨answer, explored, he, h⟩ := ends_resolve.mp h
    obtain hno | ⟨v, rfl, hv⟩ := noSource_or answer
    · have hu : r.Unverified cancelAt address start explored := ⟨answer, he, hno⟩
      rw [ends_onExplored_of_noSource hno, ends_fromBytecode] at h
      obtain ⟨e | code, coded, hb, h⟩ := h
      · obtain ⟨rfl, rfl⟩ := ends_onBytecode_error.mp h
        exact .inr ⟨rfl, .bytecodeFailed e explored coded hu hb⟩
      cases hcode : Bytecode.isTrivial code with
      | true =>
        obtain ⟨rfl, rfl⟩ := (ends_onBytecode_of_trivial hcode).mp h
        exact .inr ⟨rfl, .bytecodeTrivial code explored coded hu hb hcode⟩
      | false =>
        have hc : r.Coded cancelAt address start code coded := ⟨explored, hu, hb, hcode⟩
        obtain ⟨e | text, done, hd, h⟩ := (ends_onBytecode hcode).mp h
        · obtain ⟨rfl, rfl⟩ := ends_conclude_error.mp h
          exact .inr ⟨rfl, .decompilerFailed code e coded done hc hd⟩
        · obtain ⟨rfl, rfl⟩ := ends_conclude_ok.mp h
          cases htext : isBlankText text with
          | true => exact .inr ⟨rfl, .decompiledBlank code text coded done hc hd htext⟩
          | false => exact .inl (.decompiled code text coded done hc hd htext)
    · obtain ⟨rfl, rfl⟩ := (ends_onExplored_of_source hv).mp h
      exact .inl (.verified v explored he hv)
  · rintro (h | ⟨rfl, h⟩)
    · cases h with
      | verified v after he hv =>
        exact ends_resolve.mpr ⟨_, after, he, (ends_onExplored_of_source hv).mpr ⟨rfl, rfl⟩⟩
      | decompiled code text coded after hc hd ht =>
        refine (ends_resolve_of_coded hc).mpr ⟨_, after, hd, ends_conclude_ok.mpr ⟨?_, rfl⟩⟩
        rw [ht]
        rfl
    · cases h with
      | bytecodeFailed e unverified after hu hb =>
        rw [ends_resolve_of_unverified hu, ends_fromBytecode]
        exact ⟨_, after, hb, ends_onBytecode_error.mpr ⟨rfl, rfl⟩⟩
      | bytecodeTrivial code unverified after hu hb hc =>
        rw [ends_resolve_of_unverified hu, ends_fromBytecode]
        exact ⟨_, after, hb, (ends_onBytecode_of_trivial hc).mpr ⟨rfl, rfl⟩⟩
      | decompilerFailed code e coded after hc hd =>
        exact (ends_resolve_of_coded hc).mpr ⟨_, after, hd, ends_conclude_error.mpr ⟨rfl, rfl⟩⟩
      | decompiledBlank code text coded after hc hd ht =>
        refine (ends_resolve_of_coded hc).mpr ⟨_, after, hd, ends_conclude_ok.mpr ⟨?_, rfl⟩⟩
        rw [ht]
        rfl

theorem resolve_eq_some_iff (r : Resolver σ) (cancelAt : Option Nat) {limit : Nat}
    (address : Address) {start : SourceWorld σ} (h : start.now ≤ limit) (x : SourceResult) :
    (r.resolve ⟨cancelAt, some limit⟩ address start).1 = some x ↔ ∃ t, t ≤ limit ∧
      (r.Obtains cancelAt address start x t ∨ x = .absent ∧ r.Lacks cancelAt address start t) := by
  rw [(r.regular_resolve address).answer_iff cancelAt h]
  simp only [ends_resolve_iff]

theorem Obtains.not_lacks {r : Resolver σ} {cancelAt : Option Nat} {address : Address}
    {start : SourceWorld σ} {x : SourceResult} {t u : Nat}
    (h : r.Obtains cancelAt address start x t) : ¬r.Lacks cancelAt address start u := by
  intro h'
  obtain ⟨rfl, -⟩ := ((r.ends_resolve_iff cancelAt address start x t).mpr (.inl h)).unique
    ((r.ends_resolve_iff cancelAt address start .absent u).mpr (.inr ⟨rfl, h'⟩))
  cases isAvailable_of_obtains h

end Resolver

end TokenAudit
