import TokenAudit.Json.Record
import TokenAudit.Proofs.Json.RoundTrip
import TokenAudit.Proofs.Numeral.HexText

/-! Records, lists and words as JSON: what is written is read again. -/

namespace TokenAudit.Json

/-! ### Records -/

theorem fill_absent {name : String} (j : Json) {before : List (String × Slot)}
    (h : name ∉ before.map Prod.fst) (after : List (String × Slot)) :
    fill name j (before ++ (name, .absent) :: after) =
      some (before ++ (name, .given j) :: after) := by
  induction before with
  | nil => exact if_pos rfl
  | cons s before ih =>
    rw [List.map_cons, List.mem_cons, not_or] at h
    obtain ⟨hne, hrest⟩ := h
    have hpassed : fill name j (s :: (before ++ (name, .absent) :: after)) =
        (fill name j (before ++ (name, .absent) :: after)).map (s :: ·) := if_neg (Ne.symm hne)
    rw [List.cons_append, hpassed, ih hrest]
    rfl

theorem fillAll_members (closed : Bool) (members : List (String × Json))
    (before : List (String × Slot))
    (h : (before.map Prod.fst ++ members.map Prod.fst).Nodup) :
    fillAll closed members (before ++ members.map fun m => (m.1, .absent)) =
      some (before ++ members.map fun m => (m.1, .given m.2)) := by
  induction members generalizing before with
  | nil => rfl
  | cons m ms ih =>
    obtain ⟨name, j⟩ := m
    have hfresh : name ∉ before.map Prod.fst := fun hmem =>
      (List.nodup_append.mp h).2.2 name hmem name List.mem_cons_self rfl
    have hknown : ((before ++ (name, Slot.absent) :: ms.map fun m => (m.1, .absent)).any
        fun s => s.1 = name) = true :=
      List.any_eq_true.mpr ⟨_, List.mem_append_right _ List.mem_cons_self, decide_eq_true rfl⟩
    have hnext : ((before ++ [(name, Slot.given j)]).map Prod.fst ++ ms.map Prod.fst).Nodup := by
      rw [List.map_append, List.append_assoc]
      exact h
    rw [List.map_cons, fillAll, if_pos hknown, fill_absent j hfresh]
    have hrest := ih _ hnext
    rw [List.append_assoc, List.append_assoc] at hrest
    exact hrest

theorem fields_obj (names : List String) {members : List (String × Json)} (closed : Bool)
    (h : names.Nodup) (hnames : members.map Prod.fst = names) :
    fields names closed (.obj members) = some (members.map fun m => .given m.2) := by
  subst hnames
  have hfill : fillAll closed members (members.map fun m => (m.1, .absent)) =
      some (members.map fun m => (m.1, .given m.2)) := fillAll_members closed members [] h
  rw [fields, List.map_map]
  show (fillAll closed members (members.map fun m => (m.1, .absent))).map _ = _
  rw [hfill, Option.map_some, List.map_map]
  rfl

/-! ### Lists and fields that may be null -/

section

variable {α : Type} {read : Json → Option α} {write : α → Json}

theorem readList?_ofList {as : List α} (h : ∀ a ∈ as, read (write a) = some a) :
    readList? read (ofList write as) = some as := by
  show readItems? read (as.map write) = some as
  induction as with
  | nil => rfl
  | cons a as ih =>
    obtain ⟨ha, has⟩ := List.forall_mem_cons.mp h
    rw [List.map_cons, readItems?, ha, ih has]

theorem fits_ofList {room : Nat} {as : List α} (h : ∀ a ∈ as, Fits room (write a)) :
    Fits (room + 1) (ofList write as) := by
  refine ⟨Nat.succ_pos room, ?_⟩
  show FitsItems room (as.map write)
  induction as with
  | nil => trivial
  | cons a as ih =>
    obtain ⟨ha, has⟩ := List.forall_mem_cons.mp h
    exact ⟨ha, ih has⟩

theorem fits_ofOption {room : Nat} {o : Option α} (h : ∀ a, Fits room (write a)) :
    Fits room (ofOption write o) := by
  cases o with
  | none => trivial
  | some a => exact h a

theorem nullable_ofOption {o : Option α} (h : ∀ a, read (write a) = some a)
    (hnull : ∀ a, write a ≠ .null) : nullable read (ofOption write o) = some o := by
  cases o with
  | none => rfl
  | some a =>
    show nullable read (write a) = some (some a)
    rw [nullable, h a]
    · rfl
    · exact hnull a

end

/-! ### Numbers and words -/

theorem readNat?_nat {n bound : Nat} (h : n < bound) : readNat? bound (nat n) = some n := if_pos h

theorem fits_nat {n : Nat} (h : n < UInt64.size) (room : Nat) : Fits room (nat n) :=
  ⟨Int.le_trans (by decide) (Int.natCast_nonneg n), Int.ofNat_lt.mpr h⟩

theorem fits_ofUInt8 (n : UInt8) (room : Nat) : Fits room (ofUInt8 n) :=
  fits_nat (Nat.lt_trans n.toNat_lt (by decide)) room

theorem fits_ofUInt64 (n : UInt64) (room : Nat) : Fits room (ofUInt64 n) := fits_nat n.toNat_lt room

theorem readUInt8?_ofUInt8 (n : UInt8) : readUInt8? (ofUInt8 n) = some n := by
  rw [readUInt8?, ofUInt8, readNat?_nat n.toNat_lt, Option.map_some, UInt8.ofNat_toNat]

theorem readUInt64?_ofUInt64 (n : UInt64) : readUInt64? (ofUInt64 n) = some n := by
  rw [readUInt64?, ofUInt64, readNat?_nat n.toNat_lt, Option.map_some, UInt64.ofNat_toNat]

theorem readUint256?_ofUint256 (x : Uint256) : readUint256? (ofUint256 x) = some x := by
  have hread : readUnsigned? Uint256.size (ofUint256 x) = some x.toNat := by
    rw [ofUint256, Uint256.hex, readUnsigned?, String.toList_ofList]
    exact Numeral.readUnsigned_quantity x.isLt
  rw [readUint256?, hread, Option.map_some]
  exact congrArg some (BitVec.ofNat_toNat ..)

theorem readAddress?_ofAddress (a : Address) : readAddress? (ofAddress a) = some a := by
  rw [readAddress?, ofAddress, readSized?, Address.decodeSized_hex]
  exact congrArg some a.ofBytes_bytes

end TokenAudit.Json
