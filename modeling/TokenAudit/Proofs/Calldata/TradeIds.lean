import TokenAudit.Agent.Run
import TokenAudit.Proofs.Numeral.Spelling

/-! Texts of trade ids and of amounts. A documented text is taken for the number that it denotes, or
refused if that is too large; but other texts are tolerated, and among them such as have no digit. -/

namespace TokenAudit

namespace Text

theorem trim_surrounded {before s after : List Char} (hbefore : ∀ c ∈ before, isBlank c = true)
    (hs : ∀ c ∈ s, isBlank c = false) (hafter : ∀ c ∈ after, isBlank c = true) :
    trim (before ++ s ++ after) = s := by
  have hkeep : ∀ t r : List Char, (∀ c ∈ t, isBlank c = false) → t ≠ [] →
      (t ++ r).dropWhile isBlank = t ++ r := by
    intro t r ht hne
    obtain ⟨c, t, rfl⟩ := List.exists_cons_of_ne_nil hne
    rw [List.cons_append, List.dropWhile_cons_of_neg (by simp [ht c])]
  have hreversed : ∀ c ∈ after.reverse, isBlank c = true := fun c hc => hafter c (List.mem_reverse.mp hc)
  rw [trim, trimRight, trimLeft, List.append_assoc, List.dropWhile_append_of_pos hbefore]
  by_cases hne : s = []
  · rw [hne, List.nil_append, ← List.append_nil after, List.dropWhile_append_of_pos hafter]
    rfl
  · have hback : ∀ c ∈ s.reverse, isBlank c = false := fun c hc => hs c (List.mem_reverse.mp hc)
    rw [hkeep s after hs hne, List.reverse_append, List.dropWhile_append_of_pos hreversed,
      ← List.append_nil s.reverse, hkeep s.reverse [] hback (by simpa using hne), List.append_nil,
      List.reverse_reverse]

end Text

namespace Numeral

variable {s : List Char} {n m : Nat}

theorem Documented.ne_nil (h : Documented s n) : s ≠ [] := by
  obtain ⟨head, radix, digits, -, rfl, hdigits⟩ := h
  exact List.append_ne_nil_of_right_ne_nil head hdigits.ne_nil

theorem Documented.unique (hn : Documented s n) (hm : Documented s m) : n = m := by
  have hread : ∀ k, Documented s k → k ≤ max n m → readUnsigned (max n m + 1) s = some k :=
    fun k hk hle => (readUnsigned_eq_some_iff hn.ne_nil).mpr ⟨Nat.lt_succ_of_le hle, .inl hk⟩
  have hsame := (hread n hn (Nat.le_max_left n m)).symm.trans (hread m hm (Nat.le_max_right n m))
  exact Option.some.inj hsame

theorem Tolerated.ne_nil (h : Tolerated s n) : s ≠ [] := by
  cases h with
  | foreign _ h | separated _ _ h =>
    apply List.append_ne_nil_of_right_ne_nil
    rintro rfl
    exact h.ne_nil rfl
  | digitless _ hne _ => exact hne

theorem Head.not_blank {head : List Char} {radix : Nat} (h : Head head radix) :
    ∀ c ∈ head, isBlank c = false := by
  cases h with
  | decimal => exact List.forall_mem_nil _
  | @hexadecimal x hx =>
    have hletter : isBlank x = false := by rcases hx with rfl | rfl <;> rfl
    exact List.forall_mem_cons.mpr ⟨rfl, List.forall_mem_singleton.mpr hletter⟩

theorem Documented.not_blank (h : Documented s n) : ∀ c ∈ s, isBlank c = false := by
  obtain ⟨head, radix, digits, hhead, rfl, hdigits⟩ := h
  have hall : ∀ d < 16, isBlank d.digitChar = false ∧ isBlank d.digitChar.toUpper = false := by decide
  intro c hc
  rcases List.mem_append.mp hc with hc | hc
  · exact hhead.not_blank c hc
  · obtain ⟨d, hlt, hd⟩ := hdigits.stands c hc
    have hsmall : d < 16 := Nat.lt_of_lt_of_le hlt (radix_le_of_head (.inl hhead))
    rcases hd with rfl | rfl
    · exact (hall d hsmall).1
    · exact (hall d hsmall).2

theorem documented_decimal (k n : Nat) : Documented (List.replicate k '0' ++ decimal n) n :=
  ⟨[], 10, _, .decimal, rfl, (denotes_toDigits (by decide) n).zeros (by decide) k⟩

theorem documented_hex {x : Char} (hx : x = 'x' ∨ x = 'X') (k n : Nat) :
    Documented ('0' :: x :: (List.replicate k '0' ++ hex n)) n :=
  ⟨['0', x], 16, _, .hexadecimal hx, rfl, (denotes_toDigits (by decide) n).zeros (by decide) k⟩

end Numeral

theorem Uint256.exists_toNat {n : Nat} (h : n < Uint256.size) : ∃ t : Uint256, t.toNat = n :=
  ⟨BitVec.ofNatLT n h, BitVec.toNat_ofNatLT n h⟩

theorem Uint256.read?_eq_some_iff {s : List Char} {t : Uint256} :
    Uint256.read? s = some t ↔ Numeral.readUnsigned Uint256.size s = some t.toNat := by
  rw [Uint256.read?, Option.map_eq_some_iff]
  constructor
  · rintro ⟨n, hread, rfl⟩
    have hlt : n < 2 ^ 256 := by
      have hfilter := (Option.filter_eq_some_iff.mp hread).2
      exact of_decide_eq_true hfilter
    rw [hread, BitVec.toNat_ofNat, Nat.mod_eq_of_lt hlt]
  · intro h
    exact ⟨t.toNat, h, BitVec.ofNat_toNat 256 t ▸ BitVec.setWidth_eq t⟩

namespace Calldata

open Numeral (Documented Tolerated)

variable {raw : String} {t : Uint256}

theorem read?_eq_some_iff {text : List Char} (hne : text ≠ []) :
    Uint256.read? text = some t ↔ Documented text t.toNat ∨ Tolerated text t.toNat := by
  have hbound : t.toNat < Uint256.size := t.isLt
  rw [Uint256.read?_eq_some_iff, Numeral.readUnsigned_eq_some_iff hne, and_iff_right hbound]

theorem parseTradeId_eq_ok_iff : parseTradeId raw = .ok t ↔
    Documented (Text.trim raw.toList) t.toNat ∨ Tolerated (Text.trim raw.toList) t.toNat := by
  rw [parseTradeId]
  generalize Text.trim raw.toList = text
  by_cases hnil : text = []
  · subst hnil
    refine iff_of_false nofun ?_
    rintro (h | h)
    · exact h.ne_nil rfl
    · exact h.ne_nil rfl
  rw [← read?_eq_some_iff hnil]
  split
  · rename_i hguard
    -- The guard against a minus sign is not needed: no digit is one.
    have hnone : Uint256.read? text = none := by
      rcases hguard with hempty | hminus
      · exact absurd (List.isEmpty_iff.mp hempty) hnil
      · obtain ⟨s, rfl⟩ := List.head?_eq_some_iff.mp hminus
        rfl
    rw [hnone]
    exact iff_of_false nofun nofun
  · cases Uint256.read? text with
    | none => exact iff_of_false nofun nofun
    | some u => rw [Except.ok.injEq, Option.some.injEq]

theorem eq_of_parseTradeId {e : CalldataError} (h : parseTradeId raw = .error e) :
    e = .tradeIdOutOfRange raw := by
  unfold parseTradeId at h
  dsimp only at h
  split at h
  · cases h
    rfl
  · split at h
    · cases h
    · cases h
      rfl

theorem parseTradeId_cases (raw : String) :
    (∃ t, parseTradeId raw = .ok t) ∨ parseTradeId raw = .error (.tradeIdOutOfRange raw) := by
  cases h : parseTradeId raw with
  | ok t => exact .inl ⟨t, rfl⟩
  | error e => exact .inr (congrArg _ (eq_of_parseTradeId h))

theorem exists_parseTradeId_iff (raw : String) : (∃ t, parseTradeId raw = .ok t) ↔
    ∃ n < Uint256.size, Documented (Text.trim raw.toList) n ∨ Tolerated (Text.trim raw.toList) n := by
  constructor
  · rintro ⟨t, h⟩
    exact ⟨t.toNat, t.isLt, parseTradeId_eq_ok_iff.mp h⟩
  · rintro ⟨n, hlt, h⟩
    obtain ⟨t, rfl⟩ := Uint256.exists_toNat hlt
    exact ⟨t, parseTradeId_eq_ok_iff.mpr h⟩

theorem parseAmount_eq_ok_iff {option : String} :
    AgentCommand.parseAmount option raw = .ok t ↔ parseTradeId raw = .ok t := by
  rw [AgentCommand.parseAmount]
  cases parseTradeId raw with
  | ok u => simp only [Except.mapError, Except.ok.injEq]
  | error e => exact iff_of_false nofun nofun

/-- A text is taken for a trade id, and for an amount, if it is documented or tolerated, and for the number
that it then spells. No text is both. So texts are taken as documented exactly where none that is only
tolerated spells a number below the bound. -/
theorem taken_as_documented_unless_tolerated (raw : String) :
    let text := Text.trim raw.toList
    (∀ t, parseTradeId raw = .ok t ↔ Documented text t.toNat ∨ Tolerated text t.toNat) ∧
    (∀ option t, AgentCommand.parseAmount option raw = .ok t ↔ parseTradeId raw = .ok t) ∧
    (∀ n m, Documented text n → ¬Tolerated text m) ∧
    (((∃ t, parseTradeId raw = .ok t) ↔ ∃ n < Uint256.size, Documented text n) ↔
      ¬∃ n < Uint256.size, Tolerated text n) ∧
    (parseTradeId raw = .error (.tradeIdOutOfRange raw) ↔
      ∀ n < Uint256.size, ¬Documented text n ∧ ¬Tolerated text n) := by
  intro text
  have hexclusive : ∀ n m, Documented text n → ¬Tolerated text m := fun n m h => h.not_tolerated
  refine ⟨fun t => parseTradeId_eq_ok_iff, fun option t => parseAmount_eq_ok_iff, hexclusive, ?_, ?_⟩
  · rw [exists_parseTradeId_iff]
    constructor
    · rintro h ⟨m, hm, htolerated⟩
      obtain ⟨n, -, hdocumented⟩ := h.mp ⟨m, hm, .inr htolerated⟩
      exact hexclusive n m hdocumented htolerated
    · intro h
      constructor
      · rintro ⟨n, hn, hdocumented | htolerated⟩
        · exact ⟨n, hn, hdocumented⟩
        · exact absurd ⟨n, hn, htolerated⟩ h
      · rintro ⟨n, hn, hdocumented⟩
        exact ⟨n, hn, .inl hdocumented⟩
  · have htaken := exists_parseTradeId_iff raw
    constructor
    · intro h n hn
      rw [← not_or]
      intro hread
      obtain ⟨t, ht⟩ := htaken.mpr ⟨n, hn, hread⟩
      rw [h] at ht
      cases ht
    · intro h
      rcases parseTradeId_cases raw with ht | herror
      · obtain ⟨n, hn, hread⟩ := htaken.mp ht
        rcases hread with hdocumented | htolerated
        · exact absurd hdocumented (h n hn).1
        · exact absurd htolerated (h n hn).2
      · exact herror

theorem bare_head_is_taken_for_zero :
    (∀ n, ¬Documented (Text.trim "0x".toList) n) ∧ parseTradeId "0x" = .ok 0 ∧
    AgentCommand.parseAmount "amount-out-min" "0x" = .ok 0 ∧
    (∀ n, ¬Documented (Text.trim "_".toList) n) ∧ parseTradeId "_" = .ok 0 ∧
    (∀ n, ¬Documented (Text.trim "0b101".toList) n) ∧ parseTradeId "0b101" = .ok 5 ∧
    (∀ n, ¬Documented (Text.trim "1_000".toList) n) ∧ parseTradeId "1_000" = .ok 1000 := by
  have hzero : parseTradeId "0x" = .ok 0 := by rfl
  exact ⟨fun n h => absurd h.cut (by decide), hzero, parseAmount_eq_ok_iff.mpr hzero,
    fun n h => absurd h.cut (by decide), by rfl, fun n h => absurd h.cut (by decide), by rfl,
    fun n h => absurd h.cut (by decide), by decide +kernel⟩

end Calldata

end TokenAudit
