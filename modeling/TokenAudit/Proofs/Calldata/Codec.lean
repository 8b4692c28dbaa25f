import TokenAudit.Calldata
import TokenAudit.Proofs.Calldata.Words

/-! Calldata of verdicts has one form for each trade id and score. Of all byte strings only these
forms are read, each as what it was written from, and any other fails at the first check that it
does not meet. -/

namespace TokenAudit

namespace Calldata

theorem length_selector (signature : String) : (selector signature).length = selectorLength := by
  simp [selector, signatureDigest, keccak256, Keccak.digest, selectorLength]

theorem length_encodeReport (tradeId : Uint256) (score : UInt8) :
    (encodeReport tradeId score).length = reportLength := by
  simp [encodeReport, Uint256.bytes, reportLength, wordLength]

theorem length_encode (p : Protocol) (tradeId : Uint256) (score : UInt8) :
    (encode p tradeId score).length = verdictLength := by
  rw [encode, List.length_append, Protocol.selector, length_selector, length_encodeReport,
    verdictLength]

theorem ofBytes_lt_iff {word : Bytes} (h : word.length = wordLength) :
    Word.ofBytes word < 256 ↔ ∀ x ∈ word.take 31, x = 0 := by
  have hsplit : word = word.take 31 ++ word.drop 31 := (List.take_append_drop 31 word).symm
  have hlow : (word.drop 31).length = 1 := by rw [List.length_drop, h, wordLength]
  have hlt : Word.ofBytes (word.drop 31) < 256 := by
    have := Word.ofBytes_lt (word.drop 31)
    rwa [hlow] at this
  rw [← Word.ofBytes_eq_zero_iff, hsplit, Word.ofBytes_append, hlow, ← hsplit]
  omega

/-! ### Reports -/

theorem report_split {body : Bytes} (h : body.length = reportLength) :
    (body.take wordLength).length = wordLength ∧ (body.drop wordLength).length = wordLength := by
  rw [List.length_take, List.length_drop, h]
  decide

theorem decodeReport_encodeReport (tradeId : Uint256) (score : UInt8) :
    decodeReport (encodeReport tradeId score) = .ok (tradeId, score) := by
  have hid : tradeId.bytes.length = wordLength := Word.length_bigEndian _ _
  have hscore : Word.ofBytes (Word.bigEndian wordLength score.toNat) = score.toNat := by
    rw [Word.ofBytes_bigEndian]
    exact Nat.mod_eq_of_lt (Nat.lt_of_lt_of_le score.toNat_lt (by decide))
  rw [decodeReport, if_neg (by rw [length_encodeReport]; exact fun h => h rfl), encodeReport,
    List.drop_left' hid, List.take_left' hid, hscore, Uint256.ofBytes_bytes]
  dsimp only
  rw [if_pos score.toNat_lt, UInt8.ofNat_toNat]

theorem eq_encodeReport_of_decodeReport {body : Bytes} {tradeId : Uint256} {score : UInt8}
    (h : decodeReport body = .ok (tradeId, score)) : body = encodeReport tradeId score := by
  unfold decodeReport at h
  split at h
  · cases h
  rename_i hlength
  obtain ⟨hhigh, hlow⟩ := report_split (Decidable.not_not.mp hlength)
  dsimp only at h
  split at h
  · rename_i hlt
    cases h
    have hscore : (UInt8.ofNat (Word.ofBytes (body.drop wordLength))).toNat =
        Word.ofBytes (body.drop wordLength) := UInt8.toNat_ofNat_of_lt' hlt
    have hword := Word.bigEndian_ofBytes (body.drop wordLength)
    rw [hlow] at hword
    rw [encodeReport, Uint256.bytes_ofBytes hhigh, hscore, hword, List.take_append_drop]
  · cases h

theorem decodeReport_eq_ok_iff {body : Bytes} {tradeId : Uint256} {score : UInt8} :
    decodeReport body = .ok (tradeId, score) ↔ body = encodeReport tradeId score :=
  ⟨eq_encodeReport_of_decodeReport, fun h => h ▸ decodeReport_encodeReport tradeId score⟩

inductive ReportFault (body : Bytes) : CalldataError → Prop where
  | length (h : body.length ≠ 64) : ReportFault body (.length 64 body.length)
  | score (h : body.length = 64) (high : ∃ x ∈ (body.drop 32).take 31, x ≠ 0) :
    ReportFault body (.scoreOutOfRange (String.ofList (Numeral.decimal (Word.ofBytes (body.drop 32)))))

theorem decodeReport_eq_error_iff {body : Bytes} {e : CalldataError} :
    decodeReport body = .error e ↔ ReportFault body e := by
  unfold decodeReport
  by_cases hlength : body.length = reportLength
  · rw [if_neg (Decidable.not_not.mpr hlength)]
    have hword := ofBytes_lt_iff (report_split hlength).2
    dsimp only
    by_cases hlt : Word.ofBytes (body.drop wordLength) < 256
    · rw [if_pos hlt]
      refine iff_of_false nofun fun h => ?_
      cases h with
      | length h => exact h hlength
      | score h high =>
        obtain ⟨x, hx, hne⟩ := high
        exact hne (hword.mp hlt x hx)
    · rw [if_neg hlt]
      have hhigh : ∃ x ∈ (body.drop wordLength).take 31, x ≠ 0 := by
        have := mt hword.mpr hlt
        simpa using this
      constructor
      · rintro ⟨⟩
        exact .score hlength hhigh
      · intro h
        cases h with
        | length h => exact absurd hlength h
        | score => rfl
  · rw [if_pos hlength]
    constructor
    · rintro ⟨⟩
      exact .length hlength
    · intro h
      cases h with
      | length => rfl
      | score h => exact absurd h hlength

/-! ### Verdicts -/

theorem decode_eq_ok_iff {p : Protocol} {b : Bytes} {tradeId : Uint256} {score : UInt8} :
    decode p b = .ok (tradeId, score) ↔ b = encode p tradeId score := by
  have hselector : p.selector.length = selectorLength := length_selector _
  constructor
  · intro h
    unfold decode at h
    split at h
    · cases h
    split at h
    · cases h
    rename_i hs
    rw [encode, ← decodeReport_eq_ok_iff.mp h, ← Decidable.not_not.mp hs, List.take_append_drop]
  · rintro rfl
    rw [decode, if_neg (by rw [length_encode]; exact fun h => h rfl), encode,
      List.take_left' hselector, if_neg (fun h => h rfl), List.drop_left' hselector,
      decodeReport_encodeReport]

/-- The first check that calldata fails. -/
inductive Fault (p : Protocol) (b : Bytes) : CalldataError → Prop where
  | length (h : b.length ≠ 68) : Fault p b (.length 68 b.length)
  | selector (h : b.length = 68) (hs : b.take 4 ≠ p.selector) : Fault p b (.selector (b.take 4))
  | score (h : b.length = 68) (hs : b.take 4 = p.selector)
      (high : ∃ x ∈ (b.drop 36).take 31, x ≠ 0) :
    Fault p b (.scoreOutOfRange (String.ofList (Numeral.decimal (Word.ofBytes (b.drop 36)))))

theorem decode_eq_error_iff {p : Protocol} {b : Bytes} {e : CalldataError} :
    decode p b = .error e ↔ Fault p b e := by
  unfold decode
  by_cases hlength : b.length = verdictLength
  · rw [if_neg (Decidable.not_not.mpr hlength)]
    by_cases hs : b.take selectorLength = p.selector
    · have hbody : (b.drop 4).length = 64 := by rw [List.length_drop, hlength]; decide
      rw [if_neg (Decidable.not_not.mpr hs), decodeReport_eq_error_iff]
      constructor
      · intro h
        cases h with
        | length h => exact absurd hbody h
        | score h high =>
          rw [selectorLength, List.drop_drop] at high ⊢
          exact .score hlength hs high
      · intro h
        cases h with
        | length h => exact absurd hlength h
        | selector h hne => exact absurd hs hne
        | score h hs high =>
          rw [← List.drop_drop (i := 32) (j := 4)] at high ⊢
          exact .score hbody high
    · rw [if_pos hs]
      constructor
      · rintro ⟨⟩
        exact .selector hlength hs
      · intro h
        cases h with
        | length h => exact absurd hlength h
        | selector => rfl
        | score h hs' => exact absurd hs' hs
  · rw [if_pos hlength]
    constructor
    · rintro ⟨⟩
      exact .length hlength
    · intro h
      cases h with
      | length => rfl
      | selector h | score h => exact absurd h hlength

/-- Of the digest in the selector only this is used, that its length is fixed. -/
theorem decodes_exactly_what_encodes (p : Protocol) (b : Bytes) :
    (∀ tradeId score, decode p b = .ok (tradeId, score) ↔ b = encode p tradeId score) ∧
    (∀ tradeId score, decodeReport b = .ok (tradeId, score) ↔ b = encodeReport tradeId score) ∧
    (∀ tradeId score, (encode p tradeId score).length = 68 ∧
      (encodeReport tradeId score).length = 64) ∧
    (∀ e, decode p b = .error e ↔ Fault p b e) ∧
    (∀ e, decodeReport b = .error e ↔ ReportFault b e) :=
  ⟨fun _ _ => decode_eq_ok_iff, fun _ _ => decodeReport_eq_ok_iff,
    fun tradeId score => ⟨length_encode p tradeId score, length_encodeReport tradeId score⟩,
    fun _ => decode_eq_error_iff, fun _ => decodeReport_eq_error_iff⟩

end Calldata

end TokenAudit
