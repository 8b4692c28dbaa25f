import TokenAudit.Proofs.Agent.Printing
import TokenAudit.Proofs.Calldata.TradeIds

/-! Verdicts encoded from texts. A number's text is read as that number or not at all, and what the
command for verdicts prints reads back as the trade id and the score that it was given. -/

namespace TokenAudit

namespace Calldata

open Numeral (Documented)

variable {s before after : List Char} {n : Nat}

theorem trim_documented (h : Documented s n) (hbefore : ∀ c ∈ before, isBlank c = true)
    (hafter : ∀ c ∈ after, isBlank c = true) :
    Text.trim (String.ofList (before ++ s ++ after)).toList = s := by
  rw [String.toList_ofList, Text.trim_surrounded hbefore h.not_blank hafter]

theorem parseTradeId_documented {t : Uint256} (h : Documented s t.toNat)
    (hbefore : ∀ c ∈ before, isBlank c = true) (hafter : ∀ c ∈ after, isBlank c = true) :
    parseTradeId (String.ofList (before ++ s ++ after)) = .ok t := by
  rw [parseTradeId_eq_ok_iff, trim_documented h hbefore hafter]
  exact .inl h

theorem parseTradeId_too_large (h : Documented s n) (hn : Uint256.size ≤ n)
    (hbefore : ∀ c ∈ before, isBlank c = true) (hafter : ∀ c ∈ after, isBlank c = true) :
    parseTradeId (String.ofList (before ++ s ++ after)) =
      .error (.tradeIdOutOfRange (String.ofList (before ++ s ++ after))) := by
  rcases parseTradeId_cases (String.ofList (before ++ s ++ after)) with ⟨t, ht⟩ | herror
  · have hlt : t.toNat < Uint256.size := t.isLt
    rw [parseTradeId_eq_ok_iff, trim_documented h hbefore hafter] at ht
    -- A text denotes one number, so what was read in bounds cannot be the large one.
    rcases ht with hdocumented | htolerated
    · rw [hdocumented.unique h] at hlt
      exact absurd hlt (Nat.not_lt_of_le hn)
    · exact absurd htolerated h.not_tolerated
  · exact herror

theorem parseTradeId_shown (t : Uint256) : parseTradeId t.decimal = .ok t ∧ parseTradeId t.hex = .ok t := by
  have hnil : ∀ c ∈ ([] : List Char), isBlank c = true := List.forall_mem_nil _
  have hdecimal := parseTradeId_documented (Numeral.documented_decimal 0 t.toNat) hnil hnil
  have hhex := parseTradeId_documented (Numeral.documented_hex (.inl rfl) 0 t.toNat) hnil hnil
  rw [List.append_nil] at hdecimal hhex
  exact ⟨hdecimal, hhex⟩

/-! ### Checked encoding -/

variable {p : Protocol} {id : String} {score : Int} {t : Uint256}

theorem encodeChecked_of_bad_id (p : Protocol) (score : Int) {e : CalldataError}
    (h : parseTradeId id = .error e) :
    encodeChecked p id score = .error (.tradeIdOutOfRange id) := by
  rw [encodeChecked, h, eq_of_parseTradeId h]

theorem encodeChecked_of_bad_score (h : parseTradeId id = .ok t) (hs : ¬(0 ≤ score ∧ score ≤ 255)) :
    encodeChecked p id score = .error (.scoreOutOfRange (Numeral.intText score)) := by
  rw [encodeChecked, h]
  exact if_neg hs

theorem encodeChecked_of_good (h : parseTradeId id = .ok t) (hs : 0 ≤ score ∧ score ≤ 255) :
    encodeChecked p id score = .ok (encode p t (UInt8.ofNat score.toNat)) := by
  rw [encodeChecked, h]
  exact if_pos hs

theorem encodeChecked_succeeds_iff : (∃ bytes, encodeChecked p id score = .ok bytes) ↔
    ∃ t, parseTradeId id = .ok t ∧ 0 ≤ score ∧ score ≤ 255 := by
  cases h : parseTradeId id with
  | error e =>
    rw [encodeChecked_of_bad_id p score h]
    exact iff_of_false nofun nofun
  | ok t =>
    by_cases hs : 0 ≤ score ∧ score ≤ 255
    · exact iff_of_true ⟨_, encodeChecked_of_good h hs⟩ ⟨t, rfl, hs⟩
    · rw [encodeChecked_of_bad_score h hs]
      exact iff_of_false nofun fun ⟨_, _, hs'⟩ => hs hs'

end Calldata

namespace AgentCommand

variable {id : String} {score : Int}

theorem prints_verdict {bytes : Bytes} (h : Calldata.encodeChecked .v1 id score = .ok bytes) :
    Prints (.verdict id score) (Calldata.toHex bytes) := by
  have hdata : verdictData id score = .ok bytes := by
    rw [verdictData, h]
    rfl
  exact (encodes_verdict hdata).prints

theorem refuses_verdict {e : CalldataError} (h : Calldata.encodeChecked .v1 id score = .error e) :
    Refuses (.verdict id score) e.message := by
  have hdata : verdictData id score = .error (.usage e.message) := by
    rw [verdictData, h]
    rfl
  exact (encodes_verdict hdata).refuses

end AgentCommand

open Calldata in
/-- A verdict is encoded exactly if its texts are those of a trade id and of a score, and its printed
encoding is decoded to both. -/
theorem verdict_is_encoded_exactly :
    (∀ n k, Numeral.Documented (List.replicate k '0' ++ Numeral.decimal n) n ∧
      Numeral.Documented ('0' :: 'x' :: (List.replicate k '0' ++ Numeral.hex n)) n) ∧
    (∀ s n before after, Numeral.Documented s n → (∀ c ∈ before, isBlank c = true) →
      (∀ c ∈ after, isBlank c = true) →
      let raw := String.ofList (before ++ s ++ after)
      (n < Uint256.size → ∃ t, t.toNat = n ∧ parseTradeId raw = .ok t) ∧
      (Uint256.size ≤ n → parseTradeId raw = .error (.tradeIdOutOfRange raw))) ∧
    (∀ t : Uint256, parseTradeId t.decimal = .ok t ∧ parseTradeId t.hex = .ok t) ∧
    ∀ id score,
      ((∃ bytes, encodeChecked .v1 id score = .ok bytes) ↔
        ∃ t, parseTradeId id = .ok t ∧ 0 ≤ score ∧ score ≤ 255) ∧
      (∀ t, parseTradeId id = .ok t → 0 ≤ score → score ≤ 255 → ∃ text bytes s,
        AgentCommand.Prints (.verdict id score) text ∧ fromHex text = .ok bytes ∧
        decode .v1 bytes = .ok (t, s) ∧ Int.ofNat s.toNat = score) ∧
      (∀ e, parseTradeId id = .error e →
        encodeChecked .v1 id score = .error (.tradeIdOutOfRange id) ∧
        AgentCommand.Refuses (.verdict id score) (CalldataError.tradeIdOutOfRange id).message) ∧
      (∀ t, parseTradeId id = .ok t → ¬(0 ≤ score ∧ score ≤ 255) →
        encodeChecked .v1 id score = .error (.scoreOutOfRange (Numeral.intText score)) ∧
        AgentCommand.Refuses (.verdict id score)
          (CalldataError.scoreOutOfRange (Numeral.intText score)).message) := by
  refine ⟨fun n k => ⟨Numeral.documented_decimal k n, Numeral.documented_hex (.inl rfl) k n⟩, ?_,
    parseTradeId_shown, fun id score => ⟨encodeChecked_succeeds_iff, ?_, ?_, ?_⟩⟩
  · intro s n before after h hbefore hafter raw
    refine ⟨fun hn => ?_, fun hn => parseTradeId_too_large h hn hbefore hafter⟩
    obtain ⟨t, rfl⟩ := Uint256.exists_toNat hn
    exact ⟨t, rfl, parseTradeId_documented h hbefore hafter⟩
  · intro t ht hlow hhigh
    have hbyte : score.toNat < UInt8.size := (Int.toNat_lt hlow).mpr (Int.lt_add_one_of_le hhigh)
    have hscore : Int.ofNat (UInt8.ofNat score.toNat).toNat = score := by
      rw [UInt8.toNat_ofNat_of_lt' hbyte]
      exact Int.toNat_of_nonneg hlow
    exact ⟨_, _, _, AgentCommand.prints_verdict (encodeChecked_of_good ht ⟨hlow, hhigh⟩),
      fromHex_toHex _, decode_eq_ok_iff.mpr rfl, hscore⟩
  · intro e he
    have hrefused := encodeChecked_of_bad_id .v1 score he
    exact ⟨hrefused, AgentCommand.refuses_verdict hrefused⟩
  · intro t ht hs
    have hrefused := encodeChecked_of_bad_score (p := .v1) ht hs
    exact ⟨hrefused, AgentCommand.refuses_verdict hrefused⟩

open Calldata in
theorem padded_verdict_is_encoded_exactly :
    (∃ t : Uint256, t.toNat = 255 ∧ parseTradeId "\u30000x00ff\n" = .ok t) ∧
    parseTradeId (String.ofList (Numeral.decimal Uint256.size)) =
      .error (.tradeIdOutOfRange (String.ofList (Numeral.decimal Uint256.size))) ∧
    (parseTradeId "0x00ff" = .ok 255 ∧ ∃ text bytes s,
      AgentCommand.Prints (.verdict "0x00ff" 7) text ∧ fromHex text = .ok bytes ∧
      decode .v1 bytes = .ok (255, s) ∧ Int.ofNat s.toNat = 7) ∧
    (parseTradeId "-5" = .error (.tradeIdOutOfRange "-5") ∧
      AgentCommand.Refuses (.verdict "-5" 300) (CalldataError.tradeIdOutOfRange "-5").message) ∧
    AgentCommand.Refuses (.verdict "0x00ff" 256) (CalldataError.scoreOutOfRange "256").message ∧
    AgentCommand.Refuses (.verdict "0x00ff" (-1)) (CalldataError.scoreOutOfRange "-1").message := by
  obtain ⟨hdocumented, hnumbers, -, hverdicts⟩ := verdict_is_encoded_exactly
  have hwide : ∀ c ∈ ['\u3000'], isBlank c = true := List.forall_mem_singleton.mpr (by decide)
  have hfeed : ∀ c ∈ ['\n'], isBlank c = true := List.forall_mem_singleton.mpr (by decide)
  have hnil : ∀ c ∈ ([] : List Char), isBlank c = true := List.forall_mem_nil _
  have hid : parseTradeId "0x00ff" = .ok 255 := by rfl
  have hminus : parseTradeId "-5" = .error (.tradeIdOutOfRange "-5") := by rfl
  have hpadded := hnumbers _ 255 ['\u3000'] ['\n'] (hdocumented 255 2).2 hwide hfeed
  have hlarge := hnumbers _ Uint256.size [] [] (hdocumented Uint256.size 0).1 hnil hnil
  exact ⟨hpadded.1 (by decide), hlarge.2 (Nat.le_refl _),
    ⟨hid, (hverdicts "0x00ff" 7).2.1 255 hid (by decide) (by decide)⟩,
    ⟨hminus, ((hverdicts "-5" 300).2.2.1 _ hminus).2⟩,
    ((hverdicts "0x00ff" 256).2.2.2 255 hid (by decide)).2,
    ((hverdicts "0x00ff" (-1)).2.2.2 255 hid (by decide)).2⟩

end TokenAudit
