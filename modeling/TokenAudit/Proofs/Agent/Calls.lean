import TokenAudit.Proofs.Agent.Printing
import TokenAudit.Proofs.Calldata.TradeIds
import TokenAudit.Rpc.Chain

/-! The calls that an agent makes of the receiving contract, and the logs that it asks for. Arguments
stand at fixed places of the calldata, each in a word of its own, and so different arguments make
different calldata, and different tokens different topics. -/

namespace TokenAudit

theorem Address.bytes_injective : Function.Injective Address.bytes := by
  intro a b h
  rw [← a.ofBytes_bytes, ← b.ofBytes_bytes, h]

theorem Uint256.bytes_injective : Function.Injective Uint256.bytes := by
  intro x y h
  rw [← x.ofBytes_bytes, ← y.ofBytes_bytes, h]

theorem Uint256.length_bytes (x : Uint256) : x.bytes.length = 32 := Word.length_bigEndian 32 x.toNat

theorem Uint256.ofBytes_bytes_toNat (x : Uint256) : Word.ofBytes x.bytes = x.toNat := by
  have hlt : x.toNat < 256 ^ 32 := x.isLt
  rw [bytes, Word.ofBytes_bigEndian, Nat.mod_eq_of_lt hlt]

namespace Calldata

/-! ### Layout -/

/-- Calldata is a selector with words of 32 bytes behind it, and no more. -/
structure LaidOut (signature : String) (words : List Bytes) (calldata : Bytes) : Prop where
  length : calldata.length = 4 + 32 * words.length
  selector : calldata.take 4 = selector signature
  word : ∀ i (h : i < words.length), (calldata.drop (4 + 32 * i)).take 32 = words[i]

variable {signature signature' : String} {words words' : List Bytes} {calldata : Bytes}

theorem length_flatten_words (h : ∀ w ∈ words, w.length = 32) :
    words.flatten.length = 32 * words.length := by
  induction words with
  | nil => rfl
  | cons w ws ih =>
    obtain ⟨hw, hws⟩ := List.forall_mem_cons.mp h
    rw [List.flatten_cons, List.length_append, hw, ih hws, List.length_cons, Nat.mul_succ, Nat.add_comm]

theorem take_drop_flatten_words (h : ∀ w ∈ words, w.length = 32) (i : Nat) (hi : i < words.length) :
    (words.flatten.drop (32 * i)).take 32 = words[i] := by
  induction words generalizing i with
  | nil => exact absurd hi (Nat.not_lt_zero i)
  | cons w ws ih =>
    obtain ⟨hw, hws⟩ := List.forall_mem_cons.mp h
    cases i with
    | zero => exact List.take_left' hw
    | succ i =>
      -- The first word is dropped whole; what is left of the offset counts in the words behind it.
      have hrest : (w ++ ws.flatten).drop (32 * (i + 1)) = ws.flatten.drop (32 * i) := by
        rw [Nat.mul_succ, Nat.add_comm, ← List.drop_drop, List.drop_left' hw]
      rw [List.flatten_cons, hrest]
      exact ih hws i (Nat.lt_of_succ_lt_succ hi)

theorem laidOut_flatten (signature : String) (h : ∀ w ∈ words, w.length = 32) :
    LaidOut signature words (selector signature ++ words.flatten) where
  length := by rw [List.length_append, length_selector, length_flatten_words h, selectorLength]
  selector := List.take_left' (length_selector signature)
  word i hi := by
    have hbehind : (selector signature ++ words.flatten).drop 4 = words.flatten :=
      List.drop_left' (length_selector signature)
    rw [← List.drop_drop, hbehind]
    exact take_drop_flatten_words h i hi

theorem LaidOut.words_unique (h : LaidOut signature words calldata)
    (h' : LaidOut signature' words' calldata) : words = words' := by
  have hcount : words.length = words'.length := by
    have hlength := h.length.symm.trans h'.length
    omega
  refine List.ext_getElem hcount fun i hi hi' => ?_
  rw [← h.word i hi, ← h'.word i hi']

/-! ### Words of arguments -/

theorem length_addressWord (a : Address) : (addressWord a).length = 32 :=
  Word.length_bigEndian 32 a.value.toNat

theorem addressWord_eq (a : Address) : addressWord a = List.replicate 12 0 ++ a.bytes := by
  have hlt : a.value.toNat < 256 ^ 20 := a.value.isLt
  exact Word.bigEndian_of_lt 12 hlt

theorem addressWord_injective : Function.Injective addressWord := by
  intro a b h
  rw [addressWord_eq, addressWord_eq] at h
  exact Address.bytes_injective (List.append_cancel_left h)

theorem laidOut_requestAudit (a : Address) :
    LaidOut requestAuditSignature [addressWord a] (requestAudit a) := by
  have hwords : ∀ w ∈ [addressWord a], w.length = 32 :=
    List.forall_mem_singleton.mpr (length_addressWord a)
  have hlaid := laidOut_flatten requestAuditSignature hwords
  rwa [List.flatten_cons, List.flatten_nil, List.append_nil] at hlaid

theorem laidOut_triggerSwap (a : Address) (x y : Uint256) :
    LaidOut triggerSwapSignature [addressWord a, x.bytes, y.bytes] (triggerSwap a x y) := by
  have hwords : ∀ w ∈ [addressWord a, x.bytes, y.bytes], w.length = 32 :=
    List.forall_mem_cons.mpr ⟨length_addressWord a,
      List.forall_mem_cons.mpr ⟨x.length_bytes, List.forall_mem_singleton.mpr y.length_bytes⟩⟩
  have hlaid := laidOut_flatten triggerSwapSignature hwords
  rwa [List.flatten_cons, List.flatten_cons, List.flatten_cons, List.flatten_nil, List.append_nil,
    ← List.append_assoc, ← List.append_assoc] at hlaid

theorem requestAudit_injective : Function.Injective requestAudit := by
  intro a b h
  have hwords := (laidOut_requestAudit a).words_unique (h ▸ laidOut_requestAudit b)
  exact addressWord_injective (List.cons.inj hwords).1

theorem triggerSwap_injective :
    Function.Injective fun c : Address × Uint256 × Uint256 => triggerSwap c.1 c.2.1 c.2.2 := by
  rintro ⟨a, x, y⟩ ⟨b, x', y'⟩ h
  have hswap : triggerSwap a x y = triggerSwap b x' y' := h
  have hwords := (laidOut_triggerSwap a x y).words_unique (hswap ▸ laidOut_triggerSwap b x' y')
  obtain ⟨htoken, hamounts⟩ := List.cons.inj hwords
  obtain ⟨hin, hout⟩ := List.cons.inj hamounts
  rw [addressWord_injective htoken, Uint256.bytes_injective hin,
    Uint256.bytes_injective (List.cons.inj hout).1]

/-! ### Topics -/

theorem bytes_addressTopic (a : Address) : (addressTopic a).bytes = addressWord a :=
  Uint256.bytes_ofBytes (length_addressWord a)

theorem addressTopic_injective : Function.Injective addressTopic := by
  intro a b h
  apply addressWord_injective
  rw [← bytes_addressTopic, ← bytes_addressTopic, h]

end Calldata

def Rpc.LogFilter.Selects (f : Rpc.LogFilter) (topics : List Hash) : Prop :=
  ∀ (i : Nat) (h : Hash), f.topics[i]? = some (some h) → topics[i]? = some h

namespace ClearanceLogs

open Rpc.LogFilter (Selects)

theorem selects_filter_iff {module_ token : Address} {signature : String} {fromBlock : UInt64}
    {topics : List Hash} : Selects (filter module_ signature token fromBlock) topics ↔
      ∃ rest, topics = Calldata.eventTopic signature :: Calldata.addressTopic token :: rest := by
  constructor
  · intro h
    have hevent := h 0 (Calldata.eventTopic signature) rfl
    have htoken := h 1 (Calldata.addressTopic token) rfl
    match topics, hevent, htoken with
    | _ :: _ :: rest, rfl, rfl => exact ⟨rest, rfl⟩
  · rintro ⟨rest, rfl⟩ i h hi
    match i, hi with
    | 0, rfl => rfl
    | 1, rfl => rfl

theorem token_eq_of_selects {module_ module' a b : Address} {signature signature' : String}
    {fromBlock fromBlock' : UInt64} {topics : List Hash}
    (h : Selects (filter module_ signature a fromBlock) topics)
    (h' : Selects (filter module' signature' b fromBlock') topics) : a = b := by
  obtain ⟨rest, rfl⟩ := selects_filter_iff.mp h
  obtain ⟨rest', heq⟩ := selects_filter_iff.mp h'
  exact Calldata.addressTopic_injective (List.cons.inj (List.cons.inj heq).2).1

end ClearanceLogs

/-! ### Commands -/

namespace AgentCommand

open Calldata

variable {token amountIn amountOutMin : String} {a : Address} {x y : Uint256}

theorem parseAddress_of_ok {option : String} (h : Address.parse (trimmed token) = .ok a) :
    parseAddress option token = .ok a := by
  rw [parseAddress, h]
  rfl

theorem parseAddress_of_error {option : String} {e : HexFault}
    (h : Address.parse (trimmed token) = .error e) :
    parseAddress option token = .error (.usage s!"--{option}: invalid address '{token}': {e.message}") := by
  rw [parseAddress, h]
  rfl

theorem parseAmount_of_error {option amount : String} {e : CalldataError}
    (h : parseTradeId amount = .error e) :
    parseAmount option amount = .error (.usage s!"--{option}: '{amount}' is not a uint256") := by
  rw [parseAmount, h]
  rfl

theorem prints_requestAudit (h : Address.parse (trimmed token) = .ok a) :
    Prints (.requestAudit token) (toHex (Calldata.requestAudit a)) := by
  have hdata : requestAuditData token = .ok (Calldata.requestAudit a) := by
    rw [requestAuditData, parseAddress_of_ok h]
    rfl
  exact (encodes_requestAudit hdata).prints

theorem prints_triggerSwap (htoken : Address.parse (trimmed token) = .ok a)
    (hin : parseTradeId amountIn = .ok x) (hout : parseTradeId amountOutMin = .ok y) :
    Prints (.triggerSwap token amountIn amountOutMin) (toHex (Calldata.triggerSwap a x y)) := by
  have hdata : triggerSwapData token amountIn amountOutMin = .ok (Calldata.triggerSwap a x y) := by
    rw [triggerSwapData, parseAddress_of_ok htoken, parseAmount_eq_ok_iff.mpr hin,
      parseAmount_eq_ok_iff.mpr hout]
    rfl
  exact (encodes_triggerSwap hdata).prints

/-- Why there is no calldata: of the texts, in the order in which they are read, the first one that does
not parse. -/
inductive Unread : AgentCommand → String → Prop where
  | auditToken {token e} (h : Address.parse (trimmed token) = .error e) :
    Unread (.requestAudit token) s!"--token: invalid address '{token}': {e.message}"
  | swapToken {token amountIn amountOutMin e} (h : Address.parse (trimmed token) = .error e) :
    Unread (.triggerSwap token amountIn amountOutMin)
      s!"--token: invalid address '{token}': {e.message}"
  | amountIn {token amountIn amountOutMin a e} (htoken : Address.parse (trimmed token) = .ok a)
    (h : parseTradeId amountIn = .error e) :
    Unread (.triggerSwap token amountIn amountOutMin) s!"--amount-in: '{amountIn}' is not a uint256"
  | amountOutMin {token amountIn amountOutMin a x e} (htoken : Address.parse (trimmed token) = .ok a)
    (hin : parseTradeId amountIn = .ok x) (h : parseTradeId amountOutMin = .error e) :
    Unread (.triggerSwap token amountIn amountOutMin)
      s!"--amount-out-min: '{amountOutMin}' is not a uint256"

theorem Unread.encodes {c : AgentCommand} {message : String} (h : Unread c message) :
    Encodes c (.error (.usage message)) := by
  cases h with
  | auditToken h =>
    apply encodes_requestAudit
    rw [requestAuditData, parseAddress_of_error h]
    rfl
  | swapToken h =>
    apply encodes_triggerSwap
    rw [triggerSwapData, parseAddress_of_error h]
    rfl
  | amountIn htoken h =>
    apply encodes_triggerSwap
    rw [triggerSwapData, parseAddress_of_ok htoken, parseAmount_of_error h]
    rfl
  | amountOutMin htoken hin h =>
    apply encodes_triggerSwap
    rw [triggerSwapData, parseAddress_of_ok htoken, parseAmount_eq_ok_iff.mpr hin,
      parseAmount_of_error h]
    rfl

theorem exists_unread_requestAudit (h : ¬∃ a, Address.parse (trimmed token) = .ok a) :
    ∃ message, Unread (.requestAudit token) message := by
  cases htoken : Address.parse (trimmed token) with
  | error e => exact ⟨_, .auditToken htoken⟩
  | ok a => exact absurd ⟨a, htoken⟩ h

theorem exists_unread_triggerSwap (h : ¬∃ a x y, Address.parse (trimmed token) = .ok a ∧
    parseTradeId amountIn = .ok x ∧ parseTradeId amountOutMin = .ok y) :
    ∃ message, Unread (.triggerSwap token amountIn amountOutMin) message := by
  cases htoken : Address.parse (trimmed token) with
  | error e => exact ⟨_, .swapToken htoken⟩
  | ok a =>
    cases hin : parseTradeId amountIn with
    | error e => exact ⟨_, .amountIn htoken hin⟩
    | ok x =>
      cases hout : parseTradeId amountOutMin with
      | error e => exact ⟨_, .amountOutMin htoken hin hout⟩
      | ok y => exact absurd ⟨a, x, y, htoken, hin, hout⟩ h

end AgentCommand

open Calldata AgentCommand in
/-- What is printed for texts that parse reads back as the call that they describe, with every argument in
its word; nothing is printed for others. Calls, topics and selected logs differ where the arguments do. -/
theorem agent_calldata_reads_back :
    (∀ token a, Address.parse (trimmed token) = .ok a → ∃ text,
      Prints (.requestAudit token) text ∧ fromHex text = .ok (Calldata.requestAudit a)) ∧
    (∀ token amountIn amountOutMin a x y, Address.parse (trimmed token) = .ok a →
      parseTradeId amountIn = .ok x → parseTradeId amountOutMin = .ok y → ∃ text,
      Prints (.triggerSwap token amountIn amountOutMin) text ∧
        fromHex text = .ok (Calldata.triggerSwap a x y)) ∧
    (∀ a, (Calldata.requestAudit a).length = 36 ∧
      LaidOut requestAuditSignature [List.replicate 12 0 ++ a.bytes] (Calldata.requestAudit a)) ∧
    (∀ a x y, (Calldata.triggerSwap a x y).length = 100 ∧
      LaidOut triggerSwapSignature [List.replicate 12 0 ++ a.bytes, x.bytes, y.bytes]
        (Calldata.triggerSwap a x y)) ∧
    (∀ x : Uint256, x.bytes.length = 32 ∧ Word.ofBytes x.bytes = x.toNat) ∧
    Function.Injective Calldata.requestAudit ∧
    (Function.Injective fun c : Address × Uint256 × Uint256 => Calldata.triggerSwap c.1 c.2.1 c.2.2) ∧
    (∀ a, (addressTopic a).bytes = List.replicate 12 0 ++ a.bytes) ∧
    Function.Injective addressTopic ∧
    (∀ module_ signature a fromBlock topics,
      (ClearanceLogs.filter module_ signature a fromBlock).Selects topics ↔
        ∃ rest, topics = eventTopic signature :: addressTopic a :: rest) ∧
    (∀ a b, a ≠ b → ∀ module_ module' signature signature' fromBlock fromBlock' topics,
      ¬((ClearanceLogs.filter module_ signature a fromBlock).Selects topics ∧
        (ClearanceLogs.filter module' signature' b fromBlock').Selects topics)) ∧
    (∀ token, (¬∃ a, Address.parse (trimmed token) = .ok a) →
      ∃ message, Unread (.requestAudit token) message ∧ Refuses (.requestAudit token) message) ∧
    (∀ token amountIn amountOutMin, (¬∃ a x y, Address.parse (trimmed token) = .ok a ∧
      parseTradeId amountIn = .ok x ∧ parseTradeId amountOutMin = .ok y) → ∃ message,
      Unread (.triggerSwap token amountIn amountOutMin) message ∧
        Refuses (.triggerSwap token amountIn amountOutMin) message) := by
  refine ⟨fun token a h => ⟨_, prints_requestAudit h, fromHex_toHex _⟩,
    fun token amountIn amountOutMin a x y htoken hin hout =>
      ⟨_, prints_triggerSwap htoken hin hout, fromHex_toHex _⟩, fun a => ?_, fun a x y => ?_,
    fun x => ⟨x.length_bytes, x.ofBytes_bytes_toNat⟩, requestAudit_injective, triggerSwap_injective,
    fun a => (bytes_addressTopic a).trans (addressWord_eq a), addressTopic_injective,
    fun module_ signature a fromBlock topics => ClearanceLogs.selects_filter_iff, ?_, ?_, ?_⟩
  · rw [← addressWord_eq]
    exact ⟨(laidOut_requestAudit a).length, laidOut_requestAudit a⟩
  · rw [← addressWord_eq]
    exact ⟨(laidOut_triggerSwap a x y).length, laidOut_triggerSwap a x y⟩
  · rintro a b hne module_ module' signature signature' fromBlock fromBlock' topics ⟨ha, hb⟩
    exact hne (ClearanceLogs.token_eq_of_selects ha hb)
  · intro token h
    obtain ⟨message, hunread⟩ := exists_unread_requestAudit h
    exact ⟨message, hunread, hunread.encodes.refuses⟩
  · intro token amountIn amountOutMin h
    obtain ⟨message, hunread⟩ := exists_unread_triggerSwap h
    exact ⟨message, hunread, hunread.encodes.refuses⟩

open Calldata AgentCommand in
theorem padded_calls_read_back :
    let token := "\n0x4200000000000000000000000000000000000006 "
    let a : Address := ⟨0x4200000000000000000000000000000000000006⟩
    (Address.parse (trimmed token) = .ok a ∧ parseTradeId "1000000000000000000" = .ok 1000000000000000000 ∧
      parseTradeId " 0x0F" = .ok 15) ∧
    (∃ text, Prints (.requestAudit token) text ∧ fromHex text = .ok (Calldata.requestAudit a)) ∧
    (∃ text, Prints (.triggerSwap token "1000000000000000000" " 0x0F") text ∧
      fromHex text = .ok (Calldata.triggerSwap a 1000000000000000000 15)) ∧
    ¬((ClearanceLogs.filter a clearanceUpdatedSignature a 0).Selects
        [eventTopic clearanceUpdatedSignature, addressTopic a] ∧
      (ClearanceLogs.filter a clearanceUpdatedSignature Address.zero 0).Selects
        [eventTopic clearanceUpdatedSignature, addressTopic a]) ∧
    (∃ message, Unread (.requestAudit "0x42") message ∧ Refuses (.requestAudit "0x42") message) ∧
    ∃ message, Unread (.triggerSwap token "-1" "1") message ∧
      Refuses (.triggerSwap token "-1" "1") message := by
  intro token a
  have htoken : Address.parse (trimmed "\n0x4200000000000000000000000000000000000006 ") =
      .ok ⟨0x4200000000000000000000000000000000000006⟩ := by decide +kernel
  have hin : parseTradeId "1000000000000000000" = .ok 1000000000000000000 := by decide +kernel
  have hout : parseTradeId " 0x0F" = .ok 15 := by rfl
  have hne : a ≠ Address.zero := by decide
  have hshort : ¬∃ b, Address.parse (trimmed "0x42") = .ok b := by
    rintro ⟨b, h⟩
    have hfault : Address.parse (trimmed "0x42") = .error .wrongLength := by rfl
    rw [hfault] at h
    cases h
  have hnegative : ¬∃ b x y, Address.parse (trimmed token) = .ok b ∧ parseTradeId "-1" = .ok x ∧
      parseTradeId "1" = .ok y := by
    rintro ⟨b, x, y, -, h, -⟩
    have hfault : parseTradeId "-1" = .error (.tradeIdOutOfRange "-1") := by rfl
    rw [hfault] at h
    cases h
  obtain ⟨haudit, hswap, -, -, -, -, -, -, -, -, hdisjoint, hnoaudit, hnoswap⟩ :=
    agent_calldata_reads_back
  exact ⟨⟨htoken, hin, hout⟩, haudit token a htoken, hswap token _ _ a _ _ htoken hin hout,
    hdisjoint a Address.zero hne _ _ _ _ _ _ _, hnoaudit _ hshort, hnoswap _ _ _ hnegative⟩

end TokenAudit
