import Mathlib.Data.List.Nodup
import Mathlib.Logic.Basic
import TokenAudit.Detector.Security

/-! What a security answer says of a token when its entries are visited in one order or another. The
keys of an answer are told apart by letter case, and the entry of a token is looked for without it. -/

namespace TokenAudit.SecurityAnswer

variable {token : Address} {a : SecurityAnswer}

def Names (token : Address) (key : String) : Prop := Text.lowerAscii key.toList = token.hex.toList

instance (token : Address) (key : String) : Decidable (Names token key) :=
  inferInstanceAs (Decidable (Text.lowerAscii key.toList = token.hex.toList))

def visited (a : SecurityAnswer) (es : List (String × SecurityEntry)) : SecurityAnswer :=
  { a with result := es }

/-! ### Keys of what is decoded -/

theorem mem_keys_insert {key k : String} {e : SecurityEntry} {es : List (String × SecurityEntry)} :
    k ∈ (insert key e es).map Prod.fst ↔ k = key ∨ k ∈ es.map Prod.fst := by
  induction es with
  | nil => simp [insert]
  | cons d es ih =>
    obtain ⟨k', d⟩ := d
    by_cases hk : k' = key
    · rw [insert, if_pos hk]
      simp [hk]
    · rw [insert, if_neg hk, List.map_cons, List.map_cons, List.mem_cons, List.mem_cons, ih]
      exact or_left_comm

theorem nodup_keys_insert {key : String} {e : SecurityEntry} {es : List (String × SecurityEntry)}
    (h : (es.map Prod.fst).Nodup) : ((insert key e es).map Prod.fst).Nodup := by
  induction es with
  | nil => exact List.nodup_singleton key
  | cons d es ih =>
    obtain ⟨k, d⟩ := d
    obtain ⟨hk, hes⟩ := List.nodup_cons.mp h
    by_cases hkey : k = key
    · rw [insert, if_pos hkey]
      exact h
    · rw [insert, if_neg hkey]
      refine List.nodup_cons.mpr ⟨fun hmem => ?_, ih hes⟩
      exact (mem_keys_insert.mp hmem).elim hkey hk

theorem nodup_keys_readEntries? {ms : List (String × Json)} {done es : List (String × SecurityEntry)}
    (hdone : (done.map Prod.fst).Nodup) (h : readEntries? ms done = some es) :
    (es.map Prod.fst).Nodup := by
  induction ms generalizing done with
  | nil => exact Option.some.inj h ▸ hdone
  | cons m ms ih =>
    unfold readEntries? at h
    split at h
    · exact ih (nodup_keys_insert hdone) h
    · cases h

theorem nodup_keys_readResult? {j : Json} {es : List (String × SecurityEntry)}
    (h : readResult? j = some es) : (es.map Prod.fst).Nodup := by
  unfold readResult? at h
  split at h
  · have hnone : (([] : List (String × SecurityEntry)).map Prod.fst).Nodup := List.nodup_nil
    exact nodup_keys_readEntries? hnone h
  · cases h

theorem nodup_keys_of_decoded {j : Json} (h : ofJson? j = some a) :
    (a.result.map Prod.fst).Nodup := by
  unfold ofJson? at h
  split at h
  case h_1 code message result _ =>
    obtain ⟨_, _, h⟩ := Option.bind_eq_some_iff.mp h
    obtain ⟨_, _, h⟩ := Option.bind_eq_some_iff.mp h
    obtain ⟨es, hes, h⟩ := Option.bind_eq_some_iff.mp h
    cases h
    cases result with
    | given j => exact nodup_keys_readResult? hes
    | _ =>
      cases hes
      exact List.nodup_nil
  case h_2 => cases h

/-! ### Readings -/

theorem entry?_eq_none_iff {es : List (String × SecurityEntry)} :
    entry? token es = none ↔ ∀ e ∈ es, ¬Names token e.1 := by
  unfold entry?
  simp [Names, List.find?_eq_none]

theorem entry?_mem {es : List (String × SecurityEntry)} {e : SecurityEntry}
    (h : entry? token es = some e) : ∃ k, (k, e) ∈ es ∧ Names token k := by
  obtain ⟨⟨k, _⟩, hfind, rfl⟩ := Option.map_eq_some_iff.mp h
  have hk : decide (Names token k) = true :=
    List.find?_some (p := fun e : String × SecurityEntry => decide (Names token e.1)) hfind
  exact ⟨k, List.mem_of_find?_eq_some hfind, of_decide_eq_true hk⟩

theorem exists_perm_first {es : List (String × SecurityEntry)} {k : String} {e : SecurityEntry}
    (hmem : (k, e) ∈ es) (hk : Names token k) :
    ∃ es', es'.Perm es ∧ entry? token es' = some e := by
  obtain ⟨before, after, rfl⟩ := List.append_of_mem hmem
  refine ⟨(k, e) :: (before ++ after), List.perm_middle.symm, ?_⟩
  have hfirst : ((k, e) :: (before ++ after)).find? (fun e => decide (Names token e.1)) =
      some (k, e) := List.find?_cons_of_pos (decide_eq_true hk)
  exact congrArg (Option.map Prod.snd) hfirst

/-- What can come out, in some order or other. -/
inductive Reads (token : Address) (a : SecurityAnswer) : Except AuditError SecurityReport → Prop where
  | refused (h : a.code ≠ 1) : Reads token a (.error (refusal s!"code {a.code}: {a.message}"))
  | unknown (h : a.code = 1) (hnone : ∀ e ∈ a.result, ¬Names token e.1) :
    Reads token a (.error (refusal s!"{token.checksummed} not indexed"))
  | found (h : a.code = 1) (k : String) (e : SecurityEntry) (hmem : (k, e) ∈ a.result)
      (hk : Names token k) :
    Reads token a (.ok e.report)

theorem reads_report (token : Address) (a : SecurityAnswer) : a.Reads token (a.report token) := by
  unfold report
  by_cases hcode : a.code = 1
  · rw [if_neg (not_not_intro hcode)]
    cases h : entry? token a.result with
    | none => exact .unknown hcode (entry?_eq_none_iff.mp h)
    | some e =>
      obtain ⟨k, hmem, hk⟩ := entry?_mem h
      exact .found hcode k e hmem hk
  · rw [if_pos hcode]
    exact .refused hcode

theorem Reads.of_perm {es : List (String × SecurityEntry)} {o : Except AuditError SecurityReport}
    (hp : es.Perm a.result) (h : (a.visited es).Reads token o) : a.Reads token o := by
  cases h with
  | refused h => exact .refused h
  | unknown h hnone => exact .unknown h fun e he => hnone e (hp.symm.subset he)
  | found h k e hmem hk => exact .found (a := a) h k e (hp.subset hmem) hk

theorem Reads.exists_perm {o : Except AuditError SecurityReport} (h : a.Reads token o) :
    ∃ es, es.Perm a.result ∧ (a.visited es).report token = o := by
  cases h with
  | refused h => exact ⟨a.result, .refl _, if_pos h⟩
  | unknown h hnone =>
    refine ⟨a.result, .refl _, ?_⟩
    have hlost : entry? token a.result = none := entry?_eq_none_iff.mpr hnone
    simp only [report, visited, h, hlost, ne_eq, not_true_eq_false, if_false]
  | found h k e hmem hk =>
    obtain ⟨es, hp, he⟩ := exists_perm_first hmem hk
    refine ⟨es, hp, ?_⟩
    simp only [report, visited, h, he, ne_eq, not_true_eq_false, if_false]

theorem Reads.unique {o o' : Except AuditError SecurityReport} (hr : a.Reads token o)
    (hagree : a.code ≠ 1 ∨ ∀ k e k' e', (k, e) ∈ a.result → (k', e') ∈ a.result →
      Names token k → Names token k' → e.report = e'.report) (hr' : a.Reads token o') : o = o' := by
  cases hr with
  | refused hcode =>
    cases hr' with
    | refused => rfl
    | unknown hone => exact absurd hone hcode
    | found hone => exact absurd hone hcode
  | unknown hcode hnone =>
    cases hr' with
    | refused hne => exact absurd hcode hne
    | unknown => rfl
    | found _ k e hmem hk => exact absurd hk (hnone (k, e) hmem)
  | found hcode k e hmem hk =>
    cases hr' with
    | refused hne => exact absurd hcode hne
    | unknown _ hnone => exact absurd hk (hnone (k, e) hmem)
    | found _ k' e' hmem' hk' =>
      have hreport : e.report = e'.report :=
        hagree.resolve_left (not_not_intro hcode) k e k' e' hmem hmem' hk hk'
      rw [hreport]

/-- An answer has one reading, in whatever order its entries are visited, exactly if it is refused
or all entries whose keys are the token's address but for letter case say the same. Every one of
them is read in some order. -/
theorem one_reading_iff_entries_agree (token : Address) (a : SecurityAnswer) :
    (∀ o, (∃ es, es.Perm a.result ∧ (a.visited es).report token = o) ↔ a.Reads token o) ∧
    ((∀ es es', es.Perm a.result → es'.Perm a.result →
        (a.visited es).report token = (a.visited es').report token) ↔
      a.code ≠ 1 ∨ ∀ k e k' e', (k, e) ∈ a.result → (k', e') ∈ a.result →
        Names token k → Names token k' → e.report = e'.report) ∧
    ∀ j, ofJson? j = some a → (a.result.map Prod.fst).Nodup := by
  have hreads : ∀ es, es.Perm a.result → a.Reads token ((a.visited es).report token) :=
    fun es hp => .of_perm hp (reads_report token (a.visited es))
  refine ⟨fun o => ⟨?_, Reads.exists_perm⟩, ⟨fun hone => ?_, ?_⟩, fun j => nodup_keys_of_decoded⟩
  · rintro ⟨es, hp, rfl⟩
    exact hreads es hp
  -- Two entries of the token are both read, each in an order of its own.
  · refine or_iff_not_imp_left.mpr fun hcode k e k' e' hmem hmem' hk hk' => ?_
    have hcode := not_not.mp hcode
    obtain ⟨es, hp, hes⟩ := (Reads.found hcode k e hmem hk).exists_perm
    obtain ⟨es', hp', hes'⟩ := (Reads.found hcode k' e' hmem' hk').exists_perm
    exact Except.ok.inj (hes.symm.trans ((hone es es' hp hp').trans hes'))
  · exact fun hagree es es' hp hp' => (hreads es hp).unique hagree (hreads es' hp')

def honeypotText (text : String) : SecurityEntry := ⟨none, some text, none, none, none⟩

def twoSpellings : SecurityAnswer :=
  ⟨1, "OK", [("0x00000000000000000000000000000000000000aa", honeypotText "1"),
    ("0x00000000000000000000000000000000000000AA", honeypotText "0")]⟩

theorem order_of_spellings_decides :
    (∃ j, ofJson? j = some twoSpellings) ∧ ∃ es, es.Perm twoSpellings.result ∧
      (twoSpellings.report ⟨0xaa⟩).map SecurityReport.isHoneypot = .ok true ∧
      ((twoSpellings.visited es).report ⟨0xaa⟩).map SecurityReport.isHoneypot = .ok false := by
  refine ⟨⟨.obj [("code", .int 1), ("message", .str "OK"), ("result", .obj
    [("0x00000000000000000000000000000000000000aa", .obj [("is_honeypot", .str "1")]),
      ("0x00000000000000000000000000000000000000AA", .obj [("is_honeypot", .str "0")])])], ?_⟩,
    twoSpellings.result.reverse, List.reverse_perm _, ?_, ?_⟩
  · rfl
  · decide +kernel
  · decide +kernel

end TokenAudit.SecurityAnswer
