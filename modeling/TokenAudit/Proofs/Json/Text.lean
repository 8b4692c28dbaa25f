import TokenAudit.Json.Reader

/-! Quoted texts: whatever characters a text has, no character below the blank stands in its quoted
form, and it reads back as the text. -/

namespace TokenAudit.Json

/-! ### One character -/

theorem eq_ofNat {c : Char} {n : Nat} (h : c.toNat = n) : c = Char.ofNat n := by
  rw [← h, Char.ofNat_toNat]

inductive Escapes (c : Char) : List Char → Prop
  | letter (e : Char) (hu : e ≠ 'u') (he : shortEscape? e = some c) (hle : 32 ≤ e.toNat) :
    Escapes c ['\\', e]
  | unit (hi lo : Char) (h : c.toNat < 32) (hunit : codeUnit? '0' '0' hi lo = some c.toNat)
    (hhi : 32 ≤ hi.toNat) (hlo : 32 ≤ lo.toNat) : Escapes c ['\\', 'u', '0', '0', hi, lo]
  | plain (hquote : c ≠ '"') (hslash : c ≠ '\\') (h : 32 ≤ c.toNat) : Escapes c [c]

theorem escapes (c : Char) : Escapes c (escape c) := by
  unfold escape
  split
  · rename_i h
    subst h
    exact .letter '"' (by decide) rfl (by decide)
  split
  · rename_i h
    subst h
    exact .letter '\\' (by decide) rfl (by decide)
  split
  · rename_i h
    exact .letter 'b' (by decide) (eq_ofNat h ▸ rfl) (by decide)
  split
  · rename_i h
    exact .letter 'f' (by decide) (eq_ofNat h ▸ rfl) (by decide)
  split
  · rename_i h
    exact .letter 'n' (by decide) (eq_ofNat h ▸ rfl) (by decide)
  split
  · rename_i h
    exact .letter 'r' (by decide) (eq_ofNat h ▸ rfl) (by decide)
  split
  · rename_i h
    exact .letter 't' (by decide) (eq_ofNat h ▸ rfl) (by decide)
  split
  · rename_i h
    have hdigits : ∀ n < 32,
        codeUnit? '0' '0' (if n < 16 then '0' else '1') (Nat.digitChar (n % 16)) = some n ∧
        32 ≤ (if n < 16 then '0' else '1').toNat ∧ 32 ≤ (Nat.digitChar (n % 16)).toNat := by decide
    obtain ⟨hunit, hhi, hlo⟩ := hdigits c.toNat h
    exact .unit _ _ h hunit hhi hlo
  · rename_i hquote hslash _ _ _ _ _ h
    exact .plain hquote hslash (Nat.le_of_not_lt h)

theorem le_of_mem_escape {c d : Char} (h : d ∈ escape c) : 32 ≤ d.toNat := by
  have hshape := escapes c
  generalize escape c = s at h hshape
  cases hshape with
  | letter e _ _ hle =>
    simp only [List.mem_cons, List.not_mem_nil, or_false] at h
    rcases h with rfl | rfl
    · decide
    · exact hle
  | unit hi lo _ _ hhi hlo =>
    simp only [List.mem_cons, List.not_mem_nil, or_false] at h
    rcases h with rfl | rfl | rfl | rfl | rfl | rfl
    · decide
    · decide
    · decide
    · decide
    · exact hhi
    · exact hlo
  | plain _ _ hle => exact List.mem_singleton.mp h ▸ hle

theorem le_of_mem_quoted {s : String} {d : Char} (h : d ∈ quoted s) : 32 ≤ d.toNat := by
  simp only [quoted, List.cons_append, List.mem_cons, List.mem_append, List.mem_flatMap,
    List.not_mem_nil, or_false] at h
  rcases h with rfl | ⟨c, -, hc⟩ | rfl
  · decide
  · exact le_of_mem_escape hc
  · decide

/-! ### Reading a character -/

inductive Piece.Denotes : Piece → Char → Prop
  | char (c : Char) : Denotes (.char c) c
  | unit (c : Char) (h : c.toNat < 32) : Denotes (.unit c.toNat) c

theorem joinPieces_cons {p : Piece} {c : Char} (h : p.Denotes c) (ps : List Piece) :
    joinPieces (p :: ps) = (joinPieces ps).map (c :: ·) := by
  cases h with
  | char c => rfl
  | unit c h =>
    have hhigh : isHigh c.toNat = false := by simp [isHigh]; omega
    have hlow : isLow c.toNat = false := by simp [isLow]; omega
    match ps with
    | [] | .char _ :: _ | .unit _ :: _ => simp [joinPieces, hhigh, hlow]

theorem readPieces_plain {c : Char} (hquote : c ≠ '"') (hslash : c ≠ '\\') (h : 32 ≤ c.toNat)
    (s : List Char) :
    readPieces (c :: s) = (readPieces s).map fun (ps, r) => (.char c :: ps, r) := by
  have hallowed : ¬(c.toNat < 32 ∨ c = '\\') := not_or.mpr ⟨Nat.not_lt_of_le h, hslash⟩
  rw [readPieces, if_neg hallowed]
  · cases readPieces s <;> rfl
  · exact hquote
  · exact fun _ _ _ _ _ hc => absurd hc hslash
  · exact fun _ _ hc => absurd hc hslash

theorem readPieces_letter {c e : Char} (hu : e ≠ 'u') (he : shortEscape? e = some c)
    (s : List Char) :
    readPieces ('\\' :: e :: s) = (readPieces s).map fun (ps, r) => (.char c :: ps, r) := by
  rw [readPieces, he]
  · cases readPieces s <;> rfl
  · exact fun _ _ _ _ _ hc => absurd hc hu

theorem readPieces_escape (c : Char) : ∃ p : Piece, p.Denotes c ∧ ∀ s,
    readPieces (escape c ++ s) = (readPieces s).map fun (ps, r) => (p :: ps, r) := by
  have hshape := escapes c
  generalize escape c = t at hshape
  cases hshape with
  | letter e hu he => exact ⟨.char c, .char c, readPieces_letter hu he⟩
  | unit hi lo h hunit =>
    refine ⟨.unit c.toNat, .unit c h, fun s => ?_⟩
    simp only [List.cons_append, List.nil_append, readPieces, hunit]
    cases readPieces s <;> rfl
  | plain hquote hslash h => exact ⟨.char c, .char c, readPieces_plain hquote hslash h⟩

/-! ### Reading a text -/

theorem readPieces_quoted (s rest : List Char) : ∃ ps, joinPieces ps = some s ∧
    readPieces (s.flatMap escape ++ '"' :: rest) = some (ps, rest) := by
  induction s with
  | nil => exact ⟨[], rfl, rfl⟩
  | cons c s ih =>
    obtain ⟨ps, hjoin, hread⟩ := ih
    obtain ⟨p, hp, hescape⟩ := readPieces_escape c
    refine ⟨p :: ps, ?_, ?_⟩
    · rw [joinPieces_cons hp, hjoin, Option.map_some]
    · rw [List.flatMap_cons, List.append_assoc, hescape, hread, Option.map_some]

theorem readString_quoted (s : String) (rest : List Char) :
    readString (s.toList.flatMap escape ++ '"' :: rest) = some (some s, rest) := by
  obtain ⟨ps, hjoin, hread⟩ := readPieces_quoted s.toList rest
  rw [readString, hread]
  simp only [Option.map_some, hjoin, String.ofList_toList]

theorem quoted_append (s : String) (rest : List Char) :
    quoted s ++ rest = '"' :: (s.toList.flatMap escape ++ '"' :: rest) := by
  rw [quoted, List.append_assoc, List.cons_append, List.singleton_append]

end TokenAudit.Json
