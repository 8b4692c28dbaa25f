import TokenAudit.Agent.Duration
import TokenAudit.Proofs.Numeral.Spelling

/-! Texts of durations: a number with one of three units behind it, or with none. Such a text is read in
one unit only, for exactly what it says, and every other text is refused. -/

namespace TokenAudit

theorem Text.before?_eq_some_iff {tail s r : List Char} : before? tail s = some r ↔ s = r ++ tail := by
  constructor
  · intro h
    obtain ⟨q, hq, rfl⟩ := Option.map_eq_some_iff.mp h
    have hs := congrArg List.reverse (eq_append_of_after? hq)
    simpa using hs
  · rintro rfl
    exact before?_append r tail

theorem Text.before?_eq_none_iff {tail s : List Char} : before? tail s = none ↔ ∀ r, s ≠ r ++ tail := by
  rw [Option.eq_none_iff_forall_ne_some]
  exact forall_congr' fun r => not_congr before?_eq_some_iff

namespace Duration

inductive Measure where
  | bare
  | seconds
  | millis
  | minutes
  deriving DecidableEq, Repr

namespace Measure

def suffix : Measure → List Char
  | bare => []
  | seconds => ['s']
  | millis => ['m', 's']
  | minutes => ['m']

def millisEach : Measure → Nat
  | bare => 1000
  | seconds => 1000
  | millis => 1
  | minutes => 60000

def parts (k : UInt64) : Measure → UInt64 × UInt64
  | bare => (k, 0)
  | seconds => (k, 0)
  | millis => (k / 1000, k % 1000)
  | minutes => (k * 60, 0)

end Measure

/-- A number of 64 bits with its unit behind it; a number of minutes has 64 bits in seconds too. -/
structure Spells (u : Measure) (n : Nat) (s : List Char) : Prop where
  text : ∃ number, Numeral.Plain number n ∧ s = number ++ u.suffix
  fits : n < UInt64.size
  secondsFit : u = .minutes → n * 60 < UInt64.size

variable {u v : Measure} {n m d : Nat} {s number : List Char}

def isLetter (c : Char) : Bool := c == 'm' || c == 's'

theorem number?_eq_some_iff : number? s = some n ↔ n < UInt64.size ∧ Numeral.Plain s n :=
  Numeral.readNat_eq_some_iff

theorem minutes?_eq_some_iff :
    minutes? s = some n ↔ (n < UInt64.size ∧ Numeral.Plain s n) ∧ n * 60 < UInt64.size := by
  rw [minutes?, Option.filter_eq_some_iff, number?_eq_some_iff, decide_eq_true_eq]

theorem no_letter (h : Numeral.Plain number n) : ∀ c ∈ number, isLetter c = false := by
  have hdigit : ∀ c, Numeral.isFigure c = true → isLetter c = false := by
    intro c hc
    have hle := (Numeral.isFigure_iff.mp hc).2
    by_contra hletter
    rw [Bool.not_eq_false, isLetter, Bool.or_eq_true, beq_iff_eq, beq_iff_eq] at hletter
    rcases hletter with rfl | rfl
    · exact absurd hle (by decide)
    · exact absurd hle (by decide)
  obtain ⟨digits, hsign, hdigits⟩ := h
  have hall : ∀ c ∈ digits, isLetter c = false :=
    fun c hc => hdigit c ((Numeral.denotes_ten_iff.mp hdigits).2.1 c hc)
  rcases hsign with rfl | rfl
  · exact hall
  · exact List.forall_mem_cons.mpr ⟨rfl, hall⟩

theorem takeWhile_spelled (h : Numeral.Plain number n) (u : Measure) :
    (number ++ u.suffix).takeWhile (fun c => !isLetter c) = number := by
  -- The units begin with letters, and numbers have none: so the text shows where it is to be cut.
  have hnone : u.suffix.takeWhile (fun c => !isLetter c) = [] := by cases u <;> decide
  rw [List.takeWhile_append_of_pos fun c hc => by simp [no_letter h c hc], hnone, List.append_nil]

theorem Spells.unique (hu : Spells u n s) (hv : Spells v m s) : u = v ∧ n = m := by
  obtain ⟨number, hn, rfl⟩ := hu.text
  obtain ⟨number', hm, heq⟩ := hv.text
  have hnumber : number = number' := by
    rw [← takeWhile_spelled hn u, heq, takeWhile_spelled hm v]
  subst hnumber
  have hsuffix : u.suffix = v.suffix := List.append_cancel_left heq
  have hread := number?_eq_some_iff.mpr ⟨hu.fits, hn⟩
  rw [number?_eq_some_iff.mpr ⟨hv.fits, hm⟩, Option.some_inj] at hread
  refine ⟨?_, hread.symm⟩
  revert hsuffix
  cases u <;> cases v <;> decide

/-! ### Reading -/

theorem spells_millis (h : Numeral.Plain number n) (hn : n < UInt64.size) :
    Spells .millis n (number ++ ['m', 's']) := ⟨⟨number, h, rfl⟩, hn, nofun⟩

theorem spells_seconds (h : Numeral.Plain number n) (hn : n < UInt64.size) :
    Spells .seconds n (number ++ ['s']) := ⟨⟨number, h, rfl⟩, hn, nofun⟩

theorem spells_minutes (h : Numeral.Plain number n) (hn : n < UInt64.size)
    (hseconds : n * 60 < UInt64.size) : Spells .minutes n (number ++ ['m']) :=
  ⟨⟨number, h, rfl⟩, hn, fun _ => hseconds⟩

theorem spells_bare (h : Numeral.Plain number n) (hn : n < UInt64.size) : Spells .bare n number :=
  ⟨⟨number, h, (List.append_nil number).symm⟩, hn, nofun⟩

theorem spells_of_readTrimmed? (h : readTrimmed? s = some d) :
    ∃ u n, Spells u n s ∧ d = n * u.millisEach := by
  unfold readTrimmed? at h
  split at h
  · next number hms =>
    obtain ⟨hn, hplain⟩ := number?_eq_some_iff.mp h
    rw [Text.before?_eq_some_iff.mp hms]
    exact ⟨.millis, d, spells_millis hplain hn, (Nat.mul_one d).symm⟩
  split at h
  · next number hs =>
    obtain ⟨n, hread, rfl⟩ := Option.map_eq_some_iff.mp h
    obtain ⟨hn, hplain⟩ := number?_eq_some_iff.mp hread
    rw [Text.before?_eq_some_iff.mp hs]
    exact ⟨.seconds, n, spells_seconds hplain hn, rfl⟩
  split at h
  · next number hm =>
    obtain ⟨n, hread, rfl⟩ := Option.map_eq_some_iff.mp h
    obtain ⟨⟨hn, hplain⟩, hseconds⟩ := minutes?_eq_some_iff.mp hread
    rw [Text.before?_eq_some_iff.mp hm]
    exact ⟨.minutes, n, spells_minutes hplain hn hseconds, rfl⟩
  · obtain ⟨n, hread, rfl⟩ := Option.map_eq_some_iff.mp h
    obtain ⟨hn, hplain⟩ := number?_eq_some_iff.mp hread
    exact ⟨.bare, n, spells_bare hplain hn, rfl⟩

theorem before?_of_spelled (h : Numeral.Plain number n) (u : Measure) (tail : List Char)
    (htail : ¬tail <:+ u.suffix) (hletters : tail.all isLetter = true) :
    Text.before? tail (number ++ u.suffix) = none := by
  refine Text.before?_eq_none_iff.mpr fun r heq => ?_
  have hend : tail <:+ number ++ u.suffix := ⟨r, heq.symm⟩
  obtain ⟨t, rfl⟩ :=
    (List.suffix_or_suffix_of_suffix hend (List.suffix_append number u.suffix)).resolve_left htail
  have hne : t ≠ [] := by
    rintro rfl
    exact htail List.suffix_rfl
  have hnumber : number = r ++ t := by
    rw [← List.append_assoc] at heq
    exact List.append_cancel_right heq
  obtain ⟨c, hc⟩ := List.exists_mem_of_ne_nil t hne
  have hletter := List.all_eq_true.mp hletters c (List.mem_append_left _ hc)
  rw [no_letter h c (hnumber ▸ List.mem_append_right r hc)] at hletter
  cases hletter

theorem readTrimmed?_of_spells (h : Spells u n s) : readTrimmed? s = some (n * u.millisEach) := by
  -- The endings that are tried before its own do not fit.
  obtain ⟨number, hplain, rfl⟩ := h.text
  have hnumber := number?_eq_some_iff.mpr ⟨h.fits, hplain⟩
  have hother := before?_of_spelled hplain u
  unfold readTrimmed?
  cases u with
  | millis =>
    have hown : Text.before? ['m', 's'] (number ++ Measure.millis.suffix) = some number :=
      Text.before?_append number _
    rw [hown]
    dsimp only
    rw [hnumber]
    exact congrArg some (Nat.mul_one n).symm
  | seconds =>
    have hown : Text.before? ['s'] (number ++ Measure.seconds.suffix) = some number :=
      Text.before?_append number _
    rw [hother ['m', 's'] (by decide) (by decide), hown]
    dsimp only
    rw [hnumber]
    rfl
  | minutes =>
    have hown : Text.before? ['m'] (number ++ Measure.minutes.suffix) = some number :=
      Text.before?_append number _
    have hminutes := minutes?_eq_some_iff.mpr ⟨⟨h.fits, hplain⟩, h.secondsFit rfl⟩
    rw [hother ['m', 's'] (by decide) (by decide), hother ['s'] (by decide) (by decide), hown]
    dsimp only
    rw [hminutes]
    rfl
  | bare =>
    have hwhole : number ++ Measure.bare.suffix = number := List.append_nil number
    rw [hother ['m', 's'] (by decide) (by decide), hother ['s'] (by decide) (by decide),
      hother ['m'] (by decide) (by decide), hwhole]
    dsimp only
    rw [hnumber]
    rfl

theorem readTrimmed?_eq_some_iff :
    readTrimmed? s = some d ↔ ∃ u n, Spells u n s ∧ d = n * u.millisEach := by
  constructor
  · exact spells_of_readTrimmed?
  · rintro ⟨u, n, h, rfl⟩
    exact readTrimmed?_of_spells h

theorem Spells.parts_exact (h : Spells u n s) :
    (u.parts (UInt64.ofNat n)).1.toNat * 1000 + (u.parts (UInt64.ofNat n)).2.toNat =
      n * u.millisEach := by
  have hn : (UInt64.ofNat n).toNat = n := UInt64.toNat_ofNat_of_lt' h.fits
  cases u with
  | bare | seconds =>
    rw [Measure.parts, hn]
    exact Nat.add_zero (n * 1000)
  | millis =>
    have hthousand : (1000 : UInt64).toNat = 1000 := by decide
    have hseconds : (UInt64.ofNat n / 1000).toNat = n / 1000 := by
      rw [UInt64.toNat_div, hn, hthousand]
    have hover : (UInt64.ofNat n % 1000).toNat = n % 1000 := by
      rw [UInt64.toNat_mod, hn, hthousand]
    rw [Measure.parts, hseconds, hover, Nat.div_add_mod']
    exact (Nat.mul_one n).symm
  | minutes =>
    have hsixty : (60 : UInt64).toNat = 60 := by decide
    have hseconds : (UInt64.ofNat n * 60).toNat = n * 60 := by
      rw [UInt64.toNat_mul, hn, hsixty]
      exact Nat.mod_eq_of_lt (h.secondsFit rfl)
    rw [Measure.parts, hseconds]
    exact (Nat.add_zero (n * 60 * 1000)).trans (Nat.mul_assoc n 60 1000)

/-- A text is read as a duration exactly if, without the blanks around it, it is a number of 64 bits with
nothing, `s`, `ms` or `m` behind it, and a number of minutes has 64 bits in seconds. It is spelled so in
one way only, is read as just so many milliseconds, and its seconds do not wrap around. -/
theorem durations_are_exact_or_refused (raw : String) :
    let text := Text.trim raw.toList
    (∀ d, readMillis? raw = some d ↔ ∃ u n, Spells u n text ∧ d = n * u.millisEach) ∧
    (readMillis? raw = none ↔ ∀ u n, ¬Spells u n text) ∧
    (∀ u n v m, Spells u n text → Spells v m text → u = v ∧ n = m) ∧
    ∀ u n, Spells u n text →
      (u.parts (UInt64.ofNat n)).1.toNat * 1000 + (u.parts (UInt64.ofNat n)).2.toNat =
        n * u.millisEach := by
  intro text
  have hread : ∀ d, readMillis? raw = some d ↔ ∃ u n, Spells u n text ∧ d = n * u.millisEach :=
    fun d => readTrimmed?_eq_some_iff
  refine ⟨hread, ?_, fun u n v m hu hv => hu.unique hv, fun u n h => h.parts_exact⟩
  rw [Option.eq_none_iff_forall_ne_some]
  constructor
  · intro hnone u n h
    exact hnone _ ((hread _).mpr ⟨u, n, h, rfl⟩)
  · intro hno d hd
    obtain ⟨u, n, h, -⟩ := (hread d).mp hd
    exact hno u n h

example : readMillis? " +307445734561825860m " = some (307445734561825860 * 60000) := by
  decide +kernel

example : readMillis? "307445734561825861m" = none := by decide +kernel

end Duration

end TokenAudit
