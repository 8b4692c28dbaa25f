import Mathlib.Data.List.Basic
import Mathlib.Data.List.Induction
import TokenAudit.Proofs.Risk.Scores

/-! Lists of named checks read as a mask. The last check of a bit decides it, whatever stands between, and
a name that is no bit's is an error that names the first such one. So the order of checks with different
names counts only for which unknown name is told of. -/

namespace TokenAudit

namespace RiskBit

variable {label : String} {b : RiskBit}

theorem ofLabel?_eq_some_iff : ofLabel? label = some b ↔ b.label = label := by
  constructor
  · intro h
    rw [ofLabel?] at h
    simpa using List.find?_some h
  · rintro rfl
    exact ofLabel?_label b

theorem ofLabel?_eq_none_iff : ofLabel? label = none ↔ ∀ b : RiskBit, b.label ≠ label := by
  rw [Option.eq_none_iff_forall_ne_some]
  exact forall_congr' fun b => not_congr ofLabel?_eq_some_iff

theorem label_inj {b c : RiskBit} : b.label = c.label ↔ b = c := by
  rw [← ofLabel?_eq_some_iff, ofLabel?_label, Option.some_inj, eq_comm]

end RiskBit

namespace RiskCheck

def Known (c : RiskCheck) : Prop := ∃ b : RiskBit, b.label = c.name

theorem known_iff (c : RiskCheck) : c.Known ↔ (RiskBit.ofLabel? c.name).isSome = true := by
  rw [Option.isSome_iff_exists]
  exact exists_congr fun b => RiskBit.ofLabel?_eq_some_iff.symm

instance : DecidablePred Known := fun c => decidable_of_iff _ c.known_iff.symm

end RiskCheck

namespace RiskMask

open RiskCheck (Known)

/-- The last check of a bit in a list. -/
def lastOf? (b : RiskBit) (cs : List RiskCheck) : Option RiskCheck :=
  (cs.filter fun c => c.name = b.label).getLast?

/-- The same checks in another order, in which those of one name keep theirs. -/
def Reordered (cs ds : List RiskCheck) : Prop :=
  ∀ name, cs.filter (fun c => c.name = name) = ds.filter fun c => c.name = name

variable {cs ds : List RiskCheck} {c : RiskCheck} {b : RiskBit} {m n : RiskMask} {name : String}

/-! ### One check after another -/

theorem setChecks_cons_of_label (h : b.label = c.name) (m : RiskMask) (cs : List RiskCheck) :
    setChecks m (c :: cs) = setChecks (m.set b c.triggered) cs := by
  rw [setChecks, RiskBit.ofLabel?_eq_some_iff.mpr h]

theorem setChecks_cons_of_unknown (h : ¬c.Known) (m : RiskMask) (cs : List RiskCheck) :
    setChecks m (c :: cs) = .error c.name := by
  rw [setChecks, RiskBit.ofLabel?_eq_none_iff.mpr fun b hb => h ⟨b, hb⟩]

theorem setChecks_append (m : RiskMask) (cs ds : List RiskCheck) :
    setChecks m (cs ++ ds) = (setChecks m cs).bind fun n => setChecks n ds := by
  induction cs generalizing m with
  | nil => rfl
  | cons c cs ih =>
    by_cases hc : c.Known
    · obtain ⟨b, hb⟩ := hc
      rw [List.cons_append, setChecks_cons_of_label hb, setChecks_cons_of_label hb, ih]
    · rw [List.cons_append, setChecks_cons_of_unknown hc, setChecks_cons_of_unknown hc]
      rfl

theorem setChecks_eq_error_iff : setChecks m cs = .error name ↔
    (cs.find? fun c => ¬c.Known).map RiskCheck.name = some name := by
  -- The mask so far does not matter.
  induction cs generalizing m with
  | nil => exact iff_of_false nofun nofun
  | cons c cs ih =>
    by_cases hc : c.Known
    · obtain ⟨b, hb⟩ := id hc
      rw [setChecks_cons_of_label hb, ih, List.find?_cons_of_neg (by simpa using hc)]
    · rw [setChecks_cons_of_unknown hc, List.find?_cons_of_pos (by simpa using hc), Except.error.injEq,
        Option.map_some, Option.some_inj]

theorem ofChecks_eq_error_iff : ofChecks cs = .error name ↔
    ∃ before c after, cs = before ++ c :: after ∧ (∀ d ∈ before, d.Known) ∧ ¬c.Known ∧ c.name = name := by
  rw [ofChecks, setChecks_eq_error_iff, Option.map_eq_some_iff]
  simp only [List.find?_eq_some_iff_append, decide_eq_true_eq, Bool.not_eq_true', decide_eq_false_iff_not,
    not_not]
  constructor
  · rintro ⟨c, ⟨hc, before, after, hcs, hbefore⟩, hname⟩
    exact ⟨before, c, after, hcs, hbefore, hc, hname⟩
  · rintro ⟨before, c, after, hcs, hbefore, hc, hname⟩
    exact ⟨c, ⟨hc, before, after, hcs, hbefore⟩, hname⟩

theorem lastOf?_snoc (b : RiskBit) (cs : List RiskCheck) (c : RiskCheck) :
    lastOf? b (cs ++ [c]) = if c.name = b.label then some c else lastOf? b cs := by
  rw [lastOf?, List.filter_append]
  by_cases h : c.name = b.label
  · simp [h]
  · simp [h, lastOf?]

theorem contains_of_ofChecks (h : ofChecks cs = .ok m) (b : RiskBit) :
    m.contains b = true ↔ ∃ c, lastOf? b cs = some c ∧ c.triggered = true := by
  -- From the end of the list: the check there is the last of its own bit, and leaves all others alone.
  induction cs using List.reverseRecOn generalizing m with
  | nil =>
    cases h
    exact iff_of_false (by simp) (by rintro ⟨c, ⟨⟩, -⟩)
  | append_singleton cs c ih =>
    rw [ofChecks, setChecks_append] at h
    cases hcs : setChecks clean cs with
    | error name =>
      rw [hcs] at h
      cases h
    | ok n =>
      rw [hcs] at h
      have hlast : setChecks n [c] = .ok m := h
      by_cases hc : c.Known
      · obtain ⟨d, hd⟩ := hc
        rw [setChecks_cons_of_label hd] at hlast
        obtain rfl : n.set d c.triggered = m := Except.ok.inj hlast
        rw [contains_set, lastOf?_snoc, ← hd]
        by_cases hdb : d = b
        · rw [if_pos hdb, if_pos (congrArg RiskBit.label hdb)]
          simp
        · rw [if_neg hdb, if_neg fun hlabel => hdb (RiskBit.label_inj.mp hlabel)]
          exact ih hcs
      · rw [setChecks_cons_of_unknown hc] at hlast
        cases hlast

/-! ### Lists of checks -/

theorem known_of_ok (h : ofChecks cs = .ok m) : ∀ c ∈ cs, c.Known := by
  by_contra hno
  have hfound : (cs.find? fun c => ¬c.Known).isSome = true := by simpa using hno
  obtain ⟨c, hc⟩ := Option.isSome_iff_exists.mp hfound
  have herror : ofChecks cs = .error c.name := setChecks_eq_error_iff.mpr (by rw [hc]; rfl)
  rw [herror] at h
  cases h

theorem exists_ofChecks_error_iff : (∃ name, ofChecks cs = .error name) ↔ ∃ c ∈ cs, ¬c.Known := by
  constructor
  · rintro ⟨name, h⟩
    obtain ⟨before, c, after, rfl, -, hc, -⟩ := ofChecks_eq_error_iff.mp h
    exact ⟨c, by simp, hc⟩
  · rintro ⟨c, hmem, hc⟩
    cases hcs : ofChecks cs with
    | error name => exact ⟨name, rfl⟩
    | ok m => exact absurd (known_of_ok hcs c hmem) hc

theorem exists_ofChecks_ok_iff : (∃ m, ofChecks cs = .ok m) ↔ ∀ c ∈ cs, c.Known := by
  constructor
  · rintro ⟨m, hm⟩
    exact known_of_ok hm
  · intro hknown
    cases hcs : ofChecks cs with
    | ok m => exact ⟨m, rfl⟩
    | error name =>
      obtain ⟨c, hmem, hc⟩ := exists_ofChecks_error_iff.mp ⟨name, hcs⟩
      exact absurd (hknown c hmem) hc

theorem ofChecks_eq_ok_iff : ofChecks cs = .ok m ↔ (∀ c ∈ cs, c.Known) ∧
    ∀ b, m.contains b = true ↔ ∃ c, lastOf? b cs = some c ∧ c.triggered = true := by
  constructor
  · intro h
    exact ⟨known_of_ok h, contains_of_ofChecks h⟩
  · rintro ⟨hknown, hbits⟩
    obtain ⟨n, hn⟩ := exists_ofChecks_ok_iff.mpr hknown
    have hsame : n = m := ext_contains fun b =>
      Bool.eq_iff_iff.mpr ((contains_of_ofChecks hn b).trans (hbits b).symm)
    rw [hn, hsame]

/-! ### Other orders -/

theorem Reordered.mem_iff (h : Reordered cs ds) (c : RiskCheck) : c ∈ cs ↔ c ∈ ds := by
  have hmem : ∀ es : List RiskCheck, c ∈ es ↔ c ∈ es.filter fun d => d.name = c.name := by simp
  rw [hmem cs, hmem ds, h c.name]

theorem Reordered.lastOf?_eq (h : Reordered cs ds) (b : RiskBit) : lastOf? b cs = lastOf? b ds := by
  rw [lastOf?, lastOf?, h b.label]

theorem Reordered.ok_iff (h : Reordered cs ds) (m : RiskMask) :
    ofChecks ds = .ok m ↔ ofChecks cs = .ok m := by
  simp only [ofChecks_eq_ok_iff, h.mem_iff, h.lastOf?_eq]

theorem Reordered.ofChecks_eq (h : Reordered cs ds)
    (hunknown : (cs.filter fun c => ¬c.Known) = ds.filter fun c => ¬c.Known) :
    ofChecks ds = ofChecks cs := by
  cases hcs : ofChecks cs with
  | ok m => exact (h.ok_iff m).mpr hcs
  | error name =>
    have hfirst := setChecks_eq_error_iff.mp hcs
    rw [← List.head?_filter, hunknown, List.head?_filter] at hfirst
    exact setChecks_eq_error_iff.mpr hfirst

theorem filter_checks (m : RiskMask) (b : RiskBit) :
    (m.checks.filter fun c => c.name = b.label) = [⟨b.label, m.contains b⟩] := by
  cases b <;> rfl

theorem ofChecks_of_perm {keep : RiskCheck → Bool}
    (h : ds.Perm (m.checks.filter fun c => c.triggered || keep c)) : ofChecks ds = .ok m := by
  refine ofChecks_eq_ok_iff.mpr ⟨fun c hc => ?_, fun b => ?_⟩
  · have hmem : c ∈ m.checks := (List.mem_filter.mp (h.mem_iff.mp hc)).1
    obtain ⟨b, -, rfl⟩ := List.mem_map.mp hmem
    exact ⟨b, rfl⟩
  · have hown := h.filter fun c => c.name = b.label
    rw [List.filter_comm, filter_checks] at hown
    cases hset : m.contains b with
    | true =>
      have honly : (ds.filter fun c => c.name = b.label) = [⟨b.label, true⟩] :=
        List.perm_singleton.mp (by simpa [hset] using hown)
      refine iff_of_true rfl ⟨⟨b.label, true⟩, ?_, rfl⟩
      rw [lastOf?, honly]
      rfl
    | false =>
      refine iff_of_false nofun ?_
      rintro ⟨c, hc, htriggered⟩
      have hmem := (List.mem_filter.mp (hown.mem_iff.mp (List.mem_of_getLast? hc))).1
      obtain rfl := List.mem_singleton.mp hmem
      rw [hset] at htriggered
      cases htriggered

/-- Checks are read as a mask exactly if all their names are known, and the error names the first that is
not. A bit of the mask is set exactly if there is a check of it and the last one is triggered. So another
order of checks with different names changes neither the mask nor whether there is one, and the error
only where unknown names change places; and the checks of a mask give it back in any order, whether
those that are not triggered are left out or not. -/
theorem last_checks_decide (cs : List RiskCheck) :
    (∀ name, ofChecks cs = .error name ↔ ∃ before c after, cs = before ++ c :: after ∧
      (∀ d ∈ before, d.Known) ∧ ¬c.Known ∧ c.name = name) ∧
    ((∃ name, ofChecks cs = .error name) ↔ ∃ c ∈ cs, ¬c.Known) ∧
    ((∃ m, ofChecks cs = .ok m) ↔ ∀ c ∈ cs, c.Known) ∧
    (∀ m, ofChecks cs = .ok m ↔ (∀ c ∈ cs, c.Known) ∧
      ∀ b, m.contains b = true ↔ ∃ c, lastOf? b cs = some c ∧ c.triggered = true) ∧
    (∀ ds, Reordered cs ds → (∀ m, ofChecks ds = .ok m ↔ ofChecks cs = .ok m) ∧
      ((cs.filter fun c => ¬c.Known) = (ds.filter fun c => ¬c.Known) → ofChecks ds = ofChecks cs)) ∧
    ∀ (m : RiskMask) (keep : RiskCheck → Bool) (ds : List RiskCheck),
      ds.Perm (m.checks.filter fun c => c.triggered || keep c) → ofChecks ds = .ok m :=
  ⟨fun _ => ofChecks_eq_error_iff, exists_ofChecks_error_iff, exists_ofChecks_ok_iff,
    fun _ => ofChecks_eq_ok_iff, fun _ h => ⟨h.ok_iff, h.ofChecks_eq⟩, fun _ _ _ => ofChecks_of_perm⟩

theorem order_of_unknown_names_counts :
    Reordered [⟨"Honeypot", true⟩, ⟨"Rug Pull", true⟩] [⟨"Rug Pull", true⟩, ⟨"Honeypot", true⟩] ∧
    ofChecks [⟨"Honeypot", true⟩, ⟨"Rug Pull", true⟩] = .error "Honeypot" ∧
    ofChecks [⟨"Rug Pull", true⟩, ⟨"Honeypot", true⟩] = .error "Rug Pull" := by
  refine ⟨fun name => ?_, by decide, by decide⟩
  by_cases hfirst : "Honeypot" = name
  · subst hfirst
    decide
  by_cases hsecond : "Rug Pull" = name
  · subst hsecond
    decide
  · simp [hfirst, hsecond]

end RiskMask

end TokenAudit
