import TokenAudit.Proofs.Source.Submission

/-! An answer may have the same text under one of several keys. The first of them that has a text is
read, even where that text is empty: what a later key offers then stays hidden. -/

namespace TokenAudit.Decompiler

variable {σ : Type}

def outputKeys : List String := ["source", "decompiled"]

def jobKeys : List String := ["jobId", "md5", "job_id"]

def textUnder? (body : Json) (key : String) : Option String := (body.get? key).bind Json.asString?

/-- Under one of the keys there is a text that is not empty. -/
def Offers (body : Json) (keys : List String) : Prop :=
  ∃ key ∈ keys, ∃ text, textUnder? body key = some text ∧ text ≠ ""

/-- The first of the keys that has a text has an empty one, and those after it offer another. -/
def Hidden (body : Json) (keys : List String) : Prop :=
  ∃ before key after, keys = before ++ key :: after ∧ textUnder? body key = some "" ∧
    (∀ earlier ∈ before, textUnder? body earlier = none) ∧ Offers body after

variable {body : Json} {keys : List String}

theorem firstText?_eq_some_iff {text : String} :
    Response.firstText? body keys = some text ↔ ∃ before key after, keys = before ++ key :: after ∧
      textUnder? body key = some text ∧ ∀ earlier ∈ before, textUnder? body earlier = none :=
  List.findSome?_eq_some_iff

theorem firstText?_of_offers (h : Offers body keys) :
    ∃ text, Response.firstText? body keys = some text ∧
      (∃ key ∈ keys, textUnder? body key = some text) ∧ (text ≠ "" ↔ ¬Hidden body keys) := by
  obtain ⟨offering, hmem, offer, hoffer, hne⟩ := h
  cases hfirst : Response.firstText? body keys with
  | none =>
    have hnone : textUnder? body offering = none := List.findSome?_eq_none_iff.mp hfirst offering hmem
    rw [hoffer] at hnone
    cases hnone
  | some text =>
    obtain ⟨before, key, after, rfl, hkey, hbefore⟩ := firstText?_eq_some_iff.mp hfirst
    refine ⟨text, rfl, ⟨key, by simp, hkey⟩, not_congr ⟨?_, ?_⟩⟩
    · rintro rfl
      have hafter : offering ∈ after := by
        rcases List.mem_append.mp hmem with hearly | hlate
        · have hnone := hbefore offering hearly
          rw [hoffer] at hnone
          cases hnone
        · rcases List.mem_cons.mp hlate with rfl | hlater
          · have hsame := hoffer.symm.trans hkey
            exact absurd (Option.some.inj hsame) hne
          · exact hlater
      exact ⟨before, key, after, rfl, hkey, hbefore, offering, hafter, offer, hoffer, hne⟩
    · rintro ⟨before, key, after, hkeys, hkey, hbefore, -⟩
      have hempty : Response.firstText? body _ = some "" :=
        firstText?_eq_some_iff.mpr ⟨before, key, after, hkeys, hkey, hbefore⟩
      exact Option.some.inj (hfirst.symm.trans hempty)

variable {r : Response}

theorem output_of_firstText? {text : String} (h : Response.firstText? r.body outputKeys = some text) :
    r.output = text.toList := by
  have hread : Response.firstText? r.body ["source", "decompiled"] = some text := h
  rw [Response.output, hread]

theorem output_of_offers (h : Offers r.body outputKeys) :
    (∃ key ∈ outputKeys, textUnder? r.body key = some (String.ofList r.output)) ∧
      (r.output ≠ [] ↔ ¬Hidden r.body outputKeys) := by
  obtain ⟨text, hfirst, hkey, htext⟩ := firstText?_of_offers h
  rw [output_of_firstText? hfirst, String.ofList_toList, ← htext, Ne, String.toList_eq_nil_iff]
  exact ⟨hkey, Iff.rfl⟩

theorem ready_of_output (hr : r.isSuccess = true) (h : r.output ≠ []) : Ready (.ok r) r.output :=
  ⟨r, rfl, hr, rfl, h⟩

theorem not_ready_of_empty (h : r.output = []) (output : List Char) : ¬Ready (.ok r) output := by
  rintro ⟨_, hsame, -, rfl, hne⟩
  cases hsame
  exact hne h

variable {t : Transport σ} {w : Window} {job : String} {b c : Budget} {world told : SourceWorld σ}

theorem fst_pollFrom_of_output (h : Attempt t w job b world c (.ok r) told) (limits : Limits)
    (left : Nat) (hr : r.isSuccess = true) (hne : r.output ≠ []) :
    (pollFrom t limits w job (left + 1) b world).1 =
      some (.ok (String.ofList (truncateText r.output limits.maxOutputChars))) := by
  rw [h.pollFrom_eq, onStatus, judge_of_ready (ready_of_output hr hne)]

theorem pollFrom_of_empty (h : Attempt t w job b world c (.ok r) told) (limits : Limits) (left : Nat)
    (hempty : r.output = []) :
    pollFrom t limits w job (left + 1) b world = pollFrom t limits w job left c told := by
  rw [h.pollFrom_eq, onStatus, judge_of_unready (not_ready_of_empty hempty)]
  rfl

/-- Where a text is offered under the keys of the output or of the job, one of them is read, and it is
not empty exactly if the offer is not hidden. A hidden output leaves the poll without one, and comes back
empty if it came at once; in place of a hidden job one without a name is polled for. -/
theorem offers_found_unless_hidden (t : Transport σ) (limits : Limits) (w : Window) (r : Response) :
    (Offers r.body outputKeys →
      (∃ key ∈ outputKeys, textUnder? r.body key = some (String.ofList r.output)) ∧
      (r.output ≠ [] ↔ ¬Hidden r.body outputKeys) ∧
      (r.isSuccess = true → ∀ job b world c told left, Attempt t w job b world c (.ok r) told →
        (¬Hidden r.body outputKeys → (pollFrom t limits w job (left + 1) b world).1 =
          some (.ok (String.ofList (truncateText r.output limits.maxOutputChars)))) ∧
        (Hidden r.body outputKeys →
          pollFrom t limits w job (left + 1) b world = pollFrom t limits w job left c told)) ∧
      (r.isSuccess = true → r.isPending = false → ∀ code payload world told,
        Bytecode.Payload code payload →
        (handedIn payload.toList world).ask w (t.submit payload) = (some (.ok r), told) →
        (submit t limits w code world).1 =
          some (.ok (String.ofList (truncateText r.output limits.maxOutputChars))))) ∧
    (Offers r.body jobKeys → ∃ job, r.job? = some job ∧
      (∃ key ∈ jobKeys, textUnder? r.body key = some job) ∧ (job ≠ "" ↔ ¬Hidden r.body jobKeys) ∧
      (r.isSuccess = true → r.isPending = true → ∀ code payload world told,
        Bytecode.Payload code payload →
        (handedIn payload.toList world).ask w (t.submit payload) = (some (.ok r), told) →
        (submit t limits w code world).1 =
          (poll t limits w job (note told (.jobPending job))).1)) := by
  refine ⟨fun hoffers => ?_, fun hoffers => ?_⟩
  · obtain ⟨hkey, hfound⟩ := output_of_offers hoffers
    refine ⟨hkey, hfound, fun hr job b world c told left hattempt => ⟨fun hseen => ?_, fun hhidden => ?_⟩,
      ?_⟩
    · exact fst_pollFrom_of_output hattempt limits left hr (hfound.mpr hseen)
    · have hempty : r.output = [] := by
        by_contra hne
        exact hfound.mp hne hhidden
      exact pollFrom_of_empty hattempt limits left hempty
    · intro hr hwhole code payload world told hp hask
      rw [submit_of_whole hp hask hr hwhole]
      rfl
  · obtain ⟨job, hj, hkey, hfound⟩ := firstText?_of_offers hoffers
    refine ⟨job, hj, hkey, hfound, fun hr hpending code payload world told hp hask => ?_⟩
    rw [submit_of_pending hp hask hr hpending hj, fst_onPolled]

def hollowJob : Response := ⟨202, "Accepted", .obj [("jobId", .str ""), ("md5", .str "j")]⟩

def hollowOutput : Response :=
  ⟨200, "OK", .obj [("decompiled", .str "contract D"), ("source", .str "")]⟩

def hollow : Transport Unit where
  submit _ := Ask.pure (.ok hollowJob)
  jobStatus _ := Ask.pure (.ok hollowOutput)

theorem hollow_answers_stay_hidden :
    (Offers hollowJob.body jobKeys ∧ hollowJob.job? = some "") ∧
    (Offers hollowOutput.body outputKeys ∧ hollowOutput.output = []) ∧
    (let ran := submit hollow ⟨700, 2, 100⟩ ⟨none, none⟩ "0x6080" (World.start 0 ())
    ran.1 = some (.error (.timeout "decompilation" 2)) ∧
      lookups ran.2 = [(700, ""), (1400, "")]) := by
  have hjob : Offers hollowJob.body jobKeys := ⟨"md5", by decide, "j", by decide, by decide⟩
  have houtput : Offers hollowOutput.body outputKeys :=
    ⟨"decompiled", by decide, "contract D", by decide, by decide⟩
  have hj : hollowJob.job? = some "" := by decide
  have hhidden : hollowOutput.output = [] := by decide
  refine ⟨⟨hjob, hj⟩, ⟨houtput, hhidden⟩, ?_⟩
  have hall : "6080".toList.all (fun c => c ∈ Bytecode.hexDigits) = true := by decide
  have hp : Bytecode.Payload "0x6080" "6080" :=
    ⟨by decide, fun c hc => of_decide_eq_true (List.all_eq_true.mp hall c hc), .inr (.inl (by decide))⟩
  have hran : submit hollow ⟨700, 2, 100⟩ ⟨none, none⟩ "0x6080" (World.start 0 ()) = _ :=
    submit_of_pending hp (World.ask_prompt _ none rfl) rfl rfl hj
  intro ran
  have hsame : ran = _ := hran
  rw [hsame]
  exact ⟨rfl, rfl⟩

end TokenAudit.Decompiler
