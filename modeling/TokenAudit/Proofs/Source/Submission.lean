import TokenAudit.Proofs.Source.Polling
import TokenAudit.Proofs.Source.Requests

/-! A submission of bytecode: what is sent for which code, what each answer of the service comes to,
and which output the text that is returned was cut from. -/

namespace TokenAudit

namespace Bytecode

def hexDigits : List Char := "0123456789abcdefABCDEF".toList

/-- The digits that are sent for a code: its text without the blanks around it and without one head. -/
structure Payload (bytecode payload : String) : Prop where
  long : 2 < payload.toList.length
  hex : ∀ c ∈ payload.toList, c ∈ hexDigits
  stripped : Text.trim bytecode.toList = payload.toList ∨
    Text.trim bytecode.toList = '0' :: 'x' :: payload.toList ∨
    Text.trim bytecode.toList = '0' :: 'X' :: payload.toList

theorem toNat_lt_of_mem_hexDigits {c : Char} (h : c ∈ hexDigits) : c.toNat < 128 := by
  have hall : hexDigits.all (fun d => d.toNat < 128) = true := by decide
  exact of_decide_eq_true (List.all_eq_true.mp hall c h)

theorem isHexDigit_iff (c : Char) : isHexDigit c = true ↔ c ∈ hexDigits := by
  by_cases hascii : c.toNat < 128
  · have hall : ∀ n < 128, isHexDigit (Char.ofNat n) = true ↔ Char.ofNat n ∈ hexDigits := by decide +kernel
    have hc := hall c.toNat hascii
    rwa [Char.ofNat_toNat] at hc
  · refine iff_of_false (fun hdigit => hascii ?_) fun hmem => hascii (toNat_lt_of_mem_hexDigits hmem)
    have hle : ∀ d : Char, c ≤ d → c.toNat ≤ d.toNat := fun d h => h
    simp only [isHexDigit, Numeral.digitBelow?, Numeral.digitValue?] at hdigit
    split at hdigit
    · rename_i h
      exact Nat.lt_of_le_of_lt (hle '9' h.2) (by decide)
    split at hdigit
    · rename_i h
      exact Nat.lt_of_le_of_lt (hle 'z' h.2) (by decide)
    split at hdigit
    · rename_i h
      exact Nat.lt_of_le_of_lt (hle 'Z' h.2) (by decide)
    · cases hdigit

theorem length_bytes_of_hex {s : List Char} (h : ∀ c ∈ s, c ∈ hexDigits) :
    (Text.bytes s).length = s.length := by
  have hall : hexDigits.all (fun c => (String.utf8EncodeChar c).length = 1) = true := by decide
  induction s with
  | nil => rfl
  | cons c s ih =>
    obtain ⟨hc, hs⟩ := List.forall_mem_cons.mp h
    have hrest := ih hs
    rw [Text.bytes] at hrest ⊢
    have hone : (String.utf8EncodeChar c).length = 1 :=
      of_decide_eq_true (List.all_eq_true.mp hall c hc)
    rw [List.flatMap_cons, List.length_append, hone, hrest, List.length_cons, Nat.add_comm]

theorem stripHexHead_cases (s : List Char) :
    s = '0' :: 'x' :: stripHexHead s ∨ s = '0' :: 'X' :: stripHexHead s ∨ stripHexHead s = s := by
  unfold stripHexHead
  split
  · rename_i r hr
    exact .inl (Text.eq_append_of_after? hr)
  · rcases hr : Text.after? ['0', 'X'] s with _ | r
    · exact .inr (.inr rfl)
    · exact .inr (.inl (Text.eq_append_of_after? hr))

theorem stripHexHead_of_hex {s : List Char} (h : ∀ c ∈ s, c ∈ hexDigits) : stripHexHead s = s := by
  have hx : 'x' ∉ hexDigits ∧ 'X' ∉ hexDigits := by decide
  rcases stripHexHead_cases s with hs | hs | hs
  · have hmem : 'x' ∈ s := by
      rw [hs]
      simp
    exact absurd (h _ hmem) hx.1
  · have hmem : 'X' ∈ s := by
      rw [hs]
      simp
    exact absurd (h _ hmem) hx.2
  · exact hs

theorem submission_eq_ok_iff {bytecode : String} {ds : List Char} :
    submission bytecode = .ok ds ↔
      ds = digits bytecode ∧ 2 < (Text.bytes ds).length ∧ ∀ c ∈ ds, c ∈ hexDigits := by
  have hhex : (digits bytecode).all isHexDigit = true ↔ ∀ c ∈ digits bytecode, c ∈ hexDigits := by
    simp only [List.all_eq_true, isHexDigit_iff]
  unfold submission
  by_cases ht : isTrivial bytecode = true
  · have hshort : (Text.bytes (digits bytecode)).length ≤ 2 := of_decide_eq_true ht
    rw [if_pos ht]
    refine iff_of_false nofun ?_
    rintro ⟨rfl, hlong, -⟩
    exact absurd hlong (Nat.not_lt_of_le hshort)
  · have hlong : 2 < (Text.bytes (digits bytecode)).length := by
      simpa [isTrivial] using ht
    rw [if_neg ht]
    by_cases hall : (digits bytecode).all isHexDigit = true
    · rw [if_pos hall]
      constructor
      · rintro ⟨⟩
        exact ⟨rfl, hlong, hhex.mp hall⟩
      · rintro ⟨rfl, -⟩
        rfl
    · rw [if_neg hall]
      refine iff_of_false nofun ?_
      rintro ⟨rfl, -, hds⟩
      exact hall (hhex.mpr hds)

theorem submission_eq_error {bytecode : String} {e : AuditError} (h : submission bytecode = .error e) :
    ∃ reason, e = .input reason := by
  unfold submission at h
  split at h
  · cases h
    exact ⟨_, rfl⟩
  · split at h
    · cases h
    · cases h
      exact ⟨_, rfl⟩

theorem payload_iff {bytecode payload : String} :
    Payload bytecode payload ↔ submission bytecode = .ok payload.toList := by
  rw [submission_eq_ok_iff]
  constructor
  · rintro ⟨hlong, hhex, hstripped⟩
    have hdigits : payload.toList = digits bytecode := by
      rw [digits]
      rcases hstripped with h | h | h
      · rw [h, stripHexHead_of_hex hhex]
      · rw [h]
        rfl
      · rw [h]
        rfl
    exact ⟨hdigits, (length_bytes_of_hex hhex).symm ▸ hlong, hhex⟩
  · rintro ⟨hdigits, hlong, hhex⟩
    refine ⟨length_bytes_of_hex hhex ▸ hlong, hhex, ?_⟩
    have hcases := stripHexHead_cases (Text.trim bytecode.toList)
    rw [hdigits]
    rcases hcases with h | h | h
    · exact .inr (.inl h)
    · exact .inr (.inr h)
    · exact .inl h.symm

end Bytecode

namespace Decompiler

variable {σ α : Type}

/-! ### What is logged -/

def cut? : SourceAct → Option (Nat × Nat)
  | .noted (.truncated length bound) => some (length, bound)
  | _ => none

def cuts (world : SourceWorld σ) : List (Nat × Nat) := world.acts.filterMap cut?

def cutOf (limits : Limits) (output : List Char) : List (Nat × Nat) :=
  if limits.maxOutputChars < output.length then [(output.length, limits.maxOutputChars)] else []

theorem cuts_record (world : SourceWorld σ) {act : SourceAct} (h : cut? act = none) :
    cuts (world.record act) = cuts world := by
  simp [cuts, h]

theorem cuts_note (world : SourceWorld σ) {n : SourceNote} (h : cut? (.noted n) = none) :
    cuts (note world n) = cuts world := cuts_record world h

theorem cuts_afterCut (limits : Limits) (output : List Char) (world : SourceWorld σ) :
    cuts (afterCut limits output world) = cuts world ++ cutOf limits output := by
  unfold afterCut cutOf
  split
  · simp [cuts, note, cut?]
  · exact (List.append_nil _).symm

theorem cuts_of_ask {world after : SourceWorld σ} {w : Window} {request : Ask σ α}
    {answer : Option α} (h : world.ask w request = (answer, after)) : cuts after = cuts world := by
  have hafter : (world.ask w request).2 = after := congrArg Prod.snd h
  rw [← hafter, cuts, cuts, World.acts, World.acts, World.trace_ask]

theorem cuts_of_rest {world after : SourceWorld σ} {w : Window} {duration : Nat}
    {woken : Option Woken} (h : world.rest w duration = (woken, after)) :
    cuts after = cuts world := by
  have hafter : (world.rest w duration).2 = after := congrArg Prod.snd h
  rw [← hafter, cuts, cuts, World.acts, World.acts, World.trace_rest]

theorem cuts_failures (answer : Except AuditError Response) (world : SourceWorld σ) :
    cuts ((failures answer).foldl note world) = cuts world := by
  rcases answer with e | r
  · exact cuts_note world rfl
  · rfl

/-! ### The answer that a poll ends with -/

inductive Hears (t : Transport σ) (w : Window) (job : String) :
    Budget → SourceWorld σ → Budget → Except AuditError Response → SourceWorld σ → Prop
  | first {b c : Budget} {world told : SourceWorld σ} {answer : Except AuditError Response}
    (h : Attempt t w job b world c answer told) : Hears t w job b world c answer told
  | later {b c d : Budget} {world between told : SourceWorld σ}
    {earlier answer : Except AuditError Response}
    (h : Attempt t w job b world c earlier between) (hno : ∀ output, ¬Ready earlier output)
    (hrest : Hears t w job c ((failures earlier).foldl note between) d answer told) :
    Hears t w job b world d answer told

variable {t : Transport σ} {w : Window} {job : String} {limits : Limits}

theorem Attempt.cuts_eq {b c : Budget} {world after : SourceWorld σ}
    {answer : Except AuditError Response} (h : Attempt t w job b world c answer after) :
    cuts after = cuts world := by
  obtain ⟨rested, hrest, hask⟩ := h.asks
  rw [cuts_of_ask hask, cuts_record _ rfl, cuts_of_rest hrest, cuts_note _ rfl]

theorem Hears.cuts_eq {b c : Budget} {world told : SourceWorld σ}
    {answer : Except AuditError Response} (h : Hears t w job b world c answer told) :
    cuts told = cuts world := by
  induction h with
  | first h => exact h.cuts_eq
  | later h _ _ ih => rw [ih, cuts_failures, h.cuts_eq]

theorem Hears.pollFrom_eq {b c : Budget} {world told : SourceWorld σ}
    {answer : Except AuditError Response} {output : List Char}
    (h : Hears t w job b world c answer told) (hr : Ready answer output) :
    pollFrom t limits w job b.remaining b world =
      (some (.ok (String.ofList (truncateText output limits.maxOutputChars))),
        afterCut limits output (note told (.pollReady c.attempts))) := by
  induction h with
  | first h =>
    rw [Budget.remaining_of_begin? h.begins, h.pollFrom_eq, onStatus, judge_of_ready hr]
  | later h hno _ ih =>
    rw [Budget.remaining_of_begin? h.begins, h.pollFrom_eq, onStatus, judge_of_unready hno]
    exact ih hr

theorem none_ne_text (text : String) : (none : Option (Except AuditError String)) ≠ some (.ok text) :=
  (Option.some_ne_none _).symm

theorem error_ne_text (e : AuditError) (text : String) : some (Except.error e) ≠ some (.ok text) := by
  intro h
  injection h with h
  cases h

theorem hears_or_not (t : Transport σ) (limits : Limits) (w : Window) (job : String) (left : Nat)
    (b : Budget) (world : SourceWorld σ) :
    (∃ c answer told output, Hears t w job b world c answer told ∧ Ready answer output) ∨
    (∀ text, (pollFrom t limits w job left b world).1 ≠ some (.ok text)) ∧
      cuts (pollFrom t limits w job left b world).2 = cuts world := by
  induction left generalizing b world with
  | zero => exact .inr ⟨error_ne_text _, cuts_note world rfl⟩
  | succ left ih =>
    cases hb : b.begin? with
    | none =>
      simp only [pollFrom, hb]
      exact .inr ⟨error_ne_text _, cuts_note world rfl⟩
    | some c =>
      rcases World.rest_cases (note world (.pollAttempt c.attempts c.maxAttempts)) w
        c.intervalMs.toNat with ⟨rested, hrest⟩ | ⟨rested, hrest⟩ | ⟨rested, hrest⟩
      · have hrested : cuts rested = cuts world := (cuts_of_rest hrest).trans (cuts_note world rfl)
        rcases hask : (rested.record (.statusAsked job)).ask w (t.jobStatus job) with
          ⟨_ | answer, told⟩
        · have htold : cuts told = cuts world :=
            (cuts_of_ask hask).trans ((cuts_record rested rfl).trans hrested)
          have hdropped : pollFrom t limits w job (left + 1) b world = (none, told) := by
            simp only [pollFrom_succ t limits w job left hb, hrest, World.andThen, reduceCtorEq,
              if_false, hask]
          rw [hdropped]
          exact .inr ⟨none_ne_text, htold⟩
        · have hattempt : Attempt t w job b world c answer told := ⟨hb, rested, hrest, hask⟩
          by_cases hready : ∃ output, Ready answer output
          · obtain ⟨output, hr⟩ := hready
            exact .inl ⟨c, answer, told, output, .first hattempt, hr⟩
          · have hno : ∀ output, ¬Ready answer output := not_exists.mp hready
            rw [hattempt.pollFrom_eq, onStatus, judge_of_unready hno]
            dsimp only
            rcases ih c ((failures answer).foldl note told) with
              ⟨d, last, heard, output, hhears, hr⟩ | ⟨hnone, hcuts⟩
            · exact .inl ⟨d, last, heard, output, .later hattempt hno hhears, hr⟩
            · exact .inr ⟨hnone, hcuts.trans ((cuts_failures answer told).trans hattempt.cuts_eq)⟩
      · have hrested : cuts rested = cuts world := (cuts_of_rest hrest).trans (cuts_note world rfl)
        rw [pollFrom_succ t limits w job left hb, hrest]
        exact .inr ⟨error_ne_text _, hrested⟩
      · have hrested : cuts rested = cuts world := (cuts_of_rest hrest).trans (cuts_note world rfl)
        rw [pollFrom_succ t limits w job left hb, hrest]
        exact .inr ⟨none_ne_text, hrested⟩

/-! ### A submission -/

theorem submit_of_payload {code payload : String} (h : Bytecode.Payload code payload)
    (t : Transport σ) (limits : Limits) (w : Window) (world : SourceWorld σ) :
    submit t limits w code world =
      World.andThen ((handedIn payload.toList world).ask w (t.submit payload))
        (onSubmitted t limits w) := by
  have hsubmit := submit_of_ok (Bytecode.payload_iff.mp h) t limits w world
  rwa [String.ofList_toList] at hsubmit

theorem submit_of_answer {code payload : String} {answer : Except AuditError Response}
    {world told : SourceWorld σ} (h : Bytecode.Payload code payload)
    (hask : (handedIn payload.toList world).ask w (t.submit payload) = (some answer, told)) :
    submit t limits w code world = onSubmitted t limits w answer told := by
  rw [submit_of_payload h, hask]
  rfl

theorem submit_of_whole {code payload : String} {r : Response} {world told : SourceWorld σ}
    (h : Bytecode.Payload code payload)
    (hask : (handedIn payload.toList world).ask w (t.submit payload) = (some (.ok r), told))
    (hr : r.isSuccess = true) (hwhole : r.isPending = false) :
    submit t limits w code world =
      completed (String.ofList (truncateText r.output limits.maxOutputChars))
        (afterCut limits r.output told) := by
  rw [submit_of_answer h hask, onSubmitted, if_pos hr, follow_of_whole hwhole]

theorem submit_of_pending {code payload job : String} {r : Response} {world told : SourceWorld σ}
    (h : Bytecode.Payload code payload)
    (hask : (handedIn payload.toList world).ask w (t.submit payload) = (some (.ok r), told))
    (hr : r.isSuccess = true) (hpending : r.isPending = true) (hj : r.job? = some job) :
    submit t limits w code world =
      World.andThen (poll t limits w job (note told (.jobPending job))) onPolled := by
  rw [submit_of_answer h hask, onSubmitted, if_pos hr, follow_of_job hpending hj]

theorem fst_onPolled (ran : Ran σ (Except AuditError String)) :
    (World.andThen ran onPolled).1 = ran.1 := by
  rcases ran with ⟨_ | e | text, polled⟩ <;> rfl

theorem snd_onPolled {ran : Ran σ (Except AuditError String)}
    (h : ∀ text, ran.1 ≠ some (.ok text)) : (World.andThen ran onPolled).2 = ran.2 := by
  rcases ran with ⟨_ | e | text, polled⟩
  · rfl
  · rfl
  · exact absurd rfl (h text)

theorem followed_or_not (t : Transport σ) (limits : Limits) (w : Window) (job : String)
    (world : SourceWorld σ) :
    (∃ c answer told output,
      Hears t w job (Budget.fresh limits.maxPollAttempts limits.pollIntervalMs) world c answer told ∧
        Ready answer output) ∨
    (∀ text, (World.andThen (poll t limits w job world) onPolled).1 ≠ some (.ok text)) ∧
      cuts (World.andThen (poll t limits w job world) onPolled).2 = cuts world := by
  rcases hears_or_not t limits w job
    (Budget.fresh limits.maxPollAttempts limits.pollIntervalMs).remaining
    (Budget.fresh limits.maxPollAttempts limits.pollIntervalMs) world with hhears | ⟨hno, hcuts⟩
  · exact .inl hhears
  · have hnone : ∀ text, (poll t limits w job world).1 ≠ some (.ok text) := hno
    refine .inr ⟨?_, ?_⟩
    · rw [fst_onPolled]
      exact hnone
    · rw [snd_onPolled hnone]
      exact hcuts

/-- The output that a text was cut from: of the answer to the submission, or of the answer that ended
the polling for the job that the answer named. -/
inductive Extracts (t : Transport σ) (limits : Limits) (w : Window) (code : String)
    (world : SourceWorld σ) : List Char → Prop
  | atOnce (payload : String) (r : Response) (told : SourceWorld σ)
    (hp : Bytecode.Payload code payload)
    (hask : (handedIn payload.toList world).ask w (t.submit payload) = (some (.ok r), told))
    (hr : r.isSuccess = true) (hwhole : r.isPending = false) : Extracts t limits w code world r.output
  | polled (payload job : String) (r : Response) (told heard : SourceWorld σ) (c : Budget)
    (answer : Except AuditError Response) (output : List Char) (hp : Bytecode.Payload code payload)
    (hask : (handedIn payload.toList world).ask w (t.submit payload) = (some (.ok r), told))
    (hr : r.isSuccess = true) (hpending : r.isPending = true) (hj : r.job? = some job)
    (hh : Hears t w job (Budget.fresh limits.maxPollAttempts limits.pollIntervalMs)
      (note told (.jobPending job)) c answer heard)
    (hready : Ready answer output) : Extracts t limits w code world output

theorem cuts_handedIn (digits : List Char) (world : SourceWorld σ) :
    cuts (handedIn digits world) = cuts world :=
  (cuts_record _ rfl).trans (cuts_note world rfl)

variable {code : String} {world : SourceWorld σ}

theorem submit_of_extracts {output : List Char} (h : Extracts t limits w code world output) :
    ∃ after, submit t limits w code world =
        (some (.ok (String.ofList (truncateText output limits.maxOutputChars))), after) ∧
      cuts after = cuts world ++ cutOf limits output := by
  cases h with
  | atOnce payload r told hp hask hr hwhole =>
    have htold : cuts told = cuts world := (cuts_of_ask hask).trans (cuts_handedIn _ world)
    refine ⟨_, submit_of_whole hp hask hr hwhole, ?_⟩
    rw [cuts_note _ rfl, cuts_afterCut, htold]
  | polled payload job r told heard c answer _ hp hask hr hpending hj hh hready =>
    have htold : cuts told = cuts world := (cuts_of_ask hask).trans (cuts_handedIn _ world)
    have hpoll : poll t limits w job (note told (.jobPending job)) =
        (some (.ok (String.ofList (truncateText output limits.maxOutputChars))),
          afterCut limits output (note heard (.pollReady c.attempts))) := hh.pollFrom_eq hready
    have hran : submit t limits w code world =
        completed (String.ofList (truncateText output limits.maxOutputChars))
          (afterCut limits output (note heard (.pollReady c.attempts))) := by
      rw [submit_of_pending hp hask hr hpending hj, hpoll]
      rfl
    refine ⟨_, hran, ?_⟩
    rw [cuts_note _ rfl, cuts_afterCut, cuts_note _ rfl, hh.cuts_eq, cuts_note _ rfl, htold]

theorem extracts_or_not (t : Transport σ) (limits : Limits) (w : Window) (code : String)
    (world : SourceWorld σ) :
    (∃ output, Extracts t limits w code world output) ∨
    (∀ text, (submit t limits w code world).1 ≠ some (.ok text)) ∧
      cuts (submit t limits w code world).2 = cuts world := by
  cases hs : Bytecode.submission code with
  | error e =>
    rw [submit_of_error hs]
    exact .inr ⟨error_ne_text _, rfl⟩
  | ok digits =>
    have hp : Bytecode.Payload code (String.ofList digits) := by
      rw [Bytecode.payload_iff, String.toList_ofList, hs]
    rw [submit_of_payload hp]
    rcases hask : (handedIn (String.ofList digits).toList world).ask w
      (t.submit (String.ofList digits)) with ⟨_ | e | r, told⟩
    all_goals have htold : cuts told = cuts world := (cuts_of_ask hask).trans (cuts_handedIn _ world)
    · exact .inr ⟨none_ne_text, htold⟩
    · exact .inr ⟨error_ne_text _, (cuts_note told rfl).trans htold⟩
    · simp only [World.andThen, onSubmitted]
      by_cases hr : r.isSuccess = true
      · rw [if_pos hr]
        cases hpending : r.isPending with
        | false => exact .inl ⟨_, .atOnce _ r told hp hask hr hpending⟩
        | true =>
          cases hj : r.job? with
          | none =>
            simp only [follow, hpending, hj, if_true]
            exact .inr ⟨error_ne_text _, htold⟩
          | some job =>
            rw [follow_of_job hpending hj]
            rcases followed_or_not t limits w job (note told (.jobPending job)) with
              ⟨c, answer, heard, output, hh, hready⟩ | ⟨hno, hcuts⟩
            · exact .inl ⟨output, .polled _ job r told heard c answer output hp hask hr hpending hj hh
                hready⟩
            · exact .inr ⟨hno, hcuts.trans ((cuts_note told rfl).trans htold)⟩
      · rw [if_neg hr]
        exact .inr ⟨error_ne_text _, (cuts_note told rfl).trans htold⟩

theorem requests_submit (t : Transport σ) (limits : Limits) (w : Window) (code : String)
    (world : SourceWorld σ) :
    (∃ e, Bytecode.submission code = .error e ∧
      requests (submit t limits w code world).2 = requests world) ∨
    ∃ payload job n, Bytecode.Payload code payload ∧
      requests (submit t limits w code world).2 =
        requests world ++ .submitted payload :: List.replicate n (.statusAsked job) := by
  obtain ⟨more, hmore, hasks⟩ := asks_decompile (.service t limits) w code world
  cases hasks with
  | refused _ _ _ e he => exact .inl ⟨e, he, hmore.trans (List.append_nil _)⟩
  | submitted _ _ _ digits hs job n =>
    have hp : Bytecode.Payload code (String.ofList digits) := by
      rw [Bytecode.payload_iff, String.toList_ofList, hs]
    exact .inr ⟨_, job, n, hp, hmore⟩

theorem refused_iff (t : Transport σ) (limits : Limits) (w : Window) (code : String)
    (world : SourceWorld σ) :
    (requests (submit t limits w code world).2 = requests world ∧
      ∃ reason, (submit t limits w code world).1 = some (.error (.input reason))) ↔
    (Text.bytes (Bytecode.digits code)).length ≤ 2 ∨
      ∃ c ∈ Bytecode.digits code, c ∉ Bytecode.hexDigits := by
  have hrefused : ((Text.bytes (Bytecode.digits code)).length ≤ 2 ∨
      ∃ c ∈ Bytecode.digits code, c ∉ Bytecode.hexDigits) ↔
      Bytecode.submission code ≠ .ok (Bytecode.digits code) := by
    rw [Ne, Bytecode.submission_eq_ok_iff]
    simp only [true_and, not_and_or, Nat.not_lt, not_forall, exists_prop]
  rw [hrefused]
  constructor
  · rintro ⟨hnone, -⟩ hok
    rcases requests_submit t limits w code world with ⟨e, he, -⟩ | ⟨payload, job, n, -, hsent⟩
    · rw [hok] at he
      cases he
    · rw [hnone] at hsent
      have hlength := congrArg List.length hsent
      simp at hlength
  · intro hno
    cases hs : Bytecode.submission code with
    | error e =>
      obtain ⟨reason, rfl⟩ := Bytecode.submission_eq_error hs
      rw [submit_of_error hs]
      exact ⟨rfl, reason, rfl⟩
    | ok digits =>
      obtain ⟨rfl, -⟩ := Bytecode.submission_eq_ok_iff.mp hs
      exact absurd hs hno

/-- Whatever the code and whatever the service answers: at most one payload is sent, which is the digits
of the code and nothing else, and for a code without one nothing is sent. Failures come back as they
are, refusals with their status; a pending job is polled for. A text that is returned is the beginning
of the output that it was extracted from, as long as it may be, and a cut is told of exactly there. -/
theorem submission_is_clean (t : Transport σ) (limits : Limits) (w : Window) (code : String)
    (world : SourceWorld σ) :
    let ran := submit t limits w code world
    (requests ran.2 = requests world ∨ ∃ payload job n, Bytecode.Payload code payload ∧
      requests ran.2 =
        requests world ++ .submitted payload :: List.replicate n (.statusAsked job)) ∧
    ((requests ran.2 = requests world ∧ ∃ reason, ran.1 = some (.error (.input reason))) ↔
      (Text.bytes (Bytecode.digits code)).length ≤ 2 ∨
        ∃ c ∈ Bytecode.digits code, c ∉ Bytecode.hexDigits) ∧
    (∀ payload answer told, Bytecode.Payload code payload →
      (handedIn payload.toList world).ask w (t.submit payload) = (some answer, told) →
      (∀ e, answer = .error e → ran.1 = some (.error e)) ∧
      ∀ r, answer = .ok r →
        (r.isSuccess = false → ran.1 = some (.error (.upstream "decompiler" r.status
          s!"API returned {r.status.toNat}: {r.reason}"))) ∧
        (r.isSuccess = true → r.isPending = true →
          (r.job? = none → ran.1 = some (.error (.upstream "decompiler" r.status
            "pending response without job id"))) ∧
          ∀ job, r.job? = some job →
            ran.1 = (poll t limits w job (note told (.jobPending job))).1) ∧
        (r.isSuccess = true → r.isPending = false →
          ran.1 = some (.ok (String.ofList (truncateText r.output limits.maxOutputChars))))) ∧
    (∀ text, ran.1 = some (.ok text) ↔ ∃ output, Extracts t limits w code world output ∧
      text.toList = output.take (min output.length limits.maxOutputChars)) ∧
    (∀ output, Extracts t limits w code world output →
      cuts ran.2 = cuts world ++ cutOf limits output) ∧
    ((∀ text, ran.1 ≠ some (.ok text)) → cuts ran.2 = cuts world) := by
  intro ran
  have htake : ∀ output : List Char, truncateText output limits.maxOutputChars =
      output.take (min output.length limits.maxOutputChars) := by
    intro output
    rw [truncateText, Nat.min_comm, ← List.take_eq_take_min]
  have hextracts : ∀ output, Extracts t limits w code world output →
      ran.1 = some (.ok (String.ofList (truncateText output limits.maxOutputChars))) ∧
        cuts ran.2 = cuts world ++ cutOf limits output := by
    intro output h
    obtain ⟨after, hran, hcuts⟩ := submit_of_extracts h
    have hsame : ran = _ := hran
    rw [hsame]
    exact ⟨rfl, hcuts⟩
  refine ⟨?_, refused_iff t limits w code world, ?_, fun text => ⟨fun hok => ?_, ?_⟩, ?_, fun hno => ?_⟩
  · rcases requests_submit t limits w code world with ⟨e, -, hnone⟩ | hsent
    · exact .inl hnone
    · exact .inr hsent
  · intro payload answer told hp hask
    have hran : ran = onSubmitted t limits w answer told := submit_of_answer hp hask
    refine ⟨?_, ?_⟩
    · rintro e rfl
      rw [hran]
      rfl
    · rintro r rfl
      refine ⟨fun hr => ?_, fun hr hpending => ⟨fun hj => ?_, fun job hj => ?_⟩, fun hr hwhole => ?_⟩
      · simp only [hran, onSubmitted, hr, Bool.false_eq_true, if_false]
      · simp only [hran, onSubmitted, hr, if_true, follow, hpending, hj]
      · have hpolled : ran = _ := submit_of_pending hp hask hr hpending hj
        rw [hpolled, fst_onPolled]
      · have hcompleted : ran = _ := submit_of_whole hp hask hr hwhole
        rw [hcompleted]
        rfl
  · rcases extracts_or_not t limits w code world with ⟨output, h⟩ | ⟨hno, -⟩
    · have htext := hok.symm.trans (hextracts output h).1
      cases htext
      exact ⟨output, h, by rw [String.toList_ofList, htake]⟩
    · exact absurd hok (hno text)
  · rintro ⟨output, h, htext⟩
    have hsame : text = String.ofList (truncateText output limits.maxOutputChars) := by
      rw [htake, ← htext, String.ofList_toList]
    rw [hsame]
    exact (hextracts output h).1
  · exact fun output h => (hextracts output h).2
  · rcases extracts_or_not t limits w code world with ⟨output, h⟩ | ⟨-, hcuts⟩
    · exact absurd (hextracts output h).1 (hno _)
    · exact hcuts

def wordyJob : Response := ⟨202, "Accepted", .obj [("md5", .str "j")]⟩

def wordyOutput : Response := ⟨200, "OK", .obj [("source", .str "né漢字")]⟩

def wordy : Transport Unit where
  submit _ := Ask.pure (.ok wordyJob)
  jobStatus _ := Ask.pure (.ok wordyOutput)

theorem wordy_submission_is_clean :
    Bytecode.Payload " 0X6080" "6080" ∧
    Extracts wordy ⟨700, 2, 2⟩ ⟨none, none⟩ " 0X6080" (World.start 0 ()) "né漢字".toList ∧
    (let ran := submit wordy ⟨700, 2, 2⟩ ⟨none, none⟩ " 0X6080" (World.start 0 ())
    ran.1 = some (.ok "né") ∧ cuts ran.2 = [(4, 2)]) := by
  have hall : "6080".toList.all (fun c => c ∈ Bytecode.hexDigits) = true := by decide
  have hp : Bytecode.Payload " 0X6080" "6080" :=
    ⟨by decide, fun c hc => of_decide_eq_true (List.all_eq_true.mp hall c hc), .inr (.inr (by decide))⟩
  have hheard : ∀ world, ∃ c told, Hears wordy ⟨none, none⟩ "j" (Budget.fresh 2 700) world c
      (.ok wordyOutput) told := fun world =>
    ⟨_, _, .first ⟨rfl, _, rfl, World.ask_prompt _ none rfl⟩⟩
  have hready : Ready (.ok wordyOutput) "né漢字".toList := ⟨_, rfl, rfl, by decide, by decide⟩
  obtain ⟨c, told, hh⟩ := hheard (note _ (.jobPending "j"))
  have hextracts : Extracts wordy ⟨700, 2, 2⟩ ⟨none, none⟩ " 0X6080" (World.start 0 ()) "né漢字".toList :=
    .polled "6080" "j" wordyJob _ told c _ _ hp (World.ask_prompt _ none rfl) rfl rfl rfl hh hready
  obtain ⟨-, -, -, htext, hcuts, -⟩ :=
    submission_is_clean wordy ⟨700, 2, 2⟩ ⟨none, none⟩ " 0X6080" (World.start 0 ())
  exact ⟨hp, hextracts, (htext "né").mpr ⟨_, hextracts, by decide⟩, hcuts _ hextracts⟩

end Decompiler

end TokenAudit
