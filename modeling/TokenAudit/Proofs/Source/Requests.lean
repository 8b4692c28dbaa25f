import TokenAudit.Proofs.Source.Waits

/-! Whom the decompiler asks on being given code, and how long its output may be. -/

namespace TokenAudit

def SourceAct.isRequest : SourceAct → Bool
  | noted _ => false
  | _ => true

namespace Decompiler

variable {σ α : Type}

/-! ### Requests -/

def requests (world : SourceWorld σ) : List SourceAct := world.acts.filter SourceAct.isRequest

@[simp] theorem requests_note (world : SourceWorld σ) (n : SourceNote) :
    requests (note world n) = requests world := by
  simp [requests, note, SourceAct.isRequest]

@[simp] theorem requests_notes (world : SourceWorld σ) (ns : List SourceNote) :
    requests (ns.foldl note world) = requests world := by
  induction ns generalizing world with
  | nil => rfl
  | cons n ns ih => rw [List.foldl_cons, ih, requests_note]

theorem requests_record (world : SourceWorld σ) {act : SourceAct} (h : act.isRequest = true) :
    requests (world.record act) = requests world ++ [act] := by
  simp [requests, h]

theorem requests_ask (world : SourceWorld σ) (w : Window) (request : Ask σ α) :
    requests (world.ask w request).2 = requests world := by
  rw [requests, requests, World.acts, World.acts, World.trace_ask]

theorem requests_of_ask {world after : SourceWorld σ} {w : Window} {request : Ask σ α}
    {answer : Option α} (h : world.ask w request = (answer, after)) :
    requests after = requests world := by
  have hafter : (world.ask w request).2 = after := congrArg Prod.snd h
  rw [← hafter, requests_ask]

theorem requests_of_sleep {world after : SourceWorld σ} {w : Window} {duration : Nat} {woken : Woken}
    (h : world.sleep w duration = (woken, after)) : requests after = requests world := by
  have hafter : (world.sleep w duration).2 = after := congrArg Prod.snd h
  rw [← hafter, requests, requests, World.acts, World.acts, World.trace_sleep]

theorem requests_bounded (limits : Limits) (world : SourceWorld σ) (output : List Char) :
    requests (bounded limits world output).2 = requests world := by
  unfold bounded
  split
  · exact requests_note world _
  · rfl

theorem requests_pollFrom (t : Transport σ) (limits : Limits) (w : Window) (job : String)
    (left : Nat) (b : Budget) (world : SourceWorld σ) :
    ∃ n, requests (pollFrom t limits w job left b world).2 =
      requests world ++ List.replicate n (.statusAsked job) := by
  induction left generalizing b world with
  | zero => exact ⟨0, by simp [pollFrom]⟩
  | succ left ih =>
    rw [pollFrom]
    cases b.begin? with
    | none => exact ⟨0, by simp⟩
    | some c =>
      dsimp only
      rcases hslept : (note world (.pollAttempt c.attempts c.maxAttempts)).sleep w
        c.intervalMs.toNat with ⟨_ | _ | _, rested⟩
      · have hrested : requests rested = requests world := by
          rw [requests_of_sleep hslept, requests_note]
        dsimp only
        rcases hasked : (rested.record (.statusAsked job)).ask w (t.jobStatus job) with
          ⟨_ | answer, told⟩
        · have htold : requests told = requests world ++ [.statusAsked job] := by
            rw [requests_of_ask hasked, requests_record _ rfl, hrested]
          exact ⟨1, htold⟩
        · have htold : requests told = requests world ++ [.statusAsked job] := by
            rw [requests_of_ask hasked, requests_record _ rfl, hrested]
          dsimp only
          rcases judge answer with ⟨_ | output, notes⟩
          · obtain ⟨n, hn⟩ := ih c (notes.foldl note told)
            refine ⟨n + 1, ?_⟩
            rw [hn, requests_notes, htold, List.append_assoc, List.replicate_succ]
            rfl
          · refine ⟨1, ?_⟩
            rw [requests_bounded, requests_note, htold]
            rfl
      · exact ⟨0, by simp [requests_of_sleep hslept]⟩
      · exact ⟨0, by simp [requests_of_sleep hslept]⟩

theorem requests_follow (t : Transport σ) (limits : Limits) (w : Window) (r : Response)
    (world : SourceWorld σ) :
    ∃ job n, requests (follow t limits w r world).2 =
      requests world ++ List.replicate n (.statusAsked job) := by
  unfold follow
  split
  · cases r.job? with
    | none => exact ⟨"", 0, by simp⟩
    | some job =>
      obtain ⟨n, hn⟩ := requests_pollFrom t limits w job
        (Budget.fresh limits.maxPollAttempts limits.pollIntervalMs).remaining
        (Budget.fresh limits.maxPollAttempts limits.pollIntervalMs) (note world (.jobPending job))
      rw [requests_note] at hn
      refine ⟨job, n, ?_⟩
      rw [← hn]
      dsimp only [poll]
      split
      · rename_i text polled hpoll
        rw [hpoll]
        exact requests_note polled _
      · rfl
  · refine ⟨"", 0, ?_⟩
    dsimp only [completed]
    rw [requests_note, requests_bounded]
    simp

/-- What a decompiler asks for on being given code: someone who answers is asked that once, the service
has it submitted once and is then asked for its job alone, or refuses it unasked. -/
inductive Asks : Decompiler σ → String → List SourceAct → Prop where
  | answering (ask : String → Option Nat → Ask σ (Except AuditError String)) (code : String) :
    Asks (.answering ask) code [.decompilerAsked code]
  | refused (t : Transport σ) (limits : Limits) (code : String) (e : AuditError)
      (h : Bytecode.submission code = .error e) : Asks (.service t limits) code []
  | submitted (t : Transport σ) (limits : Limits) (code : String) (digits : List Char)
      (h : Bytecode.submission code = .ok digits) (job : String) (n : Nat) :
    Asks (.service t limits) code
      (.submitted (String.ofList digits) :: List.replicate n (.statusAsked job))

theorem asks_decompile (d : Decompiler σ) (w : Window) (code : String) (world : SourceWorld σ) :
    ∃ more, requests (d.decompile w code world).2 = requests world ++ more ∧ d.Asks code more := by
  cases d with
  | answering ask =>
    refine ⟨_, ?_, .answering ask code⟩
    rw [decompile, requests_ask, requests_record _ rfl]
  | service t limits =>
    rw [decompile, submit]
    cases hs : Bytecode.submission code with
    | error e => exact ⟨[], (List.append_nil _).symm, .refused t limits code e hs⟩
    | ok digits =>
      dsimp only
      rcases hasked : ((note world (.submitting digits.length)).record
        (.submitted (String.ofList digits))).ask w (t.submit (String.ofList digits)) with
        ⟨answer, told⟩
      have htold : requests told = requests world ++ [.submitted (String.ofList digits)] := by
        rw [requests_of_ask hasked, requests_record _ rfl, requests_note]
      have hnone := Asks.submitted t limits code digits hs "" 0
      rcases answer with _ | _ | response
      · exact ⟨_, htold, hnone⟩
      · exact ⟨_, (requests_note told _).trans htold, hnone⟩
      · dsimp only
        split
        · obtain ⟨job, n, hn⟩ := requests_follow t limits w response told
          refine ⟨_, ?_, .submitted t limits code digits hs job n⟩
          rw [hn, htold, List.append_assoc]
          rfl
        · exact ⟨_, (requests_note told _).trans htold, hnone⟩

/-! ### The bound of the client -/

theorem length_bounded (limits : Limits) (world : SourceWorld σ) (output : List Char) :
    (bounded limits world output).1.toList.length ≤ limits.maxOutputChars := by
  rw [bounded_eq, String.toList_ofList]
  exact List.length_take_le _ _

theorem length_pollFrom {t : Transport σ} {limits : Limits} {w : Window} {job : String} {left : Nat}
    {b : Budget} {world : SourceWorld σ} {text : String}
    (h : (pollFrom t limits w job left b world).1 = some (.ok text)) :
    text.toList.length ≤ limits.maxOutputChars := by
  induction left generalizing b world with
  | zero => cases h
  | succ left ih =>
    rw [pollFrom] at h
    cases hb : b.begin? with
    | none =>
      rw [hb] at h
      cases h
    | some c =>
      rw [hb] at h
      dsimp only at h
      split at h
      · cases h
      · cases h
      · split at h
        · cases h
        · split at h
          · cases h
            exact length_bounded limits _ _
          · exact ih h

theorem length_submit {t : Transport σ} {limits : Limits} {w : Window} {code : String}
    {world : SourceWorld σ} {text : String}
    (h : (submit t limits w code world).1 = some (.ok text)) :
    text.toList.length ≤ limits.maxOutputChars := by
  unfold submit at h
  split at h
  · cases h
  · dsimp only at h
    split at h
    · cases h
    · cases h
    · split at h
      · unfold follow at h
        split at h
        · split at h
          · cases h
          · split at h
            · rename_i polled _ hpoll
              cases h
              exact length_pollFrom (congrArg Prod.fst hpoll)
            · exact length_pollFrom h
        · cases h
          exact length_bounded limits _ _
      · cases h

end Decompiler

end TokenAudit
