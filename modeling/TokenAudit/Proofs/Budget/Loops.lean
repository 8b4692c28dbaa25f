import TokenAudit.Proofs.Budget.Spending
import TokenAudit.Proofs.Clearance.Attempts
import TokenAudit.Proofs.Commit.Sending
import TokenAudit.Proofs.Source.Waits

/-! The three loops on a budget: polling for a job, looking for the receipt of a commit, and waiting for
clearance. Each is run as it stands, and is over when its attempts are; alone on a source that always
answers in the end, it has a result. -/

namespace TokenAudit

variable {σ : Type}

def Ask.IsDue {α : Type} (request : Ask σ α) : Prop := ∀ s, (request s).1.delay ≠ none

theorem Ask.IsDue.ask {α κ : Type} {request : Ask σ α} (h : request.IsDue) {w : Window}
    (hw : w.deadline = none) (world : World σ κ) :
    ∃ a after, world.ask w request = (some a, after) := by
  obtain ⟨delay, hdelay⟩ := Option.ne_none_iff_exists'.mp (h world.state)
  have hdue : w.await world.now (request world.state).1.delay = (true, world.now + delay) := by
    simp only [hdelay, Window.await, Window.cutBefore, hw]
  exact ⟨_, _, World.ask_of_await_true hdue⟩

theorem World.sleep_ne_expired {κ : Type} {w : Window} (hw : w.deadline = none) (world : World σ κ)
    (duration : Nat) : (world.sleep w duration).1 ≠ .expired := by
  obtain ⟨cancelAt, deadline⟩ := w
  cases hw
  obtain ⟨woken, wake, hsleep, hne, -⟩ := World.sleep_alone cancelAt world.now duration
  rw [World.sleep, hsleep]
  exact hne

open Budget (Loop Turn)

/-! ### Polling for a job -/

namespace Decompiler

variable (t : Transport σ) (limits : Limits) (job : String) (w : Window)

def pollLoop : Loop (SourceWorld σ) (Ran σ (Except AuditError String)) where
  turn b world :=
    match (note world (.pollAttempt b.attempts b.maxAttempts)).sleep w b.intervalMs.toNat with
    | (.expired, world) => .ended (none, world)
    | (.cancelled, world) => .ended (some (.error (.cancelled "decompilation poll")), world)
    | (.ok, world) =>
      match (world.record (.statusAsked job)).ask w (t.jobStatus job) with
      | (none, world) => .ended (none, world)
      | (some answer, world) =>
        match judge answer with
        | (some output, _) =>
          let (text, world) := bounded limits (note world (.pollReady b.attempts)) output
          .ended (some (.ok text), world)
        | (none, notes) => .again (notes.foldl note world)
  spent b world :=
    (some (.error (.timeout "decompilation" b.maxAttempts)), note world (.pollTimedOut b.maxAttempts))

theorem unfolds_pollLoop :
    (pollLoop t limits job w).Unfolds fun b world => pollFrom t limits w job b.remaining b world where
  spent {b world} hb := by
    rw [(Budget.begin?_eq_none_iff_remaining b).mp hb]
    rfl
  begun {b c world} hb := by
    rw [Budget.remaining_of_begin? hb]
    simp only [pollFrom, hb, pollLoop]
    rcases (note world (.pollAttempt c.attempts c.maxAttempts)).sleep w c.intervalMs.toNat with
      ⟨_ | _ | _, rested⟩
    · dsimp only
      rcases (rested.record (.statusAsked job)).ask w (t.jobStatus job) with ⟨_ | answer, heard⟩
      · rfl
      · dsimp only
        rcases judge answer with ⟨_ | output, notes⟩
        · rfl
        · rfl
    · rfl
    · rfl

variable {t limits job w} in
theorem pollLoop_gives (ht : (t.jobStatus job).IsDue) (hw : w.deadline = none) {b : Budget}
    {world : SourceWorld σ} {ran : Ran σ (Except AuditError String)}
    (h : (pollLoop t limits job w).turn b world = .ended ran) : ran.1 ≠ none := by
  have hslept := World.sleep_ne_expired hw (note world (.pollAttempt b.attempts b.maxAttempts))
    b.intervalMs.toNat
  dsimp only [pollLoop] at h
  generalize (note world (.pollAttempt b.attempts b.maxAttempts)).sleep w b.intervalMs.toNat = slept
    at h hslept
  rcases slept with ⟨_ | _ | _, rested⟩
  · obtain ⟨answer, heard, hask⟩ := ht.ask hw (rested.record (.statusAsked job))
    dsimp only at h
    rw [hask] at h
    dsimp only at h
    generalize judge answer = judged at h
    rcases judged with ⟨_ | output, notes⟩
    · cases h
    · cases h
      exact Option.some_ne_none _
  · cases h
    exact Option.some_ne_none _
  · exact absurd rfl hslept

theorem poll_ends (world : SourceWorld σ) :
    (pollLoop t limits job w).EndsWithin limits.maxPollAttempts.toNat
      (.fresh limits.maxPollAttempts limits.pollIntervalMs) world (poll t limits w job world) :=
  (unfolds_pollLoop t limits job w).endsWithin (.fresh limits.maxPollAttempts limits.pollIntervalMs)
    world

theorem poll_gives (ht : (t.jobStatus job).IsDue) (hw : w.deadline = none) (world : SourceWorld σ) :
    (poll t limits w job world).1 ≠ none := by
  obtain ⟨turns, -, hends, -⟩ := poll_ends t limits job w world
  exact hends.result_of (fun _ _ => Option.some_ne_none _) fun _ _ _ h => pollLoop_gives ht hw h

end Decompiler

/-! ### Looking for the receipt of a commit -/

namespace Committer

open Commit

variable (c : Committer σ) (v : RiskVerdict) (hash : Hash) (w : Window)

def confirmLoop : Loop (Run σ) (Option Result × Run σ) where
  turn b r :=
    match (r.world.record (.lookedUp hash)).ask w (c.writer.receipt hash) with
    | (none, world) => .ended (none, { r with world := world })
    | (some answer, world) =>
      match Run.take { r with world := world } (looked v hash b r.ledger answer) with
      | (.returned result, r) => .ended (some result, r)
      | (_, r) =>
        match r.world.sleep w b.intervalMs.toNat with
        | (.expired, world) => .ended (none, { r with world := world })
        | (.cancelled, world) =>
          .ended (some (.error (.cancelled "verdict confirmation")), { r with world := world })
        | (.ok, world) => .again { r with world := world }
  spent b r := (some (timedOut hash b), r)

theorem looked_ends (b : Budget) (l : Ledger) (answer : Except AuditError (Option Rpc.Receipt)) :
    (∃ result, (looked v hash b l answer).stage = .returned result) ∨
      looked v hash b l answer = ⟨.resting hash b, l, []⟩ := by
  unfold looked
  split
  · split
    · exact .inl ⟨_, rfl⟩
    · exact .inl ⟨_, rfl⟩
  · split
    · exact .inl ⟨_, rfl⟩
    · exact .inr rfl

theorem unfolds_confirmLoop : (c.confirmLoop v hash w).Unfolds fun b r =>
    c.confirm w v (2 * b.remaining + 1) (advance hash b) r where
  spent {b r} hb := by
    simp only [advance, hb, confirm_returned]
    rfl
  begun {b next r} hb := by
    -- A turn is two steps of the commit: it looks, and it rests.
    have hsteps : 2 * b.remaining + 1 = 2 * next.remaining + 1 + 1 + 1 := by
      rw [Budget.remaining_of_begin? hb]
      rfl
    simp only [advance, hb, hsteps, confirmLoop]
    rw [Committer.confirm]
    rcases (r.world.record (.lookedUp hash)).ask w (c.writer.receipt hash) with ⟨_ | answer, world⟩
    · rfl
    · dsimp only
      obtain ⟨result, hover⟩ | hrest := looked_ends v hash next r.ledger answer
      · simp only [Run.take, hover, confirm_returned]
        rfl
      · simp only [hrest, Run.take, Stream.calls_nil]
        rw [Committer.confirm]
        rcases world.sleep w next.intervalMs.toNat with ⟨_ | _ | _, rested⟩
        · rfl
        · simp only [Run.take, Commit.rested, decide_true, if_true, confirm_returned]
          rfl
        · rfl

variable {c v hash w} in
theorem confirmLoop_gives (ht : (c.writer.receipt hash).IsDue) (hw : w.deadline = none) {b : Budget}
    {r : Run σ} {ran : Option Result × Run σ}
    (h : (c.confirmLoop v hash w).turn b r = .ended ran) : ran.1 ≠ none := by
  obtain ⟨answer, world, hask⟩ := ht.ask hw (r.world.record (.lookedUp hash))
  dsimp only [confirmLoop] at h
  rw [hask] at h
  obtain ⟨result, hover⟩ | hrest := looked_ends v hash b r.ledger answer
  · simp only [Run.take, hover] at h
    cases h
    exact Option.some_ne_none _
  · have hslept := World.sleep_ne_expired hw world b.intervalMs.toNat
    simp only [hrest, Run.take] at h
    generalize world.sleep w b.intervalMs.toNat = slept at h hslept
    rcases slept with ⟨_ | _ | _, rested⟩
    · cases h
    · cases h
      exact Option.some_ne_none _
    · exact absurd rfl hslept

def Run.named (r : Run σ) (world : World σ CommitAct) : Run σ :=
  { r with world := world, stream := r.stream.calls [.transactionSubmitted hash.hex] }

variable {v hash w}

theorem submit_ends {r : Run σ} {world : World σ CommitAct}
    (h : (r.world.record (.submitted (c.calldata v))).ask w (c.writer.submit (c.calldata v)) =
      (some (.ok hash), world)) :
    (c.confirmLoop v hash w).EndsWithin c.confirmAttempts.toNat c.budget (r.named hash world)
      (c.submit w v r) := by
  have hdata : Calldata.encode c.protocol v.tradeId v.score = c.calldata v := rfl
  have hloop : c.submit w v r =
      c.confirm w v (2 * c.budget.remaining + 1) (advance hash c.budget) (r.named hash world) := by
    simp only [Committer.submit, hdata, h]
    rfl
  rw [hloop]
  exact (c.unfolds_confirmLoop v hash w).endsWithin c.budget (r.named hash world)

theorem submit_gives (ht : (c.writer.receipt hash).IsDue) (hw : w.deadline = none) {r : Run σ}
    {world : World σ CommitAct}
    (h : (r.world.record (.submitted (c.calldata v))).ask w (c.writer.submit (c.calldata v)) =
      (some (.ok hash), world)) :
    (c.submit w v r).1 ≠ none := by
  obtain ⟨turns, -, hends, -⟩ := c.submit_ends h
  exact hends.result_of (fun _ _ => Option.some_ne_none _) fun _ _ _ hover =>
    confirmLoop_gives ht hw hover

end Committer

/-! ### Waiting for clearance -/

namespace ClearancePoller

variable (p : ClearancePoller σ) (token : Address) (fromBlock : UInt64) (w : Window)

def waitLoop : Loop (World σ ClearanceAct) (Option Clearance × World σ ClearanceAct) where
  turn b world :=
    match p.check w token fromBlock world with
    | (none, world) => .ended (none, world)
    | (some (some outcome), world) => .ended (some outcome, world)
    | (some none, world) =>
      if b.isExhausted then .again world
      else
        match world.sleep w b.intervalMs.toNat with
        | (.ok, world) => .again world
        | (.cancelled, world) => .ended (some (.cancelled b.attempts), world)
        | (.expired, world) => .ended (none, world)
  spent b world := (some (.timeout b.attempts), world)

theorem unfolds_waitLoop : (p.waitLoop token fromBlock w).Unfolds fun b world =>
    p.waitFrom w token fromBlock b.remaining b world where
  spent {b world} hb := by
    rw [(Budget.begin?_eq_none_iff_remaining b).mp hb]
    rfl
  begun {b c world} hb := by
    rw [Budget.remaining_of_begin? hb]
    simp only [waitFrom, hb, waitLoop]
    rcases p.check w token fromBlock world with ⟨_ | _ | outcome, checked⟩
    · rfl
    · dsimp only
      split
      · rfl
      · rcases checked.sleep w c.intervalMs.toNat with ⟨_ | _ | _, rested⟩
        · rfl
        · rfl
        · rfl
    · rfl

variable {p token fromBlock w}

theorem check_gives (ha : (p.logs.approved token fromBlock).IsDue)
    (hd : (p.logs.denied token fromBlock).IsDue) (hw : w.deadline = none)
    (world : World σ ClearanceAct) :
    ∃ outcome after, p.check w token fromBlock world = (some outcome, after) := by
  obtain ⟨answer, asked, hask⟩ := ha.ask hw (world.record (.approvedAsked token fromBlock))
  obtain ⟨answer', asked', hask'⟩ := hd.ask hw (asked.record (.deniedAsked token fromBlock))
  rw [check, hask]
  rcases answer with e | _ | _
  · exact ⟨_, _, rfl⟩
  · dsimp only
    rw [hask']
    rcases answer' with e | _ | score
    · exact ⟨_, _, rfl⟩
    · exact ⟨_, _, rfl⟩
    · exact ⟨_, _, rfl⟩
  · exact ⟨_, _, rfl⟩

theorem waitLoop_gives (ha : (p.logs.approved token fromBlock).IsDue)
    (hd : (p.logs.denied token fromBlock).IsDue) (hw : w.deadline = none) {b : Budget}
    {world : World σ ClearanceAct} {ran : Option Clearance × World σ ClearanceAct}
    (h : (p.waitLoop token fromBlock w).turn b world = .ended ran) : ran.1 ≠ none := by
  obtain ⟨outcome, checked, hcheck⟩ := check_gives ha hd hw world
  have hslept := World.sleep_ne_expired hw checked b.intervalMs.toNat
  dsimp only [waitLoop] at h
  rw [hcheck] at h
  rcases outcome with _ | outcome
  · dsimp only at h
    split at h
    · cases h
    · generalize checked.sleep w b.intervalMs.toNat = slept at h hslept
      rcases slept with ⟨_ | _ | _, rested⟩
      · cases h
      · cases h
        exact Option.some_ne_none _
      · exact absurd rfl hslept
  · cases h
    exact Option.some_ne_none _

variable (p token fromBlock w)

theorem wait_ends (world : World σ ClearanceAct) :
    (p.waitLoop token fromBlock w).EndsWithin p.maxAttempts.toNat
      (.fresh p.maxAttempts p.intervalMs) world (p.wait w token fromBlock world) :=
  (p.unfolds_waitLoop token fromBlock w).endsWithin (.fresh p.maxAttempts p.intervalMs) world

theorem wait_gives (ha : (p.logs.approved token fromBlock).IsDue)
    (hd : (p.logs.denied token fromBlock).IsDue) (hw : w.deadline = none)
    (world : World σ ClearanceAct) : (p.wait w token fromBlock world).1 ≠ none := by
  obtain ⟨turns, -, hends, -⟩ := p.wait_ends token fromBlock w world
  exact hends.result_of (fun _ _ => Option.some_ne_none _) fun _ _ _ h => waitLoop_gives ha hd hw h

end ClearancePoller

/-! ### The attempts, and all that is run on them -/

/-- Of any number of calls on a budget, the first begin an attempt, as many as it has left. No count is
ever more than the maximum or the one it started with. So each loop that makes such a call before a turn
takes no more turns than its maximum; alone, with every answer due some time, it comes to a result. -/
theorem Budget.attempts_end_with_the_budget :
    (∀ (b : Budget) (calls : Nat),
      (b.run calls).2 =
        List.replicate (min calls (b.maxAttempts.toNat - b.attempts.toNat)) true ++
          List.replicate (calls - (b.maxAttempts.toNat - b.attempts.toNat)) false ∧
      (b.run calls).1.attempts.toNat =
        max b.attempts.toNat (min (b.attempts.toNat + calls) b.maxAttempts.toNat) ∧
      (b.run (calls + 1)).2 = (b.run calls).2 ++ [!(b.run calls).1.isExhausted] ∧
      (b.run calls).1.maxAttempts = b.maxAttempts ∧ (b.run calls).1.intervalMs = b.intervalMs) ∧
    (∀ b c : Budget, b.begin? = some c → c.attempts.toNat = b.attempts.toNat + 1) ∧
    (∀ (t : Decompiler.Transport σ) (limits : Decompiler.Limits) (job : String) (w : Window)
      (world : Decompiler.SourceWorld σ),
      (Decompiler.pollLoop t limits job w).EndsWithin limits.maxPollAttempts.toNat
        (.fresh limits.maxPollAttempts limits.pollIntervalMs) world
        (Decompiler.poll t limits w job world) ∧
      ((t.jobStatus job).IsDue → w.deadline = none →
        (Decompiler.poll t limits w job world).1 ≠ none)) ∧
    (∀ (c : Committer σ) (v : RiskVerdict) (hash : Hash) (w : Window) (r : Committer.Run σ)
      (world : World σ CommitAct),
      (r.world.record (.submitted (c.calldata v))).ask w (c.writer.submit (c.calldata v)) =
        (some (.ok hash), world) →
      (c.confirmLoop v hash w).EndsWithin c.confirmAttempts.toNat
        (.fresh c.confirmAttempts c.confirmIntervalMs) (r.named hash world) (c.submit w v r) ∧
      ((c.writer.receipt hash).IsDue → w.deadline = none → (c.submit w v r).1 ≠ none)) ∧
    (∀ (p : ClearancePoller σ) (token : Address) (fromBlock : UInt64) (w : Window)
      (world : World σ ClearanceAct),
      (p.waitLoop token fromBlock w).EndsWithin p.maxAttempts.toNat
        (.fresh p.maxAttempts p.intervalMs) world (p.wait w token fromBlock world) ∧
      ((p.logs.approved token fromBlock).IsDue → (p.logs.denied token fromBlock).IsDue →
        w.deadline = none → (p.wait w token fromBlock world).1 ≠ none)) := by
  refine ⟨fun b calls => ?_, fun b c hb => (attempts_of_begin? hb).2.1,
    fun t limits job w world => ?_, fun c v hash w r world hnamed => ?_,
    fun p token fromBlock w world => ?_⟩
  · obtain ⟨hattempts, hmax, hinterval⟩ := b.counts_run calls
    refine ⟨b.began_run calls, ?_, b.began_next calls, hmax, hinterval⟩
    rw [hattempts, remaining]
    omega
  · exact ⟨Decompiler.poll_ends t limits job w world,
      fun ht hw => Decompiler.poll_gives t limits job w ht hw world⟩
  · exact ⟨c.submit_ends hnamed, fun ht hw => c.submit_gives ht hw hnamed⟩
  · exact ⟨p.wait_ends token fromBlock w world,
      fun ha hd hw => p.wait_gives token fromBlock w ha hd hw world⟩

end TokenAudit
