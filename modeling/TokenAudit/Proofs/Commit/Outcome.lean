import TokenAudit.Proofs.Commit.Clock
import TokenAudit.Proofs.Wait.Timetable

/-! A commit on a writer that answers at once. What it returns, when it looks a receipt up and what
it leaves in the ledger are read off the answers and off the instant of the signal. -/

namespace TokenAudit

theorem Ledger.release_reserved {l : Ledger} {tradeId : Uint256} (h : tradeId ∉ l) :
    Ledger.release (tradeId :: l) tradeId = l := by
  have hkept : l.filter (fun t => t ≠ tradeId) = l := by
    refine List.filter_eq_self.mpr fun t ht => ?_
    simpa using ne_of_mem_of_not_mem ht h
  rw [release, List.filter_cons_of_neg (by simp), hkept]

namespace ChainWriter

variable {σ : Type} (writer : ChainWriter σ)

structure Prompt : Prop where
  submit : ∀ calldata s, (writer.submit calldata s).1.delay = some 0
  receipt : ∀ hash s, (writer.receipt hash s).1.delay = some 0

end ChainWriter

namespace Committer

open Commit

variable {σ : Type} (c : Committer σ) (v : RiskVerdict) (cancelAt : Option Nat) (start : Run σ)

def timetable : Timetable where
  start := start.world.now
  interval := c.confirmIntervalMs.toNat
  attempts := c.confirmAttempts.toNat
  cancelAt := cancelAt

def taken : Except AuditError Hash × σ := (c.writer.submit (c.calldata v)).answer start.world.state

def handedOver : World σ CommitAct where
  now := start.world.now
  trace := start.world.trace ++ [(start.world.now, .submitted (c.calldata v))]
  state := (c.taken v start).2

def lookup (hash : Hash) (k : Nat) : Except AuditError (Option Rpc.Receipt) :=
  Draws.heard (c.writer.receipt hash).answer (c.taken v start).2 k

def Undecided (hash : Hash) (k : Nat) : Prop := ∀ receipt, c.lookup v start hash k ≠ .ok (some receipt)

def worldAfter (hash : Hash) (k : Nat) : World σ CommitAct where
  now := (c.timetable cancelAt start).dueAt (k - 1)
  trace := (c.handedOver v start).trace ++
    (List.range k).map fun j => ((c.timetable cancelAt start).dueAt j, .lookedUp hash)
  state := Draws.stateAfter (c.writer.receipt hash).answer (c.taken v start).2 k

def confirming (hash : Hash) (k : Nat) : Run σ where
  world := c.worldAfter v cancelAt start hash k
  ledger := v.tradeId :: start.ledger
  stream := start.stream.calls [.transactionSubmitted hash.hex]

def due (hash : Hash) (k : Nat) : Run σ :=
  { c.confirming v cancelAt start hash k with
    world := { c.worldAfter v cancelAt start hash k with
      now := (c.timetable cancelAt start).dueAt k } }

def budgetAt (k : Nat) : Budget := ⟨UInt32.ofNat k, c.confirmAttempts, c.confirmIntervalMs⟩

/-- How a commit ends whose submission is answered with the name of a transaction. -/
inductive Ends (hash : Hash) : Result → Run σ → Prop
  | succeeded (k : Nat) (receipt : Rpc.Receipt)
    (hk : (c.timetable cancelAt start).Begins (c.Undecided v start hash) k)
    (hr : c.lookup v start hash k = .ok (some receipt)) (hs : receipt.succeeded = true) :
    Ends hash (.ok ⟨hash, receipt.blockNumber⟩)
      { c.confirming v cancelAt start hash (k + 1) with
        stream := (start.stream.calls [.transactionSubmitted hash.hex]).calls
          [.transactionConfirmed hash.hex receipt.blockNumber true] }
  | reverted (k : Nat) (receipt : Rpc.Receipt)
    (hk : (c.timetable cancelAt start).Begins (c.Undecided v start hash) k)
    (hr : c.lookup v start hash k = .ok (some receipt)) (hs : receipt.succeeded = false) :
    Ends hash (.error (.upstream "receiving-contract" 0
        s!"verdict transaction {hash.hex} reverted"))
      { c.confirming v cancelAt start hash (k + 1) with
        ledger := start.ledger
        stream := (start.stream.calls [.transactionSubmitted hash.hex]).calls
          [.transactionConfirmed hash.hex receipt.blockNumber false] }
  | cut (k instant : Nat)
    (hk : (c.timetable cancelAt start).Begins (c.Undecided v start hash) k)
    (hno : c.Undecided v start hash k) (hmore : k + 1 < c.confirmAttempts.toNat)
    (hi : cancelAt = some instant) (hfrom : (c.timetable cancelAt start).dueAt k ≤ instant)
    (hto : instant < (c.timetable cancelAt start).dueAt (k + 1)) :
    Ends hash (.error (.cancelled "verdict confirmation"))
      { c.confirming v cancelAt start hash (k + 1) with
        world := { c.worldAfter v cancelAt start hash (k + 1) with now := instant } }
  | spent (hno : ∀ k < c.confirmAttempts.toNat, c.Undecided v start hash k)
    (huncut : ∀ k, k + 1 < c.confirmAttempts.toNat → ¬(c.timetable cancelAt start).Cut k) :
    Ends hash (.error (.timeout s!"confirmation of {hash.hex}" c.confirmAttempts))
      (c.confirming v cancelAt start hash c.confirmAttempts.toNat)

/-! ### One lookup, and one rest -/

theorem looked_undecided {answer : Except AuditError (Option Rpc.Receipt)}
    (h : ∀ receipt, answer ≠ .ok (some receipt)) (hash : Hash) (b : Budget) (l : Ledger) :
    looked v hash b l answer =
      if b.isExhausted then ⟨.returned (timedOut hash b), l, []⟩ else ⟨.resting hash b, l, []⟩ := by
  match answer with
  | .ok (some receipt) => exact absurd rfl (h receipt)
  | .ok none | .error e => rfl

theorem looked_mined (hash : Hash) (b : Budget) (l : Ledger) (receipt : Rpc.Receipt) :
    looked v hash b l (.ok (some receipt)) =
      if receipt.succeeded then
        ⟨.returned (.ok ⟨hash, receipt.blockNumber⟩), l,
          [.transactionConfirmed hash.hex receipt.blockNumber receipt.succeeded]⟩
      else ⟨.returned (.error (.upstream "receiving-contract" 0
          s!"verdict transaction {hash.hex} reverted")), l.release v.tradeId,
        [.transactionConfirmed hash.hex receipt.blockNumber receipt.succeeded]⟩ := rfl

theorem advance_of_inBudget (hash : Hash) {k : Nat} (hk : k < c.confirmAttempts.toNat) :
    advance hash (c.budgetAt k) = .looking hash (c.budgetAt (k + 1)) := by
  rw [advance, budgetAt, Budget.begin?_ofNat hk]
  rfl

theorem isExhausted_budgetAt {k : Nat} (hk : k ≤ c.confirmAttempts.toNat) :
    (c.budgetAt k).isExhausted = decide (c.confirmAttempts.toNat = k) :=
  Budget.isExhausted_ofNat hk c.confirmIntervalMs

variable {c v cancelAt start}

section

variable (h : c.writer.Prompt)

include h

theorem submit_prompt :
    (start.world.record (.submitted (c.calldata v))).ask ⟨cancelAt, none⟩
        (c.writer.submit (c.calldata v)) =
      (some (c.taken v start).1, c.handedOver v start) :=
  World.ask_prompt _ cancelAt (h.submit _ _)

theorem receipt_due (hash : Hash) (k : Nat) :
    ((c.due v cancelAt start hash k).world.record (.lookedUp hash)).ask ⟨cancelAt, none⟩
        (c.writer.receipt hash) =
      (some (c.lookup v start hash k), c.worldAfter v cancelAt start hash (k + 1)) := by
  rw [World.ask_prompt _ cancelAt (h.receipt _ _)]
  simp only [World.record, due, worldAfter, lookup, Draws.heard, Draws.stateAfter,
    List.range_succ, List.map_append, List.map_cons, List.map_nil, List.append_assoc,
    Nat.add_sub_cancel]

variable (v cancelAt start) in
theorem moves_looked (hash : Hash) (k : Nat) :
    c.Moves ⟨cancelAt, none⟩ v
      (.looking hash (c.budgetAt (k + 1)), c.due v cancelAt start hash k)
      (Run.take (c.confirming v cancelAt start hash (k + 1))
        (looked v hash (c.budgetAt (k + 1)) (v.tradeId :: start.ledger) (c.lookup v start hash k))) :=
  Moves.looked _ hash _ _ _ (receipt_due h hash k)

variable (cancelAt) in
theorem moves_undecided {hash : Hash} {k : Nat} (hno : c.Undecided v start hash k)
    (hmore : k + 1 < c.confirmAttempts.toNat) :
    c.Moves ⟨cancelAt, none⟩ v
      (.looking hash (c.budgetAt (k + 1)), c.due v cancelAt start hash k)
      (.resting hash (c.budgetAt (k + 1)), c.confirming v cancelAt start hash (k + 1)) := by
  have hleft : (c.budgetAt (k + 1)).isExhausted = false := by
    rw [c.isExhausted_budgetAt (Nat.le_of_lt hmore)]
    exact decide_eq_false (Nat.ne_of_gt hmore)
  have hlooked := moves_looked v cancelAt start h hash k
  rw [looked_undecided v hno, hleft] at hlooked
  exact hlooked

end

theorem worldAfter_zero (hash : Hash) :
    c.worldAfter v cancelAt start hash 0 = c.handedOver v start := by
  simp only [worldAfter, handedOver, Nat.zero_sub, Times.dueAt_zero, timetable, List.range_zero,
    List.map_nil, List.append_nil, Draws.stateAfter]

theorem rest_of_uncut (hash : Hash) {k : Nat} (hk : ¬(c.timetable cancelAt start).Cut k) :
    (c.worldAfter v cancelAt start hash (k + 1)).sleep ⟨cancelAt, none⟩ c.confirmIntervalMs.toNat =
      (.ok, { c.worldAfter v cancelAt start hash (k + 1) with
        now := (c.timetable cancelAt start).dueAt (k + 1) }) := by
  have hslept := Timetable.sleep_of_uncut hk
  rw [World.sleep, worldAfter, Nat.add_sub_cancel]
  exact congrArg (fun slept => (slept.1, World.mk slept.2 _ _)) hslept

theorem rest_of_fired (hash : Hash) {k instant : Nat} (hi : cancelAt = some instant)
    (hfrom : (c.timetable cancelAt start).dueAt k ≤ instant)
    (hto : instant < (c.timetable cancelAt start).dueAt (k + 1)) :
    (c.worldAfter v cancelAt start hash (k + 1)).sleep ⟨cancelAt, none⟩ c.confirmIntervalMs.toNat =
      (.cancelled, { c.worldAfter v cancelAt start hash (k + 1) with now := instant }) := by
  have hslept := Timetable.sleep_of_cut (t := c.timetable cancelAt start) hi (.inr hto)
  rw [Nat.max_eq_left hfrom] at hslept
  rw [World.sleep, worldAfter, Nat.add_sub_cancel]
  exact congrArg (fun slept => (slept.1, World.mk slept.2 _ _)) hslept

/-! ### The commit up to a lookup -/

theorem isCancelled_of_unfired (h : ∀ instant, cancelAt = some instant → start.world.now < instant) :
    (⟨cancelAt, none⟩ : Window).isCancelled start.world.now = false := by
  cases cancelAt with
  | none => rfl
  | some instant => exact decide_eq_false (Nat.not_le_of_lt (h instant rfl))

theorem open_of_held {cancelled : Bool} {l : Ledger} (hv : v.isCommittable = true)
    (hw : cancelled = false) (hl : v.tradeId ∈ l) :
    open_ v cancelled l = ⟨.returned (.error (.duplicateCommit v.tradeId)), l, []⟩ := by
  simp only [open_, hv, hw, Ledger.reserve?, Ledger.contains, hl, decide_true, if_true,
    not_true_eq_false, if_false, Bool.false_eq_true]

variable (cancelAt) in
structure Starts (c : Committer σ) (v : RiskVerdict) (start : Run σ) : Prop where
  prompt : c.writer.Prompt
  committable : v.isCommittable = true
  unfired : ∀ instant, cancelAt = some instant → start.world.now < instant
  free : v.tradeId ∉ start.ledger

theorem Starts.comes_answered (h : Starts cancelAt c v start) :
    c.Comes ⟨cancelAt, none⟩ v (.fresh, start)
      (Run.take { start with world := c.handedOver v start, ledger := v.tradeId :: start.ledger }
        (submitted v c.budget (v.tradeId :: start.ledger) (c.taken v start).1)) := by
  have hopened := Moves.reserved (c := c) h.committable (isCancelled_of_unfired h.unfired) h.free
  exact .tail (.single hopened) (Moves.answered _ _ _ (submit_prompt h.prompt))

section

variable {hash : Hash} (hn : (c.taken v start).1 = .ok hash)

include hn

theorem Starts.comes_advance (h : Starts cancelAt c v start) :
    c.Comes ⟨cancelAt, none⟩ v (.fresh, start)
      (advance hash c.budget, c.confirming v cancelAt start hash 0) := by
  have hcomes := h.comes_answered
  rw [hn] at hcomes
  rw [confirming, worldAfter_zero]
  exact hcomes

theorem Starts.comes_looking (h : Starts cancelAt c v start) {k : Nat}
    (hk : (c.timetable cancelAt start).Begins (c.Undecided v start hash) k) :
    c.Comes ⟨cancelAt, none⟩ v (.fresh, start)
      (.looking hash (c.budgetAt (k + 1)), c.due v cancelAt start hash k) := by
  induction k with
  | zero =>
    have hcomes := h.comes_advance hn
    have hfirst : advance hash c.budget = .looking hash (c.budgetAt 1) :=
      c.advance_of_inBudget hash hk.inBudget
    rw [hfirst] at hcomes
    exact hcomes
  | succ k ih =>
    have hlooked := moves_undecided cancelAt h.prompt
      (hk.undecided k (Nat.lt_succ_self k)) hk.inBudget
    have hrested := Moves.rested (c := c) (v := v) (c.confirming v cancelAt start hash (k + 1)) hash
      (c.budgetAt (k + 1)) _ _ (rest_of_uncut hash (hk.uncut k (Nat.lt_succ_self k))) (by decide)
    have hnext := c.advance_of_inBudget hash hk.inBudget
    simp only [rested, Run.take, hnext] at hrested
    exact ((ih hk.before).tail hlooked).tail hrested

theorem Starts.comes_of_ends (h : Starts cancelAt c v start) {result : Result} {r : Run σ}
    (he : c.Ends v cancelAt start hash result r) :
    c.Comes ⟨cancelAt, none⟩ v (.fresh, start) (.returned result, r) := by
  have hlooks (k : Nat) := moves_looked v cancelAt start h.prompt hash k
  cases he with
  | succeeded k receipt hk hr hs =>
    have hlast := hlooks k
    rw [hr, looked_mined, hs] at hlast
    exact (h.comes_looking hn hk).tail hlast
  | reverted k receipt hk hr hs =>
    have hlast := hlooks k
    rw [hr, looked_mined, hs, Ledger.release_reserved h.free] at hlast
    exact (h.comes_looking hn hk).tail hlast
  | cut k instant hk hno hmore hi hfrom hto =>
    have hlast := moves_undecided cancelAt h.prompt hno hmore
    have hrested := Moves.rested (c := c) (v := v) (c.confirming v cancelAt start hash (k + 1)) hash
      (c.budgetAt (k + 1)) _ _ (rest_of_fired hash hi hfrom hto) (by decide)
    exact ((h.comes_looking hn hk).tail hlast).tail hrested
  | spent hno huncut =>
    cases hattempts : c.confirmAttempts.toNat with
    | zero =>
      have hmax : c.confirmAttempts = 0 := UInt32.toNat_inj.mp hattempts
      have hnone : advance hash c.budget = .returned (timedOut hash c.budget) := by
        rw [advance, budget, hmax]
        rfl
      have hcomes := h.comes_advance hn
      rw [hnone, timedOut, budget, hmax] at hcomes
      rw [hmax]
      exact hcomes
    | succ k =>
      have hk : (c.timetable cancelAt start).Begins (c.Undecided v start hash) k := by
        refine ⟨?_, fun j hj => hno j (by omega), fun j hj => huncut j (by omega)⟩
        rw [timetable, hattempts]
        exact Nat.lt_succ_self k
      have hdone : (c.budgetAt (k + 1)).isExhausted = true := by
        rw [c.isExhausted_budgetAt (Nat.le_of_eq hattempts.symm)]
        exact decide_eq_true hattempts
      have hmade : (c.budgetAt (k + 1)).attempts = c.confirmAttempts := by
        rw [budgetAt, ← hattempts, UInt32.ofNat_toNat]
      have hlast := hlooks k
      rw [looked_undecided v (hno k (by omega)), hdone, if_pos rfl, timedOut, hmade] at hlast
      exact (h.comes_looking hn hk).tail hlast

end

variable (c v start) in
theorem exists_ends (hash : Hash)
    (hc : ∀ instant, cancelAt = some instant → start.world.now < instant) :
    ∃ result r, c.Ends v cancelAt start hash result r := by
  obtain ⟨k, hk, hstop⟩ | ⟨hno, huncut⟩ :=
    (c.timetable cancelAt start).exists_stop (c.Undecided v start hash)
  · obtain hdecides | ⟨hno, hmore, instant, hi, hcut⟩ := hstop
    · obtain ⟨receipt, hr⟩ : ∃ receipt, c.lookup v start hash k = .ok (some receipt) := by
        simpa [Undecided] using hdecides
      cases hs : receipt.succeeded with
      | true => exact ⟨_, _, .succeeded k receipt hk hr hs⟩
      | false => exact ⟨_, _, .reverted k receipt hk hr hs⟩
    · obtain ⟨hfrom, hto⟩ := hk.fires_within hi (hc instant hi) hcut
      exact ⟨_, _, .cut k instant hk hno hmore hi hfrom hto⟩
  · exact ⟨_, _, .spent hno huncut⟩

theorem commit_of_held (hv : v.isCommittable = true)
    (hc : ∀ instant, cancelAt = some instant → start.world.now < instant)
    (hheld : v.tradeId ∈ start.ledger) :
    c.commit ⟨cancelAt, none⟩ v start = (some (.error (.duplicateCommit v.tradeId)), start) := by
  have hopened := Moves.opened (c := c) (w := ⟨cancelAt, none⟩) (v := v) start
  rw [open_of_held hv (isCancelled_of_unfired hc) hheld] at hopened
  exact (c.commit_eq_iff_comes _ v start _ _).mpr (.single hopened)

theorem Starts.commit_of_refused (h : Starts cancelAt c v start) {e : AuditError}
    (he : (c.taken v start).1 = .error e) :
    c.commit ⟨cancelAt, none⟩ v start =
      (some (.error e), { start with world := c.handedOver v start }) := by
  have hcomes := h.comes_answered
  rw [he, submitted, Ledger.release_reserved h.free] at hcomes
  exact (c.commit_eq_iff_comes _ v start _ _).mpr hcomes

theorem Starts.commit_of_ends (h : Starts cancelAt c v start) {hash : Hash}
    (hn : (c.taken v start).1 = .ok hash) {result : Result} {r : Run σ}
    (he : c.Ends v cancelAt start hash result r) :
    c.commit ⟨cancelAt, none⟩ v start = (some result, r) :=
  (c.commit_eq_iff_comes _ v start _ _).mpr (h.comes_of_ends hn he)

/-- On a writer that answers at once, a commit is what the answers and the signal make of it. A trade
id that is taken is refused, and one whose submission fails is free again. Else the receipt is looked
up an interval apart, until a mined transaction decides, the signal cuts a rest off, or the lookups
are spent; only a reverted transaction frees the trade id. -/
theorem commit_follows_answers (c : Committer σ) (v : RiskVerdict) (cancelAt : Option Nat)
    (start : Run σ) (hp : c.writer.Prompt) (hv : v.isCommittable = true)
    (hc : ∀ instant, cancelAt = some instant → start.world.now < instant) :
    (v.tradeId ∈ start.ledger →
      c.commit ⟨cancelAt, none⟩ v start = (some (.error (.duplicateCommit v.tradeId)), start)) ∧
    (v.tradeId ∉ start.ledger →
      (∀ e, (c.taken v start).1 = .error e →
        c.commit ⟨cancelAt, none⟩ v start =
          (some (.error e), { start with world := c.handedOver v start })) ∧
      ∀ hash, (c.taken v start).1 = .ok hash →
        (∃ result r, c.Ends v cancelAt start hash result r) ∧
        ∀ result r, c.Ends v cancelAt start hash result r →
          c.commit ⟨cancelAt, none⟩ v start = (some result, r)) := by
  refine ⟨commit_of_held hv hc, fun hfree => ?_⟩
  have hstarts : Starts cancelAt c v start := ⟨hp, hv, hc, hfree⟩
  exact ⟨fun e he => hstarts.commit_of_refused he, fun hash hn =>
    ⟨exists_ends c v start hash hc, fun result r hends => hstarts.commit_of_ends hn hends⟩⟩

def reverting : Committer Nat where
  writer :=
    { submit := fun _ => Ask.pure (.ok ⟨9⟩)
      receipt := fun hash => Ask.now fun n =>
        (if n = 0 then .error (.transport "http://node" "connection refused")
          else if n = 1 then .ok none else .ok (some ⟨hash, some 4, some 0⟩), n + 1) }
  protocol := .v1
  confirmAttempts := 5
  confirmIntervalMs := 2000

theorem reverting_commit_follows_answers :
    let v : RiskVerdict := .ofMask ⟨7, .zero, 0⟩ ⟨2025, 1, 1, 0, 0⟩ .clean
    let start : Run Nat := ⟨World.start 100 0, [3], Stream.empty⟩
    let ran := reverting.commit ⟨some 5000, none⟩ v start
    ran.1 = some (.error (.upstream "receiving-contract" 0
      s!"verdict transaction {Hash.hex ⟨9⟩} reverted")) ∧
    ran.2.ledger = [3] ∧ ran.2.world = ⟨4100, [(100, .submitted (reverting.calldata v)),
      (100, .lookedUp ⟨9⟩), (2100, .lookedUp ⟨9⟩), (4100, .lookedUp ⟨9⟩)], 3⟩ := by
  intro v start ran
  have hunfired : ∀ instant, some 5000 = some instant → start.world.now < instant := by
    rintro _ ⟨⟩
    decide
  have hbegins : (reverting.timetable (some 5000) start).Begins (reverting.Undecided v start ⟨9⟩) 2 := by
    refine ⟨by decide, fun j hj => ?_, fun j hj => ?_⟩
    all_goals obtain rfl | rfl : j = 0 ∨ j = 1 := by omega
    · exact nofun
    · exact nofun
    · rintro ⟨_, ⟨⟩, hcut⟩
      exact absurd hcut (by decide)
    · rintro ⟨_, ⟨⟩, hcut⟩
      exact absurd hcut (by decide)
  have hends : reverting.Ends v (some 5000) start ⟨9⟩ _ _ :=
    .reverted 2 ⟨⟨9⟩, some 4, some 0⟩ hbegins rfl rfl
  have hran := ((commit_follows_answers reverting v (some 5000) start
    ⟨fun _ _ => rfl, fun _ _ => rfl⟩ rfl hunfired).2 (by decide)).2 ⟨9⟩ rfl |>.2 _ _ hends
  have hresult : ran = _ := hran
  rw [hresult]
  exact ⟨rfl, rfl, rfl⟩

/-! ### How long a commit takes -/

def longest (c : Committer σ) : Nat :=
  (max c.confirmAttempts.toNat 1 - 1) * c.confirmIntervalMs.toNat

theorem dueAt_le {k : Nat} (hk : k + 1 ≤ max c.confirmAttempts.toNat 1) :
    (c.timetable cancelAt start).dueAt k ≤ start.world.now + c.longest := by
  have hrests : k ≤ max c.confirmAttempts.toNat 1 - 1 := Nat.le_sub_of_add_le hk
  exact Nat.add_le_add_left (Nat.mul_le_mul_right _ hrests) _

theorem Ends.now_le {hash : Hash} {result : Result} {r : Run σ}
    (h : c.Ends v cancelAt start hash result r) : r.world.now ≤ start.world.now + c.longest := by
  cases h with
  | succeeded k receipt hk | reverted k receipt hk =>
    exact dueAt_le (Nat.le_trans hk.inBudget (Nat.le_max_left _ _))
  | cut k instant hk hno hmore hi hfrom hto =>
    exact Nat.le_trans (Nat.le_of_lt hto) (dueAt_le (Nat.le_trans hmore (Nat.le_max_left _ _)))
  | spent hno huncut => exact dueAt_le (by omega)

variable (cancelAt start) in
theorem commit_returns (hp : c.writer.Prompt) (hv : v.isCommittable = true) :
    ∃ result r, c.commit ⟨cancelAt, none⟩ v start = (some result, r) ∧
      r.world.now ≤ start.world.now + c.longest := by
  cases hw : (⟨cancelAt, none⟩ : Window).isCancelled start.world.now with
  | true => exact ⟨_, _, c.commit_of_cancelled hv hw, Nat.le_add_right _ _⟩
  | false =>
    have hc : ∀ instant, cancelAt = some instant → start.world.now < instant := by
      rintro instant rfl
      exact Nat.lt_of_not_le (of_decide_eq_false hw)
    by_cases hheld : v.tradeId ∈ start.ledger
    · exact ⟨_, _, commit_of_held hv hc hheld, Nat.le_add_right _ _⟩
    · have hstarts : Starts cancelAt c v start := ⟨hp, hv, hc, hheld⟩
      cases hanswer : (c.taken v start).1 with
      | error e => exact ⟨_, _, hstarts.commit_of_refused hanswer, Nat.le_add_right _ _⟩
      | ok hash =>
        obtain ⟨result, r, hends⟩ := exists_ends c v start hash hc
        exact ⟨result, r, hstarts.commit_of_ends hanswer hends, hends.now_le⟩

end Committer

end TokenAudit
