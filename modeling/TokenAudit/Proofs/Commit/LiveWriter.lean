import TokenAudit.Proofs.Commit.Resend
import TokenAudit.Proofs.Commit.Schedule
import TokenAudit.Proofs.Rpc.Exchange
import TokenAudit.Rpc.Chain

/-! Commits through a node. A verdict is sent a second time exactly when the first one is released,
and a release is certain only where the node cannot have acted on the first. -/

namespace TokenAudit.Commit

open Rpc (Exchange)

def Reading.live (endpoint : String) : Reading Exchange Exchange where
  submission x := x.read endpoint "eth_sendTransaction" Json.readHash?
  lookup x := x.read endpoint "eth_getTransactionReceipt" (Json.nullable Rpc.Receipt.ofJson?)

theorem answers_live {σ : Type} (c : Rpc.Client σ) (sender target : Address) :
    Answers (ChainWriter.ofClient c sender target) (.live c.endpoint) :=
  ⟨fun _ _ _ => ⟨⟨_, _⟩, rfl⟩, fun _ _ _ => ⟨⟨_, _⟩, rfl⟩⟩

variable {ι : Type}

def Terms.live (endpoint : String) (verdict : ι → RiskVerdict) (protocol : Calldata.Protocol)
    (budget : Budget) : Terms ι Exchange Exchange :=
  ⟨verdict, protocol, budget, .live endpoint⟩

/-- Certainly without effect: never sent, refused by the node, or mined with the status zero. -/
def Dead (t : Terms ι Exchange Exchange) (h : List (Entry ι Exchange Exchange)) (i : ι) : Prop :=
  (∃ x, .answered i x ∈ h ∧ (x.Unsent ∨ x.Refused)) ∨
  ∃ x hash y r, List.Sublist [.answered i x, .lookedUp i hash y] h ∧
    t.reading.submission x = .ok hash ∧ t.reading.lookup y = .ok (some r) ∧ r.status = some 0

/-- Released although it may have taken effect: the node left open whether it acted, or the
receipt says neither success nor failure. -/
def Loose (t : Terms ι Exchange Exchange) (h : List (Entry ι Exchange Exchange)) (i : ι) : Prop :=
  (∃ x, .answered i x ∈ h ∧ x.Unsettled Json.readHash?) ∨
  ∃ x hash y r, List.Sublist [.answered i x, .lookedUp i hash y] h ∧
    t.reading.submission x = .ok hash ∧ t.reading.lookup y = .ok (some r) ∧
    r.status ≠ some 0 ∧ r.status ≠ some 1

section Kinds

variable {endpoint : String} {verdict : ι → RiskVerdict} {protocol : Calldata.Protocol}
  {budget : Budget} {h : List (Entry ι Exchange Exchange)} {i : ι}

theorem submission_error_iff (x : Exchange) :
    (∃ e, (Reading.live endpoint).submission x = .error e) ↔
      x.Unsent ∨ x.Refused ∨ x.Unsettled Json.readHash? :=
  Exchange.read_eq_error_iff endpoint "eth_sendTransaction" Json.readHash? x

theorem dead_or_loose_of_voided (hv : Voided (.live endpoint verdict protocol budget) h i) :
    Dead (.live endpoint verdict protocol budget) h i ∨
      Loose (.live endpoint verdict protocol budget) h i := by
  obtain ⟨x, e, hx, he⟩ | ⟨x, hash, y, r, hsub, hx, hr, hf⟩ := hv
  · obtain hu | hr | hu := (submission_error_iff x).mp ⟨e, he⟩
    · exact .inl (.inl ⟨x, hx, .inl hu⟩)
    · exact .inl (.inl ⟨x, hx, .inr hr⟩)
    · exact .inr (.inl ⟨x, hx, hu⟩)
  · have h1 : r.status ≠ some 1 := by simpa [Rpc.Receipt.succeeded] using hf
    by_cases h0 : r.status = some 0
    · exact .inl (.inr ⟨x, hash, y, r, hsub, hx, hr, h0⟩)
    · exact .inr (.inr ⟨x, hash, y, r, hsub, hx, hr, h0, h1⟩)

variable [DecidableEq ι] {d : Desk ι Exchange Exchange}

theorem not_loose_of_dead (hd : d.Sound (.live endpoint verdict protocol budget))
    (h : Dead (.live endpoint verdict protocol budget) d.history i) :
    ¬Loose (.live endpoint verdict protocol budget) d.history i := by
  -- One answer to the submission and one receipt are all that a call hears of its end.
  -- A submission that failed has no hash, so no receipt belongs to it.
  have failed : ∀ {x hash}, (x.Unsent ∨ x.Refused ∨ x.Unsettled Json.readHash?) →
      (Reading.live endpoint).submission x ≠ .ok hash := by
    intro x hash hx hok
    obtain ⟨e, he⟩ := (submission_error_iff x).mpr hx
    rw [hok] at he
    cases he
  rintro (⟨x', hx', hu⟩ | ⟨x', k', y', r', hsub', hok', hr', h0, -⟩)
  · obtain ⟨x, hx, hdead⟩ | ⟨x, k, y, r, hsub, hok, -⟩ := h
    · rw [hd.answer_unique hx hx'] at hdead
      exact hdead.elim hu.not_unsent hu.not_refused
    · have hx : .answered i x ∈ d.history := hsub.subset List.mem_cons_self
      rw [hd.answer_unique hx hx'] at hok
      exact failed (.inr (.inr hu)) hok
  · have hx' : .answered i x' ∈ d.history := hsub'.subset List.mem_cons_self
    have hy' : .lookedUp i k' y' ∈ d.history :=
      hsub'.subset (List.mem_cons_of_mem _ List.mem_cons_self)
    obtain ⟨x, hx, hdead⟩ | ⟨x, k, y, r, hsub, -, hr, hzero⟩ := h
    · rw [hd.answer_unique hx hx'] at hdead
      exact failed (hdead.imp_right .inl) hok'
    · have hy : .lookedUp i k y ∈ d.history :=
        hsub.subset (List.mem_cons_of_mem _ List.mem_cons_self)
      rw [hd.receipt_unique hy hr hy' hr'] at hzero
      exact h0 hzero

end Kinds

/-- A trade is sent again only after each earlier transaction of it is certainly without effect or
was released loosely, never both. The next call of a trade is sent as soon as an answer to the
submission is an error of any kind, or a receipt does not have the status one. -/
theorem resent_exactly_when_dead_or_loose [DecidableEq ι] (endpoint : String)
    (verdict : ι → RiskVerdict) (protocol : Calldata.Protocol) (budget : Budget) (l : Ledger)
    (ms : List (ι × Move Exchange Exchange)) :
    let t := Terms.live endpoint verdict protocol budget
    let d := t.run (.start l) ms
    (∀ before i c after, d.history = before ++ .handed i c :: after →
      ∀ j c', .handed j c' ∈ before → t.tradeId j = t.tradeId i →
        (Dead t before j ↔ ¬Loose t before j)) ∧
    (∀ i j x, d.stages i = .submitting → d.stages j = .fresh → t.tradeId j = t.tradeId i →
      (verdict j).isCommittable = true →
        (.handed j (t.calldata j) ∈ (t.run d [(i, .answer x), (j, .start false)]).history ↔
          x.Unsent ∨ x.Refused ∨ x.Unsettled Json.readHash?)) ∧
    (∀ i j hash b y, d.stages i = .looking hash b → d.stages j = .fresh →
      t.tradeId j = t.tradeId i → (verdict j).isCommittable = true →
        (.handed j (t.calldata j) ∈ (t.run d [(i, .lookup y), (j, .start false)]).history ↔
          ∃ r, t.reading.lookup y = .ok (some r) ∧ r.status ≠ some 1)) := by
  intro t d
  have sound : ∀ ns, Desk.Sound t (t.run (.start l) ns) :=
    fun ns => (Desk.sound_start t l).run ns
  refine ⟨?_, ?_, ?_⟩
  · intro before i c after h j c' hj hij
    obtain ⟨ns, rfl, hfree⟩ := free_of_handed t l ms h
    refine ⟨not_loose_of_dead (sound ns), fun hnot => ?_⟩
    exact (dead_or_loose_of_voided ((sound ns).voided_of_free hfree hj hij)).resolve_right hnot
  · intro i j x hi hj hij hv
    rw [resent_after_answer_iff (sound ms) hi hj hij hv]
    exact submission_error_iff x
  · intro i j hash b y hi hj hij hv
    rw [resent_after_lookup_iff (sound ms) hi hj hij hv]
    simp only [Rpc.Receipt.succeeded, decide_eq_false_iff_not, ne_eq]

section Late

def cleanVerdict : RiskVerdict := .ofMask ⟨7, .zero, 0⟩ ⟨2025, 1, 1, 0, 0⟩ .clean

def lateNode : Web.Network (Rpc.Counter × Nat) := fun _ s =>
  (⟨some 0, fun s => (.error .timedOut, s)⟩, (s.1, s.2 + 1))

def lateCommitter : Committer (Rpc.Counter × Nat) :=
  ⟨.ofClient (.ofAddress "http://node" lateNode fun s => (s.1.draw.1, (s.1.draw.2, s.2)))
    .zero .zero, .v1, 3, 1000⟩

theorem late_node_takes_a_trade_twice :
    let first := lateCommitter.commit .unbounded cleanVerdict ⟨.start 0 (.start, 0), [], .empty⟩
    let second := lateCommitter.commit .unbounded cleanVerdict first.2
    first.1 = some (.error (.transport "http://node" "'eth_sendTransaction' timed out")) ∧
      first.2.world.state.2 = 1 ∧ second.2.world.state.2 = 2 := by
  decide +kernel

def lateAnswer : Exchange :=
  ⟨1, .error (.lost ⟨['h', 't', 't', 'p'], some ['n'], none, ['/'], none, none⟩ .timedOut)⟩

theorem late_answer_is_not_dead :
    let t := Terms.live "http://n" (fun _ : Bool => cleanVerdict) .v1 (.fresh 3 1000)
    let d := t.run (.start []) [(false, .start false), (false, .answer lateAnswer),
      (true, .start false)]
    ∃ before after, d.history = before ++ .handed true (t.calldata true) :: after ∧
      .handed false (t.calldata false) ∈ before ∧ ¬Dead t before false := by
  intro t d
  have hloose : Loose t (d.history.take 3) false :=
    .inl ⟨lateAnswer, List.mem_cons_of_mem _ List.mem_cons_self, .lost _ _ _ nofun⟩
  have hhanded : .handed false (t.calldata false) ∈ d.history.take 3 := List.mem_cons_self
  refine ⟨d.history.take 3, [], rfl, hhanded, fun hdead => ?_⟩
  exact ((resent_exactly_when_dead_or_loose "http://n" (fun _ : Bool => cleanVerdict) .v1
    (.fresh 3 1000) [] [(false, .start false), (false, .answer lateAnswer),
      (true, .start false)]).1 _ _ _ _ rfl _ _ hhanded rfl).mp hdead hloose

end Late

end TokenAudit.Commit
