import Mathlib.Algebra.Group.Nat.Defs
import Mathlib.Data.List.Nodup
import Mathlib.Logic.Function.Basic
import TokenAudit.Proofs.Rpc.Results

/-! The calls that a client and its copies have under way side by side. They share one counter and
one network, and each is answered in its own time or never. -/

namespace TokenAudit.Rpc

structure Query where
  method : String
  params : Json

/-- What the copies of a client share, with the requests that they have sent. -/
structure Line (τ : Type) where
  counter : Counter
  sent : List Web.Request
  network : τ

namespace Line

variable {τ : Type}

def draw (l : Line τ) : Int64 × Line τ :=
  (l.counter.draw.1, { l with counter := l.counter.draw.2 })

def kept (net : Web.Network τ) : Web.Network (Line τ) := fun r l =>
  let (reply, s) := net r l.network
  (⟨reply.delay, fun l => let (a, s) := reply.draw l.network; (a, { l with network := s })⟩,
    { l with sent := l.sent ++ [r], network := s })

def client (address : String) (net : Web.Network τ) : Client (Line τ) :=
  .ofAddress address (kept net) draw

end Line

namespace Client

variable {σ : Type}

def issue (c : Client σ) (q : Query) (s : σ) :
    Int64 × Reply σ (Except Web.Fault Web.Answer) × σ :=
  let (id, s) := c.nextId s
  let r := Web.request? .post c.endpoint [] none (some (request q.method q.params id).toJson)
  (id, Web.send c.network r s)

theorem call_eq_issue (c : Client σ) (q : Query) (s : σ) :
    c.call q.method q.params s =
      let (id, reply, s) := c.issue q s
      (⟨reply.delay, fun s =>
        let (outcome, s) := reply.draw s
        (Exchange.result c.endpoint q.method ⟨id, outcome⟩, s)⟩, s) :=
  rfl

end Client

/-- A call not yet begun, one that waits under its number, or one that has been answered. -/
inductive Errand (σ : Type) where
  | fresh
  | waiting (id : Int64) (reply : Reply σ (Except Web.Fault Web.Answer))
  | answered (x : Exchange)

def Errand.id? {σ : Type} : Errand σ → Option Int64
  | fresh => none
  | waiting id _ => some id
  | answered x => some x.id

def Errand.answer? {σ : Type} : Errand σ → Option (Int64 × Web.Answer)
  | answered ⟨id, .ok a⟩ => some (id, a)
  | _ => none

theorem Errand.eq_answered {σ : Type} {e : Errand σ} {id : Int64} {a : Web.Answer}
    (h : e.answer? = some (id, a)) : e = .answered ⟨id, .ok a⟩ := by
  unfold answer? at h
  split at h
  · cases h
    rfl
  · cases h

structure Switchboard (ι τ : Type) where
  line : Line τ
  begun : List ι
  errands : ι → Errand (Line τ)

namespace Switchboard

inductive Move (ι : Type) where
  | issue (i : ι)
  | answer (i : ι)

variable {ι τ : Type} [DecidableEq ι]

def opened (s : τ) : Switchboard ι τ := ⟨⟨.start, [], s⟩, [], fun _ => .fresh⟩

def move (c : Client (Line τ)) (queries : ι → Query) (b : Switchboard ι τ) :
    Move ι → Switchboard ι τ
  | .issue i =>
    match b.errands i with
    | .fresh =>
      let (id, reply, line) := c.issue (queries i) b.line
      ⟨line, b.begun ++ [i], Function.update b.errands i (.waiting id reply)⟩
    | _ => b
  | .answer i =>
    match b.errands i with
    | .waiting id reply =>
      let (outcome, line) := reply.draw b.line
      { b with line := line, errands := Function.update b.errands i (.answered ⟨id, outcome⟩) }
    | _ => b

def run (c : Client (Line τ)) (queries : ι → Query) (b : Switchboard ι τ) (moves : List (Move ι)) :
    Switchboard ι τ :=
  moves.foldl (move c queries) b

end Switchboard

/-! ### Numbers -/

def numberOf (k : Nat) : Int64 := Counter.start.next + Int64.ofNat k

theorem numberOf_succ (k : Nat) : numberOf k + 1 = numberOf (k + 1) := by
  have hone : (1 : Int64) = Int64.ofNat 1 := rfl
  rw [numberOf, numberOf, Int64.ofNat_add, Int64.add_assoc, hone]

theorem numberOf_inj {k l : Nat} (hk : k < 2 ^ 64) (hl : l < 2 ^ 64)
    (h : numberOf k = numberOf l) : k = l := by
  -- The counter comes round after all numbers of 64 bits.
  have hbits := congrArg (fun n : Int64 => n.toBitVec.toNat) ((Int64.add_right_inj _).mp h)
  simpa only [Int64.toBitVec_ofNat', BitVec.toNat_ofNat, Nat.mod_eq_of_lt hk,
    Nat.mod_eq_of_lt hl] using hbits

theorem isInt64_toInt (n : Int64) : Numeral.isInt64 n.toInt = true := by
  have hlt : n.toInt < 2 ^ 63 := n.toInt_lt
  have hle : -2 ^ 63 ≤ n.toInt := n.le_toInt
  have hbound : Int.ofNat Numeral.int64Bound = 2 ^ 63 := rfl
  unfold Numeral.isInt64
  rw [hbound]
  simp only [Bool.and_eq_true, decide_eq_true_eq]
  exact ⟨hle, hlt⟩

def carriedId (r : Web.Request) : Option Id := (r.body.bind (Json.get? "id")).bind Id.ofJson?

theorem carriedId_of_body {r : Web.Request} {q : Query} {id : Int64}
    (h : r.body = some (request q.method q.params id).toJson) :
    carriedId r = some (.number id.toInt) := by
  have hfield : (request q.method q.params id).toJson.get? "id" = some (.int id.toInt) := rfl
  rw [carriedId, h, Option.bind_some, hfield, Option.bind_some]
  exact if_pos (isInt64_toInt id)

/-! ### Steps -/

theorem request?_body {m : Web.Method} {address : String} {apiKey : Option String}
    {body : Option Json} {r : Web.Request} (h : Web.request? m address [] apiKey body = .ok r) :
    r.body = body := by
  unfold Web.request? at h
  split at h
  · cases h
  · split at h
    · cases h
    · split at h
      · cases h
      · simp only [↓reduceIte] at h
        split at h
        · exact Except.ok.inj h ▸ rfl
        · cases h

def Posted (sent : List Web.Request) (q : Query) (id : Int64) : Prop :=
  ∃ r ∈ sent, r.body = some (request q.method q.params id).toJson

variable {ι τ : Type} {address : String} {net : Web.Network τ} {q : Query} {id : Int64}

structure Pending (requests : List Web.Request) (q : Query) (id : Int64)
    (reply : Reply (Line τ) (Except Web.Fault Web.Answer)) : Prop where
  counter : ∀ l, (reply.draw l).2.counter = l.counter
  sent : ∀ l, (reply.draw l).2.sent = l.sent
  posted : ∀ l a, (reply.draw l).1 = .ok a → Posted requests q id

theorem issue_client (address : String) (net : Web.Network τ) (q : Query) (l : Line τ) :
    ∃ reply after, (Line.client address net).issue q l = (l.counter.next, reply, after) ∧
      after.counter.next = l.counter.next + 1 ∧
      (after.sent = l.sent ∨ ∃ r, after.sent = l.sent ++ [r] ∧
        r.body = some (request q.method q.params l.counter.next).toJson) ∧
      Pending after.sent q l.counter.next reply := by
  let c := Line.client address net
  cases hr : Web.request? .post c.endpoint [] none
      (some (request q.method q.params l.counter.next).toJson) with
  | error fault =>
    have hissue : c.issue q l =
        (l.counter.next, Web.send c.network (.error fault) l.draw.2) := by
      rw [← hr]
      rfl
    exact ⟨_, _, hissue, rfl, .inl rfl, fun _ => rfl, fun _ => rfl, nofun⟩
  | ok r =>
    have hissue : c.issue q l = (l.counter.next, Web.send c.network (.ok r) l.draw.2) := by
      rw [← hr]
      rfl
    have hbody := request?_body hr
    exact ⟨_, _, hissue, rfl, .inr ⟨r, rfl, hbody⟩, fun _ => rfl, fun _ => rfl,
      fun _ _ _ => ⟨r, List.mem_append_right _ (List.mem_singleton_self r), hbody⟩⟩

theorem Posted.append {sent more : List Web.Request} (h : Posted sent q id) :
    Posted (sent ++ more) q id :=
  h.imp fun _ hr => ⟨List.mem_append_left more hr.1, hr.2⟩

theorem Pending.append {sent more : List Web.Request}
    {reply : Reply (Line τ) (Except Web.Fault Web.Answer)} (h : Pending sent q id reply) :
    Pending (sent ++ more) q id reply :=
  ⟨h.counter, h.sent, fun l a ha => (h.posted l a ha).append⟩

namespace Switchboard

variable [DecidableEq ι] {queries : ι → Query} {b : Switchboard ι τ}

/-- The calls that have begun are numbered in their order, and each request is that of one of
them. -/
structure Sound (queries : ι → Query) (b : Switchboard ι τ) : Prop where
  counter : b.line.counter.next = numberOf b.begun.length
  numbered : ∀ i, (b.errands i).id? =
    if i ∈ b.begun then some (numberOf (b.begun.idxOf i)) else none
  carried : (b.line.sent.map carriedId).Sublist
    ((List.range b.begun.length).map fun k => some (.number (numberOf k).toInt))
  owned : ∀ r ∈ b.line.sent, ∃ i id, (b.errands i).id? = some id ∧
    r.body = some (request (queries i).method (queries i).params id).toJson
  waiting : ∀ i id reply, b.errands i = .waiting id reply →
    Pending b.line.sent (queries i) id reply
  answered : ∀ i x a, b.errands i = .answered x → x.outcome = .ok a →
    Posted b.line.sent (queries i) x.id

theorem sound_opened (queries : ι → Query) (s : τ) : (opened s).Sound queries where
  counter := rfl
  numbered _ := rfl
  carried := .refl _
  owned := nofun
  waiting := nofun
  answered := nofun

theorem Sound.not_mem_of_fresh (h : b.Sound queries) {i : ι} (hi : b.errands i = .fresh) :
    i ∉ b.begun := by
  intro hmem
  have hid := h.numbered i
  rw [hi, if_pos hmem] at hid
  cases hid

structure Issues (queries : ι → Query) (b v : Switchboard ι τ) (i : ι)
    (reply : Reply (Line τ) (Except Web.Fault Web.Answer)) : Prop where
  begun : v.begun = b.begun ++ [i]
  own : v.errands i = .waiting b.line.counter.next reply
  others : ∀ j, j ≠ i → v.errands j = b.errands j
  counter : v.line.counter.next = b.line.counter.next + 1
  sent : v.line.sent = b.line.sent ∨ ∃ r, v.line.sent = b.line.sent ++ [r] ∧
    r.body = some (request (queries i).method (queries i).params b.line.counter.next).toJson
  pending : Pending v.line.sent (queries i) b.line.counter.next reply

structure Hears (b v : Switchboard ι τ) (i : ι) (x : Exchange) : Prop where
  begun : v.begun = b.begun
  own : v.errands i = .answered x
  others : ∀ j, j ≠ i → v.errands j = b.errands j
  counter : v.line.counter = b.line.counter
  sent : v.line.sent = b.line.sent

theorem issues_move (queries : ι → Query) (address : String) (net : Web.Network τ) {i : ι}
    (hi : b.errands i = .fresh) :
    ∃ reply, b.Issues queries (b.move (Line.client address net) queries (.issue i)) i reply := by
  obtain ⟨reply, after, hissue, hnext, hsent, hpending⟩ :=
    issue_client address net (queries i) b.line
  have hmove : b.move (Line.client address net) queries (.issue i) =
      ⟨after, b.begun ++ [i],
        Function.update b.errands i (.waiting b.line.counter.next reply)⟩ := by
    simp only [move, hi, hissue]
  rw [hmove]
  exact ⟨reply, rfl, Function.update_self .., fun j hj => Function.update_of_ne hj .., hnext, hsent,
    hpending⟩

theorem hears_move (h : b.Sound queries) (c : Client (Line τ)) {i : ι} {id : Int64}
    {reply : Reply (Line τ) (Except Web.Fault Web.Answer)} (hi : b.errands i = .waiting id reply) :
    b.Hears (b.move c queries (.answer i)) i ⟨id, (reply.draw b.line).1⟩ := by
  have hmove : b.move c queries (.answer i) =
      ⟨(reply.draw b.line).2, b.begun,
        Function.update b.errands i (.answered ⟨id, (reply.draw b.line).1⟩)⟩ := by
    simp only [move, hi]
  have hpending := h.waiting i id reply hi
  rw [hmove]
  exact ⟨rfl, Function.update_self .., fun j hj => Function.update_of_ne hj ..,
    hpending.counter b.line, hpending.sent b.line⟩

section Issued

variable {v : Switchboard ι τ} {i : ι} {reply : Reply (Line τ) (Except Web.Fault Web.Answer)}

theorem Issues.own_id (hv : b.Issues queries v i reply) (h : b.Sound queries) :
    (v.errands i).id? = some (numberOf b.begun.length) := by
  rw [hv.own, ← h.counter]
  rfl

omit [DecidableEq ι] in
theorem Issues.past (hv : b.Issues queries v i reply) :
    ∃ more, v.line.sent = b.line.sent ++ more :=
  hv.sent.elim (fun h => ⟨[], h.trans (List.append_nil _).symm⟩) fun ⟨r, hr, _⟩ => ⟨[r], hr⟩

omit [DecidableEq ι] in
theorem Issues.length_begun (hv : b.Issues queries v i reply) :
    v.begun.length = b.begun.length + 1 := by
  rw [hv.begun, List.length_append]
  rfl

theorem Issues.numbered (hv : b.Issues queries v i reply) (h : b.Sound queries)
    (hi : b.errands i = .fresh) (j : ι) :
    (v.errands j).id? = if j ∈ v.begun then some (numberOf (v.begun.idxOf j)) else none := by
  rw [hv.begun]
  by_cases hj : j = i
  · subst hj
    rw [hv.own_id h, if_pos (List.mem_append_right _ (List.mem_singleton_self j)),
      List.idxOf_append_of_notMem (h.not_mem_of_fresh hi), List.idxOf_cons_self]
    rfl
  · have hmem : j ∈ b.begun ++ [i] ↔ j ∈ b.begun := by simp [hj]
    rw [hv.others j hj, h.numbered j]
    by_cases hold : j ∈ b.begun
    · rw [if_pos hold, if_pos (hmem.mpr hold), List.idxOf_append_of_mem hold]
    · rw [if_neg hold, if_neg (mt hmem.mp hold)]

theorem Issues.carried (hv : b.Issues queries v i reply) (h : b.Sound queries) :
    (v.line.sent.map carriedId).Sublist
      ((List.range v.begun.length).map fun k => some (.number (numberOf k).toInt)) := by
  rw [hv.length_begun, List.range_succ, List.map_append]
  obtain hsame | ⟨r, hr, hbody⟩ := hv.sent
  · rw [hsame]
    exact h.carried.trans (List.sublist_append_left _ _)
  · rw [hr, List.map_append, List.map_singleton, carriedId_of_body hbody, h.counter]
    exact h.carried.append (.refl _)

theorem Issues.owned (hv : b.Issues queries v i reply) (h : b.Sound queries)
    (hi : b.errands i = .fresh) : ∀ r ∈ v.line.sent, ∃ j id, (v.errands j).id? = some id ∧
      r.body = some (request (queries j).method (queries j).params id).toJson := by
  -- Whoever has sent a request is not fresh, so the new call takes no number away.
  have hold : ∀ r ∈ b.line.sent, ∃ j n, (v.errands j).id? = some n ∧
      r.body = some (request (queries j).method (queries j).params n).toJson := by
    intro r hr
    obtain ⟨j, n, hn, hbody⟩ := h.owned r hr
    have hj : j ≠ i := by
      rintro rfl
      rw [hi] at hn
      cases hn
    exact ⟨j, n, (congrArg Errand.id? (hv.others j hj)).trans hn, hbody⟩
  intro r hr
  obtain hsame | ⟨r', hr', hbody⟩ := hv.sent
  · exact hold r (hsame ▸ hr)
  · rw [hr'] at hr
    obtain hr | hr := List.mem_append.mp hr
    · exact hold r hr
    · rw [h.counter] at hbody
      exact ⟨i, _, hv.own_id h, List.mem_singleton.mp hr ▸ hbody⟩

theorem Sound.issues (h : b.Sound queries) (hi : b.errands i = .fresh)
    (hv : b.Issues queries v i reply) : v.Sound queries := by
  obtain ⟨more, hmore⟩ := hv.past
  refine ⟨?_, hv.numbered h hi, hv.carried h, hv.owned h hi, fun j n reply' hj => ?_,
    fun j x a hj ha => ?_⟩
  · rw [hv.counter, h.counter, numberOf_succ, hv.length_begun]
  · by_cases hij : j = i
    · subst hij
      cases hv.own.symm.trans hj
      exact hv.pending
    · rw [hv.others j hij] at hj
      exact hmore ▸ (h.waiting j n reply' hj).append
  · have hij : j ≠ i := by
      rintro rfl
      cases hv.own.symm.trans hj
    rw [hv.others j hij] at hj
    exact hmore ▸ (h.answered j x a hj ha).append

end Issued

theorem Sound.hears {v : Switchboard ι τ} (h : b.Sound queries) {i : ι} {id : Int64}
    {reply : Reply (Line τ) (Except Web.Fault Web.Answer)} (hi : b.errands i = .waiting id reply)
    (hv : b.Hears v i ⟨id, (reply.draw b.line).1⟩) : v.Sound queries := by
  obtain ⟨hbegun, hown, hothers, hcounter, hsent⟩ := hv
  have hid : ∀ j, (v.errands j).id? = (b.errands j).id? := by
    intro j
    by_cases hj : j = i
    · rw [hj, hown, hi]
      rfl
    · rw [hothers j hj]
  refine ⟨?_, fun j => ?_, ?_, fun r hr => ?_, fun j n reply' hj => ?_, fun j x a hj ha => ?_⟩
  · rw [hcounter, hbegun]
    exact h.counter
  · rw [hid, hbegun]
    exact h.numbered j
  · rw [hsent, hbegun]
    exact h.carried
  · obtain ⟨j, n, hn, hbody⟩ := h.owned r (hsent ▸ hr)
    exact ⟨j, n, (hid j).trans hn, hbody⟩
  · have hij : j ≠ i := by
      rintro rfl
      cases hown.symm.trans hj
    rw [hothers j hij] at hj
    exact hsent ▸ h.waiting j n reply' hj
  · by_cases hij : j = i
    · subst hij
      cases hown.symm.trans hj
      exact hsent ▸ (h.waiting j id reply hi).posted b.line a ha
    · rw [hothers j hij] at hj
      exact hsent ▸ h.answered j x a hj ha

theorem Sound.move (h : b.Sound queries) (address : String) (net : Web.Network τ) (m : Move ι) :
    (b.move (Line.client address net) queries m).Sound queries := by
  cases m with
  | issue i =>
    cases hi : b.errands i with
    | fresh =>
      obtain ⟨reply, hv⟩ := issues_move queries address net hi
      exact h.issues hi hv
    | _ =>
      simp only [Switchboard.move, hi]
      exact h
  | answer i =>
    cases hi : b.errands i with
    | waiting id reply => exact h.hears hi (hears_move h _ hi)
    | _ =>
      simp only [Switchboard.move, hi]
      exact h

theorem Sound.run (h : b.Sound queries) (address : String) (net : Web.Network τ)
    (moves : List (Move ι)) : (b.run (Line.client address net) queries moves).Sound queries := by
  induction moves generalizing b with
  | nil => exact h
  | cons m moves ih => exact ih (h.move address net m)

/-! ### Answers and their calls -/

theorem Sound.ids_nodup (h : b.Sound queries) (hn : b.begun.length ≤ 2 ^ 64) :
    (b.line.sent.map carriedId).Nodup := by
  refine h.carried.nodup (List.nodup_range.map_on fun k hk l hl heq => ?_)
  have hlt : ∀ m ∈ List.range b.begun.length, m < 2 ^ 64 := fun m hm =>
    Nat.lt_of_lt_of_le (List.mem_range.mp hm) hn
  have hint := Id.number.inj (Option.some.inj heq)
  exact numberOf_inj (hlt k hk) (hlt l hl) (Int64.toInt_inj.mp hint)

theorem Sound.mem_begun (h : b.Sound queries) {i : ι} {n : Int64}
    (hi : (b.errands i).id? = some n) :
    i ∈ b.begun ∧ n = numberOf (b.begun.idxOf i) := by
  rw [h.numbered i] at hi
  by_cases hmem : i ∈ b.begun
  · rw [if_pos hmem] at hi
    exact ⟨hmem, (Option.some.inj hi).symm⟩
  · rw [if_neg hmem] at hi
    cases hi

theorem Sound.id_inj (h : b.Sound queries) (hn : b.begun.length ≤ 2 ^ 64) {i j : ι} {n : Int64}
    (hi : (b.errands i).id? = some n) (hj : (b.errands j).id? = some n) : i = j := by
  obtain ⟨hi, hni⟩ := h.mem_begun hi
  obtain ⟨hj, hnj⟩ := h.mem_begun hj
  have hidx := numberOf_inj (Nat.lt_of_lt_of_le (List.idxOf_lt_length_of_mem hi) hn)
    (Nat.lt_of_lt_of_le (List.idxOf_lt_length_of_mem hj) hn) (hni.symm.trans hnj)
  exact (List.idxOf_inj hi).mp hidx

/-- However the calls of a client and its copies overlap, no two requests carry one number as long
as the counter has not come round. A call returns a result exactly if its answer is a success with
an envelope that bears the call's own number and no error, and nothing of an answer under another
call's number; it fails with the status of its answer, or without one. A null result is a receipt
still to come, and an error where logs or a hash are read. -/
theorem answers_match_calls (address : String) (net : Web.Network τ) (queries : ι → Query) (s : τ)
    (moves : List (Move ι))
    (hn : ((opened s).run (Line.client address net) queries moves).begun.length ≤ 2 ^ 64) :
    let c := Line.client address net
    let b := (opened s).run c queries moves
    (b.line.sent.map carriedId).Nodup ∧
    (∀ r ∈ b.line.sent, ∃ i id, (b.errands i).id? = some id ∧
      r.body = some (request (queries i).method (queries i).params id).toJson) ∧
    (∀ i x, b.errands i = .answered x →
      let result := x.result c.endpoint (queries i).method
      (∀ a, x.outcome = .ok a → Posted b.line.sent (queries i) x.id) ∧
      (∀ j, result = .ok j ↔ ∃ a r, x.outcome = .ok a ∧ Web.isSuccess a.status = true ∧
        response? a = some r ∧ r.id = some (.number x.id.toInt) ∧ r.fault = none ∧
        r.result.getD .null = j) ∧
      (∀ k n a r, k ≠ i → (b.errands k).id? = some n → x.outcome = .ok a →
        response? a = some r → r.id = some (.number n.toInt) →
          ∃ reason, result = .error (.upstream providerName a.status reason)) ∧
      (∀ e, result = .error e →
        (∃ a reason, x.outcome = .ok a ∧ e = .upstream providerName a.status reason) ∨
          ∃ fault reason, x.outcome = .error fault ∧ e = .transport c.endpoint reason)) ∧
    (∀ q l, c.call q.method q.params l =
      let (id, reply, l) := c.issue q l
      (⟨reply.delay, fun l =>
        let (outcome, l) := reply.draw l
        (Exchange.result c.endpoint q.method ⟨id, outcome⟩, l)⟩, l)) ∧
    (∀ h l l', ((c.receipt h l).1.draw l').1 = .ok none ↔
      ((c.call "eth_getTransactionReceipt" (.arr [.ofHash h]) l).1.draw l').1 = .ok .null) ∧
    (∀ f l l', ((c.call "eth_getLogs" (.arr [f.toJson]) l).1.draw l').1 = .ok .null →
      ∃ reason, ((c.logs f l).1.draw l').1 = .error (.upstream providerName 200 reason)) ∧
    (∀ sender target data l l', ((c.call "eth_sendTransaction"
        (.arr [Transaction.toJson ⟨sender, target, data, 0⟩]) l).1.draw l').1 = .ok .null →
      ∃ reason, ((c.send sender target data l).1.draw l').1 =
        .error (.upstream providerName 200 reason)) := by
  intro c b
  have hb : b.Sound queries := (sound_opened queries s).run address net moves
  refine ⟨hb.ids_nodup hn, hb.owned, fun i x hi => ?_, c.call_eq_issue, c.receipt_eq_none_iff,
    c.logs_of_null, c.send_of_null⟩
  refine ⟨fun a => hb.answered i x a hi, fun j => result_eq_ok_iff, ?_, fun e => result_eq_error⟩
  intro k n a r hk hkn ha hr hrn
  refine result_of_foreign ha hr fun hx => hk ?_
  have hsame : n = x.id := by
    rw [hrn] at hx
    exact Int64.toInt_inj.mp (Id.number.inj (Option.some.inj hx))
  exact hb.id_inj hn hkn (hsame ▸ congrArg Errand.id? hi)

section Crossed

def answerToTwo : Web.Answer :=
  ⟨200, Text.bytes (Response.toJson ⟨"2.0", some (.str "0x"), none, some (.number 2)⟩).renderChars⟩

def crossed : Switchboard Bool Unit :=
  (opened ()).run (Line.client "http://node" fun _ => Ask.pure (.ok answerToTwo))
    (fun _ => ⟨"eth_getCode", .arr []⟩) [.issue false, .issue true, .answer true, .answer false]

theorem crossed_answer_is_refused :
    crossed.begun.length ≤ 2 ^ 64 ∧ (crossed.line.sent.map carriedId).Nodup ∧
    ∃ x y, crossed.errands false = .answered x ∧ crossed.errands true = .answered y ∧
      (∃ reason, x.result "http://node" "eth_getCode" =
        .error (.upstream providerName 200 reason)) ∧
      ∃ j, y.result "http://node" "eth_getCode" = .ok j := by
  have hn : crossed.begun.length ≤ 2 ^ 64 := by decide +kernel
  have hfirst : crossed.errands false = .answered ⟨1, .ok answerToTwo⟩ :=
    Errand.eq_answered (by decide +kernel)
  have hsecond : crossed.errands true = .answered ⟨2, .ok answerToTwo⟩ :=
    Errand.eq_answered (by decide +kernel)
  obtain ⟨r, hr, hid, hfault⟩ : ∃ r, response? answerToTwo = some r ∧ r.id = some (.number 2) ∧
      r.fault.isNone = true := by
    have hread : (response? answerToTwo).map (fun r => (r.id, r.fault.isNone)) =
        some (some (.number 2), true) := by decide +kernel
    obtain ⟨r, hr, hpair⟩ := Option.map_eq_some_iff.mp hread
    exact ⟨r, hr, congrArg Prod.fst hpair, congrArg Prod.snd hpair⟩
  obtain ⟨hnodup, -, hcalls, -⟩ := answers_match_calls "http://node"
    (fun _ => Ask.pure (.ok answerToTwo)) (fun _ : Bool => ⟨"eth_getCode", .arr []⟩) () _ hn
  refine ⟨hn, hnodup, _, _, hfirst, hsecond, ?_, r.result.getD .null, ?_⟩
  · exact (hcalls false _ hfirst).2.2.1 true 2 answerToTwo r nofun
      (congrArg Errand.id? hsecond) rfl hr hid
  · exact ((hcalls true _ hsecond).2.1 _).mpr
      ⟨answerToTwo, r, rfl, by decide, hr, hid, Option.isNone_iff_eq_none.mp hfault, rfl⟩

end Crossed

end Switchboard

end TokenAudit.Rpc
