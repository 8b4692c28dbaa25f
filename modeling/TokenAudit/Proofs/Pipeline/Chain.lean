import TokenAudit.Proofs.Calldata.Codec
import TokenAudit.Proofs.Commit.Sending
import TokenAudit.Proofs.Pipeline.Course
import TokenAudit.Proofs.Stream.Transactions

/-! What reaches the chain is the verdict that is reported: the calldata of a run, its stream and its
result, whatever the writer answers. -/

namespace TokenAudit

theorem Call.not_isTransaction_of_ofDetector {c : Call} (h : c.ofDetector = true) :
    c.isTransaction = false := by
  cases c with
  | transactionSubmitted | transactionConfirmed => cases h
  | _ => rfl

theorem phaseRecords_of_transactions {p : Phase} {es : List Event}
    (h : ∀ e ∈ es, e.isTransaction = true) : phaseRecords p es = [] := by
  apply List.filterMap_eq_nil_iff.mpr
  intro e he
  have ht := h e he
  cases e with
  | transactionSubmitted | transactionConfirmed => rfl
  | _ => cases ht

namespace Committer

variable {σ : Type} {c : Committer σ} {w : Window} {v : RiskVerdict} {start : World σ CommitAct}
  {result : Option Commit.Result} {sent : List (Nat × Bytes)} {calls : List Call}

theorem Followed.isTransaction {hash : Hash} (h : Followed hash result calls) :
    ∀ d ∈ calls, d.isTransaction = true := by
  cases h <;> simp [Call.isTransaction]

theorem Sends.isTransaction (h : Sends c w v start result sent calls) :
    ∀ d ∈ calls, d.isTransaction = true := by
  cases h with
  | turnedAway | unanswered | refused => exact nofun
  | taken hash result calls hw hh hf =>
    exact List.forall_mem_cons.mpr ⟨rfl, hf.isTransaction⟩

theorem Sends.isTransaction_event (h : Sends c w v start result sent calls) :
    ∀ e ∈ calls.filterMap Call.event?, e.isTransaction = true := by
  intro e he
  obtain ⟨d, hd, hevent⟩ := List.mem_filterMap.mp he
  rw [Call.isTransaction_event hevent]
  exact h.isTransaction d hd

theorem Sends.sent_cases (h : Sends c w v start result sent calls) :
    sent = [] ∨ sent = [(start.now, c.calldata v)] ∧ w.isCancelled start.now = false := by
  cases h with
  | turnedAway => exact .inl rfl
  | unanswered hw | refused _ hw | taken _ _ _ hw => exact .inr ⟨rfl, hw⟩

theorem Sends.of_ok {receipt : CommitReceipt}
    (h : Sends c w v start (some (.ok receipt)) sent calls) :
    sent = [(start.now, c.calldata v)] ∧ ∃ hash block,
      ((start.record (.submitted (c.calldata v))).ask w
        (c.writer.submit (c.calldata v))).1 = some (.ok hash) ∧
      calls = [.transactionSubmitted hash.hex, .transactionConfirmed hash.hex block true] := by
  cases h with
  | taken hash _ _ hw hh hf =>
    cases hf with
    | confirmed block => exact ⟨rfl, hash, block, hh, rfl⟩

theorem Sends.of_failed (h : Sends c w v start result sent calls) {front back : List Event}
    {text : String} {block : Option UInt64} (hsplit : calls.filterMap Call.event? =
      front ++ .transactionConfirmed text block false :: back) :
    back = [] ∧ ∃ e, result = some (.error e) := by
  have hmem : .transactionConfirmed text block false ∈ calls.filterMap Call.event? := by
    rw [hsplit]
    exact List.mem_append_right _ List.mem_cons_self
  cases h with
  | turnedAway | unanswered | refused => cases hmem
  | taken hash result calls hw hh hf =>
    cases hf with
    | waiting | gaveUp | confirmed => simp [Call.event?] at hmem
    | reverted block e =>
      refine ⟨?_, e, rfl⟩
      rcases front with _ | ⟨_, _ | ⟨_, front⟩⟩
      · cases hsplit
      · cases hsplit
        rfl
      · simp [Call.event?] at hsplit

end Committer

namespace Pipeline

open Committer (Sends submissions)

variable {σ : Type}

/-! ### Runs before their commit -/

theorem isTransaction_judgement (p : Pipeline σ) (t : RunTerms) (token : Address) (a : Audit σ) :
    ∀ c ∈ p.judgement t token a, c.isTransaction = false := by
  obtain ⟨before, after, hcalls, hbefore, hafter⟩ :=
    p.panel.calls_run token (p.found t token a) (p.search t token a).2.state
  have hpanel : ∀ c ∈ (p.inspected t token a).calls, c.isTransaction = false := by
    rw [inspected, hcalls]
    simp only [List.forall_mem_append, List.forall_mem_singleton, Call.isTransaction, true_and,
      and_true]
    exact ⟨fun c hc => Call.not_isTransaction_of_ofDetector (hbefore c hc),
      fun c hc => Call.not_isTransaction_of_ofDetector (hafter c hc)⟩
  simp only [judgement, List.forall_mem_append, List.forall_mem_cons, Call.isTransaction, true_and]
  exact ⟨⟨List.forall_mem_nil _, hpanel⟩, List.forall_mem_nil _⟩

def Unsent (a : Audit σ) : Prop := ∀ e ∈ a.stream.events, e.isTransaction = false

theorem Unsent.tell {a : Audit σ} (h : Unsent a) {cs : List Call}
    (hcs : ∀ c ∈ cs, c.isTransaction = false) : Unsent (tell a cs) := fun e he =>
  (Stream.isTransaction_of_mem_calls hcs he).elim (h e) id

theorem unsent_start (now : Nat) (state : σ) (ledger : Ledger) : Unsent (start now state ledger) :=
  nofun

theorem unsent_searched (p : Pipeline σ) (t : RunTerms) (token : Address) {a : Audit σ}
    (h : Unsent a) : Unsent (p.searched t token a) := by
  have hphase : ∀ c ∈ [Call.phase .resolveSource .running], c.isTransaction = false :=
    List.forall_mem_singleton.mpr rfl
  exact Unsent.tell h hphase

theorem unsent_judged (p : Pipeline σ) (t : RunTerms) (token : Address) {a : Audit σ}
    (h : Unsent a) : Unsent (p.judged t token a) :=
  (p.unsent_searched t token h).tell (p.isTransaction_judgement t token a)

section

variable {p : Pipeline σ} {t : RunTerms} {request : AuditRequest} {a after : Audit σ} {e : AuditError}
  (hrun : p.run t request a = (some (.error e), tell after [.fatal e.message]))
  (hafter : after = a ∨ after = p.searched t request.token a)

include hrun hafter

theorem commitTrace_of_failed : (p.run t request a).2.commitTrace = a.commitTrace := by
  rw [hrun, tell_commitTrace]
  obtain rfl | rfl := hafter <;> rfl

theorem unsent_of_failed (h : Unsent a) : Unsent (p.run t request a).2 := by
  have hunsent : Unsent after := by
    obtain rfl | rfl := hafter
    · exact h
    · exact p.unsent_searched t request.token h
  rw [hrun]
  exact hunsent.tell (List.forall_mem_singleton.mpr rfl)

end

/-! ### Runs that come to their commit -/

def ending (v : RiskVerdict) : Option Commit.Result → List Event
  | none => []
  | some (.error e) => [Feed.phaseEvent .commitVerdict .error, .fatalError e.message]
  | some (.ok _) => [Feed.phaseEvent .commitVerdict .done, .finalVerdict v]

def returned (v : RiskVerdict) : Option Commit.Result → Option (Except AuditError RiskVerdict)
  | none => none
  | some (.error e) => some (.error e)
  | some (.ok _) => some (.ok v)

theorem running_of_at {a : Audit σ} (h : At a 9) : a.stream.feed.running = [.commitVerdict] :=
  h.running_eq.trans (by decide)

section

variable {p : Pipeline σ} {c : Committer σ} {t : RunTerms} {request : AuditRequest} {a : Audit σ}
  (hc : p.committer = some c) (hz : request.token ≠ .zero)
  (h : ¬p.Abandoned t request.token a) (ha : At a 0)

include ha in
theorem events_settled {calls : List Call}
    (hstream : (p.committed c t request a).2.stream =
      (p.committing t request.token a).stream.calls calls)
    (hcalls : ∀ d ∈ calls, d.isTransaction = true) :
    (p.settled c t request a).stream.events = (p.judged t request.token a).stream.events ++
      Feed.phaseEvent .commitVerdict .running :: calls.filterMap Call.event? := by
  have hjudged := p.at_judged t request.token ha
  have hrunning : At (tell (p.judged t request.token a) [.phase .commitVerdict .running]) 9 :=
    hjudged.phase rfl
  have hopen : (p.committing t request.token a).stream.feed.terminated = false := hrunning.isOpen
  have hevents : (p.committing t request.token a).stream.events =
      (p.judged t request.token a).stream.events ++ [Feed.phaseEvent .commitVerdict .running] :=
    hjudged.events_phase rfl
  rw [settled, after_stream, hstream, Stream.calls_transactions hopen hcalls, hevents, List.append_assoc]
  rfl

include hc hz h ha

theorem run_told :
    (p.run t request a).1 = returned (p.verdict t request a) (p.committed c t request a).1 ∧
      (p.run t request a).2.commitTrace = (p.settled c t request a).commitTrace ∧
      (p.run t request a).2.stream.events = (p.settled c t request a).stream.events ++
        ending (p.verdict t request a) (p.committed c t request a).1 := by
  have hsettled := p.at_settled c t request ha
  rcases hcommit : (p.committed c t request a).1 with _ | e | receipt
  · rw [run_of_unsettled hc hz h hcommit]
    exact ⟨rfl, rfl, (List.append_nil _).symm⟩
  · have hfatal := Stream.OpenAt.fatal hsettled e.message
    rw [running_of_at hsettled, List.append_assoc] at hfatal
    rw [run_of_uncommitted hc hz h hcommit, tell_commitTrace]
    exact ⟨rfl, rfl, hfatal⟩
  · rw [run_of_committed hc hz h ha hcommit]
    have hdone : At (tell (p.settled c t request a) [.phase .commitVerdict .done]) 10 :=
      hsettled.phase rfl
    have hfinal := announce_eq (v := p.verdict t request a) hdone fun p => by cases p <;> decide
    rw [announce_of_ended hdone ended_fullLog] at hfinal
    rw [tell_commitTrace]
    refine ⟨rfl, rfl, ?_⟩
    rw [tell_cons (p.settled c t request a), hfinal.2, hsettled.events_phase rfl,
      List.append_assoc]
    rfl

theorem run_sends : ∃ result sent calls,
    Sends c ⟨t.cancelAt, none⟩ (p.verdict t request a) (p.committing t request.token a).world
      result sent calls ∧
    (p.run t request a).1 = returned (p.verdict t request a) result ∧
    submissions (p.run t request a).2.commitTrace = submissions a.commitTrace ++ sent ∧
    (p.run t request a).2.stream.events = (p.judged t request.token a).stream.events ++
      Feed.phaseEvent .commitVerdict .running ::
        (calls.filterMap Call.event? ++ ending (p.verdict t request a) result) := by
  obtain ⟨sent, calls, hsends, hsent, hstream⟩ := c.commit_sends ⟨t.cancelAt, none⟩
    (p.verdict t request a) (p.committing t request.token a)
  obtain ⟨hresult, htrace, hevents⟩ := run_told hc hz h ha
  refine ⟨_, sent, calls, hsends, hresult, ?_, ?_⟩
  · rw [htrace, settled, after_commitTrace, committed]
    exact hsent
  · rw [hevents, events_settled ha hstream hsends.isTransaction, List.append_assoc]
    rfl

end

theorem decode_calldata (p : Pipeline σ) (c : Committer σ) (t : RunTerms) (request : AuditRequest)
    (a : Audit σ) : Calldata.decode .v1 (c.calldata (p.verdict t request a)) =
      .ok (request.tradeId, (p.inspected t request.token a).aggregation.mask.bits) := by
  have hprotocol : c.protocol = .v1 := by cases c.protocol; rfl
  rw [Calldata.decode_eq_ok_iff, Committer.calldata, hprotocol]
  rfl

theorem phaseRecords_of_at {a : Audit σ} (h : At a 8) {front : List Event}
    (hf : ∀ e ∈ front, e.isTransaction = true) :
    phaseRecords .commitVerdict (a.stream.events ++
      [Feed.phaseEvent .commitVerdict .running] ++ front) = [.running] := by
  have hbefore : phaseRecords .commitVerdict a.stream.events = [] := by
    rw [phaseRecords_eq, h.log]
    rfl
  have hfront := phaseRecords_of_transactions (p := .commitVerdict) hf
  unfold phaseRecords at hbefore hfront ⊢
  rw [List.filterMap_append, List.filterMap_append, hbefore, hfront]
  rfl

theorem returned_eq_ok {v v' : RiskVerdict} {result : Option Commit.Result}
    (h : returned v result = some (.ok v')) : v' = v ∧ ∃ receipt, result = some (.ok receipt) := by
  rcases result with _ | _ | receipt
  · cases h
  · cases h
  · cases h
    exact ⟨rfl, receipt, rfl⟩

theorem isTransaction_ending (v : RiskVerdict) (result : Option Commit.Result) :
    ∀ e ∈ ending v result, ¬e.isTransaction = true := by
  rcases result with _ | _ | _ <;> simp [ending, Feed.phaseEvent, Event.isTransaction]

/-- Of every run with a committer on a fresh stream, under any behaviour of the writer. -/
theorem reports_what_it_commits (p : Pipeline σ) (c : Committer σ) (t : RunTerms)
    (request : AuditRequest) (now : Nat) (state : σ) (ledger : Ledger) :
    let p : Pipeline σ := { p with committer := some c }
    let a := start now state ledger
    let ran := p.run t request a
    let sent := (submissions ran.2.commitTrace).map Prod.snd
    let events := ran.2.stream.events
    sent.length ≤ 1 ∧
    (∀ data ∈ sent, Calldata.decode .v1 data =
      .ok (request.tradeId, (p.inspected t request.token a).aggregation.mask.bits)) ∧
    (∀ v, ran.1 = some (.ok v) → ∃ data hash block before,
      sent = [data] ∧ Calldata.decode .v1 data = .ok (request.tradeId, v.score) ∧
      (((p.committing t request.token a).world.record (.submitted data)).ask ⟨t.cancelAt, none⟩
        (c.writer.submit data)).1 = some (.ok hash) ∧
      events = before ++ [Feed.phaseEvent .commitVerdict .running, .transactionSubmitted hash.hex,
        .transactionConfirmed hash.hex block true, Feed.phaseEvent .commitVerdict .done,
        .finalVerdict v] ∧
      ∀ e ∈ before, e.isTransaction = false) ∧
    (∀ before e after, events = before ++ e :: after → e.isTransaction = true →
      phaseRecords .commitVerdict before = [.running]) ∧
    (∀ before hash block after,
      events = before ++ .transactionConfirmed hash block false :: after →
      ∃ e, ran.1 = some (.error e) ∧
        after = [Feed.phaseEvent .commitVerdict .error, .fatalError e.message]) := by
  intro p a ran sent events
  have hat : At a 0 := Stream.OpenAt.empty
  obtain ⟨e, after, hrun, hafter⟩ | ⟨hz, h, -⟩ := p.run_cases t a request
  · have hsent : sent = [] :=
      congrArg (fun trace => (submissions trace).map Prod.snd) (commitTrace_of_failed hrun hafter)
    have hnone : ∀ e ∈ events, e.isTransaction = false :=
      unsent_of_failed hrun hafter (unsent_start now state ledger)
    have hran : ran = (some (.error e), tell after [.fatal e.message]) := hrun
    have hnever : ∀ before e after, events = before ++ e :: after → e.isTransaction = false :=
      fun before e after hs => hnone e (hs ▸ List.mem_append_right _ List.mem_cons_self)
    refine ⟨?_, ?_, ?_, ?_, ?_⟩
    · rw [hsent]
      exact Nat.zero_le 1
    · rw [hsent]
      exact nofun
    · intro v hv
      rw [hran] at hv
      cases hv
    · intro before e after hs ht
      rw [hnever before e after hs] at ht
      cases ht
    · intro before hash block after hs
      cases hnever before _ after hs
  · obtain ⟨result, handed, calls, hsends, hresult, htrace, hevents⟩ := run_sends rfl hz h hat
    have hsent : sent = handed.map Prod.snd :=
      congrArg (List.map Prod.snd) htrace
    have hbefore : ∀ e ∈ (p.judged t request.token a).stream.events ++
        [Feed.phaseEvent .commitVerdict .running], ¬e.isTransaction = true := by
      simp only [Bool.not_eq_true, List.forall_mem_append, List.forall_mem_singleton]
      exact ⟨p.unsent_judged t request.token (unsent_start now state ledger), rfl⟩
    have hmiddle : ∀ before e after, events = before ++ e :: after → e.isTransaction = true →
        ∃ front back, calls.filterMap Call.event? = front ++ e :: back ∧
          before = (p.judged t request.token a).stream.events ++
            [Feed.phaseEvent .commitVerdict .running] ++ front ∧
          after = back ++ ending (p.verdict t request a) result := by
      intro before e after hs ht
      refine split_middle hbefore (isTransaction_ending _ _) ?_ ht
      rw [← hs, List.append_assoc]
      exact hevents.symm
    refine ⟨?_, ?_, ?_, ?_, ?_⟩
    · rw [hsent]
      obtain rfl | ⟨rfl, -⟩ := hsends.sent_cases
      · exact Nat.zero_le 1
      · exact Nat.le_refl 1
    · rw [hsent]
      obtain rfl | ⟨rfl, -⟩ := hsends.sent_cases
      · exact nofun
      · exact List.forall_mem_singleton.mpr (p.decode_calldata c t request a)
    · intro v hv
      obtain ⟨rfl, receipt, rfl⟩ := returned_eq_ok (hresult.symm.trans hv)
      obtain ⟨rfl, hash, block, hh, rfl⟩ := hsends.of_ok
      exact ⟨_, hash, block, _, hsent, p.decode_calldata c t request a, hh, hevents,
        p.unsent_judged t request.token (unsent_start now state ledger)⟩
    · intro before e after hs ht
      obtain ⟨front, back, hcalls, rfl, -⟩ := hmiddle before e after hs ht
      refine phaseRecords_of_at (p.at_judged t request.token hat) fun d hd => ?_
      exact hsends.isTransaction_event d (hcalls ▸ List.mem_append_left _ hd)
    · intro before hash block after hs
      obtain ⟨front, back, hcalls, -, rfl⟩ := hmiddle before _ after hs rfl
      obtain ⟨rfl, e, rfl⟩ := hsends.of_failed hcalls
      exact ⟨e, hresult, rfl⟩

def prompt : Committer Unit where
  writer := ⟨fun _ => Ask.pure (.ok ⟨1⟩), fun h => Ask.pure (.ok (some ⟨h, some 12, some 1⟩))⟩
  protocol := .v1
  confirmAttempts := 3
  confirmIntervalMs := 1000

def flagging : Pipeline Unit where
  resolver := ⟨fun _ => Ask.pure (.ok (some ⟨"contract", "C"⟩)), fun _ => Ask.pure (.ok ""),
    .answering fun _ _ => Ask.pure (.ok "")⟩
  panel :=
    { security := fun _ => Ask.pure (.failed (.input "no such token"))
      slots := [⟨"keen", fun _ _ s => (⟨some 4, [], fun s =>
        (([], .answered "\x7b\"logic_bomb\": true\x7d"), s)⟩, s)⟩]
      sellTaxThreshold := 0
      strictConsensus := true
      timeoutMs := 5 }
  committer := none
  sourceTimeoutMs := 10

theorem flagging_run_reports_what_it_commits :
    let p : Pipeline Unit := { flagging with committer := some prompt }
    let request : AuditRequest := ⟨7, ⟨1⟩, 0⟩
    let terms : RunTerms := ⟨none, ⟨2025, 1, 1, 0, 0⟩⟩
    let v : RiskVerdict := .ofMask request terms.decidedAt ⟨0x80⟩
    let ran := p.run terms request (start 0 () [])
    ran.1 = some (.ok v) ∧ ∃ data, (submissions ran.2.commitTrace).map Prod.snd = [data] ∧
      Calldata.decode .v1 data = .ok (7, 0x80) := by
  intro p request terms v ran
  have hrun : ran.1 = some (.ok v) := by decide +kernel
  obtain ⟨-, -, hverdict, -, -⟩ := reports_what_it_commits flagging prompt terms request 0 () []
  obtain ⟨data, -, -, -, hsent, hdecode, -⟩ := hverdict v hrun
  refine ⟨hrun, data, ?_, hdecode⟩
  simp only [ran, p, hsent]

end Pipeline

end TokenAudit
