import TokenAudit.Proofs.Commit.LiveWriter
import TokenAudit.Proofs.Pipeline.Agreement
import TokenAudit.Proofs.Pipeline.Replay
import TokenAudit.Service.Api

/-! The two handlers of an audit request, the one that answers with the verdict and the one that
streams. From the same session they agree on what is asked for, on how the audit ends and on what it
leaves. -/

namespace TokenAudit

def EndsIn (es : List Event) (last : Event) : Prop :=
  ∃ before, es = before ++ [last] ∧ last.isTerminal = true ∧ ∀ e ∈ before, e.isTerminal = false

theorem EndsIn.unique {es : List Event} {last last' : Event} (h : EndsIn es last)
    (h' : EndsIn es last') : last = last' := by
  obtain ⟨before, rfl, -⟩ := h
  obtain ⟨before', hes, -⟩ := h'
  exact List.singleton_inj.mp (List.append_inj' hes rfl).2

namespace AuditParams

theorem token_of_request {params : AuditParams} {request : AuditRequest}
    (h : params.request = .ok request) : request.token ≠ .zero := by
  unfold AuditParams.request at h
  split at h
  · cases h
  · split at h
    · cases h
    · rename_i hz
      split at h
      · cases h
      · have hrequest := Except.ok.inj h
        rw [← hrequest]
        exact hz

theorem httpStatus_of_request {params : AuditParams} {e : AuditError}
    (h : params.request = .error e) : e.httpStatus = 400 := by
  unfold AuditParams.request at h
  split at h
  · cases h
    rfl
  · split at h
    · cases h
      rfl
    · split at h
      · cases h
        rfl
      · cases h

end AuditParams

namespace Rpc

theorem Exchange.read_ne_input {α : Type} (endpoint method : String) (reads : Json → Option α)
    (x : Exchange) (reason : String) : x.read endpoint method reads ≠ .error (.input reason) := by
  obtain ⟨id, fault | a⟩ := x
  · rcases fault with _ | _ | ⟨_, _ | _ | _⟩ <;> exact nofun
  · unfold Exchange.read conclude accept
    have htyped (j : Json) : typed reads method j ≠ .error (.input reason) := by
      unfold typed
      split <;> exact nofun
    dsimp only
    repeat' split
    all_goals first | exact htyped _ | exact nofun

end Rpc

namespace Committer

variable {σ : Type}

theorem reply_ne_input {c : Committer σ} {client : Rpc.Client σ} {sender target : Address}
    (hc : c.writer = .ofClient client sender target) (w : Window) (v : RiskVerdict) (r : Run σ)
    (reason : String) : c.reply w v r ≠ some (.error (.input reason)) := by
  unfold reply
  rw [hc]
  have hanswers := (Commit.answers_live client sender target).submission (c.calldata v)
  rcases World.ask_cases (r.world.record (.submitted (c.calldata v))) w
    ((ChainWriter.ofClient client sender target).submit (c.calldata v)) with
    ⟨after, hask, -⟩ | ⟨s, after, hask, -⟩
  · rw [hask]
    exact nofun
  · obtain ⟨x, hx⟩ := hanswers (r.world.record (.submitted (c.calldata v))).state s
    rw [hask, hx]
    intro h
    exact x.read_ne_input _ _ _ _ (Option.some.inj h)

end Committer

namespace Pipeline

variable {σ : Type} {p : Pipeline σ} {t : RunTerms} {request : AuditRequest} {a : Audit σ}

theorem Concluded.endsIn {s : Stream} {last : Event} (h : Concluded s last) :
    EndsIn s.events last := by
  obtain ⟨before, hevents⟩ := h.ended
  refine ⟨before, hevents, h.terminal, fun e he => ?_⟩
  by_contra hterminal
  obtain ⟨front, back, rfl⟩ := List.append_of_mem he
  rw [List.append_assoc, List.cons_append] at hevents
  have hlast := (h.sound.grammar.terminal front e _ hevents (by simpa using hterminal)).1
  simp at hlast

theorem open_of_unreturned (ha : At a 0) (hr : (p.run t request a).1 = none) :
    ∀ e ∈ (p.run t request a).2.stream.events, e.isTerminal = false := by
  have hz : request.token ≠ .zero := by
    intro hz
    rw [p.run_of_zero t a hz] at hr
    cases hr
  have h : ¬p.Abandoned t request.token a := by
    intro h
    rw [p.run_of_abandoned t a hz h] at hr
    cases hr
  cases hc : p.committer with
  | none =>
    rw [run_of_uncommitting hz h ha hc] at hr
    cases hr
  | some c =>
    have hreturned := (run_told hc hz h ha).1.symm.trans hr
    have hcommit : (p.committed c t request a).1 = none := by
      rcases hcommit : (p.committed c t request a).1 with _ | e | receipt
      · rfl
      · rw [hcommit] at hreturned
        cases hreturned
      · rw [hcommit] at hreturned
        cases hreturned
    have hopen := p.at_settled c t request ha
    rw [run_of_unsettled hc hz h hcommit]
    exact hopen.sound.tracks.not_terminal_of_open hopen.isOpen

/-- What the records of a stream tell of a result: its one terminal record, or that there is none. -/
def Tells : Option (Except AuditError RiskVerdict) → List Event → Prop
  | none, es => ∀ e ∈ es, e.isTerminal = false
  | some result, es => EndsIn es (terminalOf result)

theorem tells_run (p : Pipeline σ) (t : RunTerms) (request : AuditRequest) (ha : At a 0) :
    Tells (p.run t request a).1 (p.run t request a).2.stream.events := by
  cases hr : (p.run t request a).1 with
  | none => exact open_of_unreturned ha hr
  | some result => exact (p.concluded_run t request ha hr).endsIn

section Tells

variable {x : Option (Except AuditError RiskVerdict)} {es : List Event} {d : Instant}

theorem Tells.eq_terminalOf (h : Tells x es) {last : Event} (he : EndsIn es last) :
    ∃ result, x = some result ∧ last = terminalOf result := by
  cases x with
  | some result => exact ⟨result, rfl, he.unique h⟩
  | none =>
    obtain ⟨before, rfl, hlast, -⟩ := he
    have hopen := h last (List.mem_append_right before List.mem_cons_self)
    rw [hlast] at hopen
    cases hopen

theorem Tells.returned_iff (h : Tells x es) : x ≠ none ↔ ∃ last, EndsIn es last := by
  constructor
  · intro hx
    obtain ⟨result, rfl⟩ := Option.ne_none_iff_exists'.mp hx
    exact ⟨_, h⟩
  · rintro ⟨last, he⟩
    obtain ⟨result, rfl, -⟩ := h.eq_terminalOf he
    exact nofun

theorem Tells.verdict_iff (h : Tells (x.map (Except.map fun v => v.restamp d)) es)
    (v : RiskVerdict) : (∃ instant, x = some (.ok (v.restamp instant))) ↔
      ∃ instant, EndsIn es (.finalVerdict (v.restamp instant)) := by
  constructor
  · rintro ⟨instant, rfl⟩
    exact ⟨d, h⟩
  · rintro ⟨instant, he⟩
    obtain ⟨result, hresult, hlast⟩ := h.eq_terminalOf he
    obtain ⟨result', rfl, hmap⟩ := Option.map_eq_some_iff.mp hresult
    rw [← hmap] at hlast
    cases result' with
    | error e => cases hlast
    | ok v' =>
      have hsame : v.restamp instant = v'.restamp d := Event.finalVerdict.inj hlast
      have hback := congrArg (fun u : RiskVerdict => u.restamp v'.decidedAt) hsame
      have hv' : v' = v.restamp v'.decidedAt := hback.symm
      exact ⟨v'.decidedAt, congrArg (some ∘ Except.ok) hv'⟩

theorem Tells.error_iff (h : Tells (x.map (Except.map fun v => v.restamp d)) es) (m : String) :
    (∃ e, x = some (.error e) ∧ e.message = m) ↔ EndsIn es (.fatalError m) := by
  constructor
  · rintro ⟨e, rfl, rfl⟩
    exact h
  · intro he
    obtain ⟨result, hresult, hlast⟩ := h.eq_terminalOf he
    obtain ⟨result', rfl, hmap⟩ := Option.map_eq_some_iff.mp hresult
    rw [← hmap] at hlast
    cases result' with
    | ok v' => cases hlast
    | error e => exact ⟨e, rfl, (Event.fatalError.inj hlast).symm⟩

end Tells

theorem replied_of_input (ha : At a 0) (hz : request.token ≠ .zero) {reason : String}
    (hr : (p.run t request a).1 = some (.error (.input reason))) :
    ∃ c, p.committer = some c ∧ c.reply ⟨t.cancelAt, none⟩ (p.verdict t request a)
      (p.committing t request.token a) = some (.error (.input reason)) := by
  have h : ¬p.Abandoned t request.token a := by
    intro h
    rw [p.run_of_abandoned t a hz h] at hr
    cases hr
  cases hc : p.committer with
  | none =>
    rw [run_of_uncommitting hz h ha hc] at hr
    cases hr
  | some c =>
    have hcommit := committed_of_run hz h ha hc hr
    cases Committer.fails_of_commit (p.isCommittable_verdict t request a) hcommit with
    | refused _ hreply => exact ⟨c, rfl, hreply⟩

end Pipeline

namespace Api

variable {σ : Type} (p : Pipeline σ) (cancelAt : Option Nat) (d d' : Instant)
  {params : AuditParams} (s : Session σ)

theorem runAudit_of_rejected {e : AuditError} (h : params.request = .error e) (t : RunTerms) :
    runAudit p t params s = (some (.error e), s) := by
  rw [runAudit, h]

theorem streamAudit_of_rejected {e : AuditError} (h : params.request = .error e) (t : RunTerms) :
    streamAudit p t params s = (.error e, s) := by
  rw [streamAudit, h]

theorem handlers_of_accepted {request : AuditRequest} (h : params.request = .ok request) :
    let a := Pipeline.start s.now s.state s.ledger
    let ran := p.run ⟨cancelAt, d'⟩ request a
    (runAudit p ⟨cancelAt, d⟩ params s).1.map (Except.map fun v => v.restamp d') = ran.1 ∧
      (streamAudit p ⟨cancelAt, d'⟩ params s).1 = .ok ran.2.stream.events ∧
      (runAudit p ⟨cancelAt, d⟩ params s).2 = (streamAudit p ⟨cancelAt, d'⟩ params s).2 := by
  intro a ran
  have hsame : p.reordered p.panel.order = p := rfl
  obtain ⟨hresult, hcourse, -⟩ :=
    p.run_replayed p.panel.order cancelAt d d' request (a := a) rfl
  rw [hsame] at hresult hcourse
  simp only [runAudit, streamAudit, h, Session.audit]
  refine ⟨hresult.symm, rfl, ?_⟩
  simp only [Session.mk.injEq]
  exact ⟨hcourse.now.symm, hcourse.ledger.symm, hcourse.state.symm,
    congrArg (s.sourceTrace ++ ·) hcourse.sourceTrace.symm⟩

theorem message_of_failure {e e' : AuditError} (h : failure e = failure e') :
    e.message = e'.message := by
  simp only [failure, Answer.mk.injEq, Content.json.injEq, Option.some.injEq, Json.obj.injEq,
    List.cons.injEq, Prod.mk.injEq, Json.str.injEq] at h
  exact h.2.1.2

theorem answered_failure_iff (x : Option (Except AuditError RiskVerdict)) (m : String) :
    (∃ e, x.map verdictAnswer = some (failure e) ∧ e.message = m) ↔
      ∃ e, x = some (.error e) ∧ e.message = m := by
  constructor
  · rintro ⟨e, hx, rfl⟩
    obtain ⟨result, rfl, hanswer⟩ := Option.map_eq_some_iff.mp hx
    cases result with
    | error e' => exact ⟨e', rfl, message_of_failure hanswer⟩
    | ok v =>
      have hstatus : 200 = e.httpStatus := congrArg Answer.status hanswer
      cases e <;> exact absurd hstatus (by simp [AuditError.httpStatus])
  · rintro ⟨e, rfl, rfl⟩
    exact ⟨e, rfl, rfl⟩

/-- The handlers refuse the same requests in the same way and then ask nobody. Of a request that
they accept, the stream ends in the verdict or in the error that the answer tells, and only the
writer's own answer makes that an input error; the writer of a node never gives one. -/
theorem handlers_agree (p : Pipeline σ) (cancelAt : Option Nat) (d d' : Instant)
    (params : AuditParams) (s : Session σ) :
    let posted := runAudit p ⟨cancelAt, d⟩ params s
    let got := streamAudit p ⟨cancelAt, d'⟩ params s
    let start := Pipeline.start s.now s.state s.ledger
    (∀ e, params.request = .error e ↔ posted.1 = some (.error e) ∧ got.1 = .error e) ∧
    (∀ e, params.request = .error e →
      posted.1.map verdictAnswer = some (streamAnswer got.1) ∧ (streamAnswer got.1).status = 400 ∧
      posted.2 = s ∧ got.2 = s ∧
      ∀ q : Pipeline σ, runAudit q ⟨cancelAt, d⟩ params s = posted ∧
        streamAudit q ⟨cancelAt, d'⟩ params s = got) ∧
    ∀ request, params.request = .ok request → ∃ events, got.1 = .ok events ∧ posted.2 = got.2 ∧
      (posted.1 ≠ none ↔ ∃ last, EndsIn events last) ∧
      (∀ v : RiskVerdict, (∃ instant, posted.1 = some (.ok (v.restamp instant))) ↔
        ∃ instant, EndsIn events (.finalVerdict (v.restamp instant))) ∧
      (∀ m, (∃ e, posted.1.map verdictAnswer = some (failure e) ∧ e.message = m) ↔
        EndsIn events (.fatalError m)) ∧
      ∀ reason, posted.1 = some (.error (.input reason)) → ∃ c, p.committer = some c ∧
        c.reply ⟨cancelAt, none⟩ (p.verdict ⟨cancelAt, d⟩ request start)
          (p.committing ⟨cancelAt, d⟩ request.token start) = some (.error (.input reason)) ∧
        ∀ client sender target, c.writer ≠ .ofClient client sender target := by
  intro posted got start
  refine ⟨fun e => ⟨fun h => ?_, fun ⟨hposted, hgot⟩ => ?_⟩, fun e h => ?_, fun request h => ?_⟩
  · have hposted : posted = _ := runAudit_of_rejected p s h ⟨cancelAt, d⟩
    have hgot : got = _ := streamAudit_of_rejected p s h ⟨cancelAt, d'⟩
    rw [hposted, hgot]
    exact ⟨rfl, rfl⟩
  · -- The stream of an accepted request is answered whatever becomes of the audit.
    cases hrequest : params.request with
    | error e' =>
      have hrejected := streamAudit_of_rejected p s hrequest ⟨cancelAt, d'⟩
      cases (congrArg Prod.fst hrejected).symm.trans hgot
      rfl
    | ok request =>
      obtain ⟨-, haccepted, -⟩ := handlers_of_accepted p cancelAt d d' s hrequest
      cases haccepted.symm.trans hgot
  · have hposted (q : Pipeline σ) := runAudit_of_rejected q s h ⟨cancelAt, d⟩
    have hgot (q : Pipeline σ) := streamAudit_of_rejected q s h ⟨cancelAt, d'⟩
    simp only [posted, got, hposted, hgot]
    exact ⟨rfl, AuditParams.httpStatus_of_request h, trivial, trivial, fun _ => ⟨trivial, trivial⟩⟩
  · have hat : Pipeline.At start 0 := Stream.OpenAt.empty
    obtain ⟨hresult, hevents, hleft⟩ := handlers_of_accepted p cancelAt d d' s h
    have htells := p.tells_run ⟨cancelAt, d'⟩ request hat
    have htold := htells
    rw [← hresult] at htold
    refine ⟨_, hevents, hleft, ?_, htold.verdict_iff, fun m => ?_, fun reason hr => ?_⟩
    · rw [← htells.returned_iff, ← hresult, ne_eq, ne_eq, Option.map_eq_none_iff]
    · rw [answered_failure_iff, ← htold.error_iff]
    · have hrun : posted.1 = (p.run ⟨cancelAt, d⟩ request start).1 := by
        simp only [posted, runAudit, h, Session.audit]
        rfl
      obtain ⟨c, hc, hreply⟩ :=
        Pipeline.replied_of_input hat (AuditParams.token_of_request h) (hrun.symm.trans hr)
      refine ⟨c, hc, hreply, fun client sender target hw => ?_⟩
      exact Committer.reply_ne_input hw _ _ _ reason hreply

def fussy : Pipeline Unit where
  resolver := ⟨fun _ => Ask.pure (.error (.input "no explorer")),
    fun _ => Ask.pure (.error (.input "no node")),
    .answering fun _ _ => Ask.pure (.error (.input "no decompiler"))⟩
  panel :=
    { security := fun _ => Ask.pure (.panicked "lookup broke down")
      slots := []
      sellTaxThreshold := 0
      strictConsensus := false
      timeoutMs := 5 }
  committer := some ⟨⟨fun _ => Ask.pure (.error (.input "nonce too low")),
    fun _ => Ask.pure (.ok none)⟩, .v1, 2, 10⟩
  sourceTimeoutMs := 5

theorem accepted_request_fails_as_input :
    let params : AuditParams := ⟨"0x4200000000000000000000000000000000000006", "7", 0⟩
    let terms : RunTerms := ⟨none, ⟨2025, 1, 1, 0, 0⟩⟩
    params.request = .ok ⟨7, ⟨0x4200000000000000000000000000000000000006⟩, 0⟩ ∧
      (runAudit fussy terms params (.start ())).1 = some (.error (.input "nonce too low")) := by
  decide +kernel

end Api

end TokenAudit
