import TokenAudit.Proofs.Rpc.Exchange

/-! What a call returns of what came back, and how a result that is null reads. -/

namespace TokenAudit.Rpc

variable {σ α : Type} {endpoint method : String} {x : Exchange}

def Exchange.result (endpoint method : String) (x : Exchange) : Except AuditError Json :=
  conclude endpoint method x.id x.outcome

theorem result_eq_ok_iff {j : Json} :
    x.result endpoint method = .ok j ↔
      ∃ a r, x.outcome = .ok a ∧ Web.isSuccess a.status = true ∧ response? a = some r ∧
        r.id = some (.number x.id.toInt) ∧ r.fault = none ∧ r.result.getD .null = j := by
  obtain ⟨id, fault | a⟩ := x
  · exact iff_of_false nofun fun ⟨_, _, h, _⟩ => nomatch h
  · have hresult : Exchange.result endpoint method ⟨id, .ok a⟩ = accept method id a := rfl
    rw [hresult, accept_eq_ok_iff]
    constructor
    · rintro ⟨hs, r, h⟩
      exact ⟨a, r, rfl, hs, h⟩
    · rintro ⟨_, r, ha, hs, h⟩
      cases ha
      exact ⟨hs, r, h⟩

theorem accept_eq_error {id : Int64} {a : Web.Answer} {e : AuditError}
    (h : accept method id a = .error e) : ∃ reason, e = .upstream providerName a.status reason := by
  unfold accept at h
  split at h
  · exact ⟨_, (Except.error.inj h).symm⟩
  · split at h
    · exact ⟨_, (Except.error.inj h).symm⟩
    · split at h
      · exact ⟨_, (Except.error.inj h).symm⟩
      · split at h
        · exact ⟨_, (Except.error.inj h).symm⟩
        · cases h

theorem connectionError_eq (endpoint method : String) (fault : Web.Fault) :
    ∃ reason, connectionError endpoint method fault = .transport endpoint reason := by
  unfold connectionError
  split <;> exact ⟨_, rfl⟩

theorem result_eq_error {e : AuditError} (h : x.result endpoint method = .error e) :
    (∃ a reason, x.outcome = .ok a ∧ e = .upstream providerName a.status reason) ∨
      ∃ fault reason, x.outcome = .error fault ∧ e = .transport endpoint reason := by
  obtain ⟨id, fault | a⟩ := x
  · obtain ⟨reason, hreason⟩ := connectionError_eq endpoint method fault
    exact .inr ⟨fault, reason, rfl, (Except.error.inj h).symm.trans hreason⟩
  · obtain ⟨reason, rfl⟩ := accept_eq_error h
    exact .inl ⟨a, reason, rfl, rfl⟩

theorem result_of_foreign {a : Web.Answer} {r : Response} (ha : x.outcome = .ok a)
    (hr : response? a = some r) (hid : r.id ≠ some (.number x.id.toInt)) :
    ∃ reason, x.result endpoint method = .error (.upstream providerName a.status reason) := by
  cases h : x.result endpoint method with
  | ok j =>
    obtain ⟨a', r', ha', -, hr', hid', -⟩ := result_eq_ok_iff.mp h
    cases ha.symm.trans ha'
    cases hr.symm.trans hr'
    exact absurd hid' hid
  | error e =>
    obtain ⟨a', reason, ha', rfl⟩ | ⟨fault, reason, hfault, -⟩ := result_eq_error h
    · cases ha.symm.trans ha'
      exact ⟨reason, rfl⟩
    · cases ha.symm.trans hfault

/-! ### Null results -/

theorem nullable_eq_none_iff {read : Json → Option α} {j : Json} :
    Json.nullable read j = some none ↔ j = .null := by
  constructor
  · intro h
    unfold Json.nullable at h
    split at h
    · rfl
    · obtain ⟨_, _, h⟩ := Option.map_eq_some_iff.mp h
      cases h
  · rintro rfl
    rfl

theorem typed_nullable_none_iff {read : Json → Option α} {r : Except AuditError Json} :
    r.bind (typed (Json.nullable read) method) = .ok none ↔ r = .ok .null := by
  cases r with
  | error e => exact iff_of_false nofun nofun
  | ok j =>
    have htyped : typed (Json.nullable read) method j = .ok none ↔
        Json.nullable read j = some none := by
      unfold typed
      cases Json.nullable read j <;> simp
    have hnull : Json.nullable read j = some none ↔ j = .null := nullable_eq_none_iff
    rw [Except.ok.injEq, ← hnull]
    exact htyped

theorem typed_null {read : Json → Option α} (h : read .null = none) :
    ∃ reason, (Except.ok .null).bind (typed read method) =
      .error (.upstream providerName 200 reason) := by
  refine ⟨s!"invalid '{method}' result: {Json.fault}", ?_⟩
  show typed read method .null = _
  rw [typed, h]
  rfl

namespace Client

variable (c : Client σ)

theorem callTyped_draw (read : Json → Option α) (method : String) (params : Json) (s t : σ) :
    ((c.callTyped read method params s).1.draw t).1 =
      ((c.call method params s).1.draw t).1.bind (typed read method) :=
  rfl

theorem receipt_eq_none_iff (h : Hash) (s t : σ) :
    ((c.receipt h s).1.draw t).1 = .ok none ↔
      ((c.call "eth_getTransactionReceipt" (.arr [.ofHash h]) s).1.draw t).1 = .ok .null := by
  unfold receipt
  rw [callTyped_draw]
  exact typed_nullable_none_iff

theorem logs_of_null (f : LogFilter) (s t : σ)
    (hnull : ((c.call "eth_getLogs" (.arr [f.toJson]) s).1.draw t).1 = .ok .null) :
    ∃ reason, ((c.logs f s).1.draw t).1 = .error (.upstream providerName 200 reason) := by
  unfold logs
  rw [callTyped_draw, hnull]
  exact typed_null rfl

theorem send_of_null (sender target : Address) (data : Bytes) (s t : σ)
    (hnull : ((c.call "eth_sendTransaction"
      (.arr [Transaction.toJson ⟨sender, target, data, 0⟩]) s).1.draw t).1 = .ok .null) :
    ∃ reason, ((c.send sender target data s).1.draw t).1 =
      .error (.upstream providerName 200 reason) := by
  unfold send
  rw [callTyped_draw, hnull]
  exact typed_null rfl

end Client

end TokenAudit.Rpc
