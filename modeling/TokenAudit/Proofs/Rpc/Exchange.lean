import TokenAudit.Rpc.Client

/-! What a failed call leaves open: whether the node may have acted on it. -/

namespace TokenAudit.Rpc

/-- One call to a node: the number that it was sent under, and what came of it. -/
structure Exchange where
  id : Int64
  outcome : Except Web.Fault Web.Answer

def response? (a : Web.Answer) : Option Response := a.json?.bind Response.ofJson?

-- A broken piece does no harm in a member that is not looked at, and makes the result no text.
example : (response? ⟨200, Text.bytes "\x7b\"jsonrpc\":\"2.0\",\"id\":1,\"note\":\"".toList ++
    0xff :: Text.bytes "\"\x7d".toList⟩).map (fun r => r.result.isNone) = some true := by
  decide +kernel

example : response? ⟨200, Text.bytes "\x7b\"jsonrpc\":\"2.0\",\"id\":1,\"result\":\"".toList ++
    0xff :: Text.bytes "\"\x7d".toList⟩ = none := by
  decide +kernel

def Exchange.read {α : Type} (endpoint method : String) (reads : Json → Option α) (x : Exchange) :
    Except AuditError α :=
  (conclude endpoint method x.id x.outcome).bind (typed reads method)

theorem accept_eq_ok_iff (method : String) (id : Int64) (a : Web.Answer) (j : Json) :
    accept method id a = .ok j ↔
      Web.isSuccess a.status = true ∧ ∃ r, response? a = some r ∧
        r.id = some (.number id.toInt) ∧ r.fault = none ∧ r.result.getD .null = j := by
  unfold accept response?
  by_cases hs : Web.isSuccess a.status = true
  · rw [if_neg (fun h => h hs)]
    cases hr : a.json?.bind Response.ofJson? with
    | none => simp
    | some r =>
      by_cases hid : r.id = some (.number id.toInt)
      · cases hf : r.fault with
        | none => simp [hs, hid, hf]
        | some f => simp [hid, hf]
      · simp [hid]
  · simp [hs]

theorem read_eq_ok_iff {α : Type} (endpoint method : String) (reads : Json → Option α)
    (x : Exchange) (v : α) :
    x.read endpoint method reads = .ok v ↔
      ∃ a r, x.outcome = .ok a ∧ Web.isSuccess a.status = true ∧ response? a = some r ∧
        r.id = some (.number x.id.toInt) ∧ r.fault = none ∧
        reads (r.result.getD .null) = some v := by
  unfold Exchange.read
  constructor
  · intro h
    cases ho : x.outcome with
    | error fault =>
      rw [ho] at h
      cases h
    | ok a =>
      rw [ho] at h
      change (accept method x.id a).bind (typed reads method) = .ok v at h
      cases hj : accept method x.id a with
      | error e =>
        rw [hj] at h
        cases h
      | ok j =>
        obtain ⟨hs, r, hr, hid, hf, rfl⟩ := (accept_eq_ok_iff method x.id a j).mp hj
        refine ⟨a, r, rfl, hs, hr, hid, hf, ?_⟩
        rw [hj] at h
        change typed reads method (r.result.getD .null) = .ok v at h
        unfold typed at h
        cases hv : reads (r.result.getD .null) with
        | none =>
          rw [hv] at h
          cases h
        | some u =>
          rw [hv] at h
          rw [Except.ok.inj h]
  · rintro ⟨a, r, ho, hs, hr, hid, hf, hv⟩
    have hj := (accept_eq_ok_iff method x.id a (r.result.getD .null)).mpr ⟨hs, r, hr, hid, hf, rfl⟩
    rw [ho]
    change (accept method x.id a).bind (typed reads method) = .ok v
    rw [hj]
    change typed reads method (r.result.getD .null) = .ok v
    rw [typed, hv]

namespace Exchange

inductive Unsent : Exchange → Prop where
  | malformed (id : Int64) : Unsent ⟨id, .error .malformed⟩
  | unusable (id : Int64) (url : Url) : Unsent ⟨id, .error (.unusable url)⟩
  | unreachable (id : Int64) (url : Url) : Unsent ⟨id, .error (.lost url .unreachable)⟩

/-- The node answered this very call with an error object. -/
def Refused (x : Exchange) : Prop :=
  ∃ a r f, x.outcome = .ok a ∧ response? a = some r ∧ r.id = some (.number x.id.toInt) ∧
    r.fault = some f

/-- The call went out and has no answer that says what became of it. -/
inductive Unsettled {α : Type} (reads : Json → Option α) : Exchange → Prop where
  | lost (id : Int64) (url : Url) (loss : Web.Loss) (h : loss ≠ .unreachable) :
    Unsettled reads ⟨id, .error (.lost url loss)⟩
  | failed (id : Int64) (a : Web.Answer) (h : Web.isSuccess a.status = false)
      (hr : ¬Refused ⟨id, .ok a⟩) :
    Unsettled reads ⟨id, .ok a⟩
  | unparsed (id : Int64) (a : Web.Answer) (h : response? a = none) : Unsettled reads ⟨id, .ok a⟩
  | foreign (id : Int64) (a : Web.Answer) (r : Response) (h : response? a = some r)
      (hid : r.id ≠ some (.number id.toInt)) :
    Unsettled reads ⟨id, .ok a⟩
  | untyped (id : Int64) (a : Web.Answer) (r : Response) (h : response? a = some r)
      (hf : r.fault = none) (hv : reads (r.result.getD .null) = none) :
    Unsettled reads ⟨id, .ok a⟩

theorem read_eq_error_iff {α : Type} (endpoint method : String) (reads : Json → Option α)
    (x : Exchange) :
    (∃ e, x.read endpoint method reads = .error e) ↔
      x.Unsent ∨ x.Refused ∨ x.Unsettled reads := by
  constructor
  · rintro ⟨e, he⟩
    obtain ⟨id, fault | a⟩ := x
    · cases fault with
      | malformed => exact .inl (.malformed id)
      | unusable url => exact .inl (.unusable id url)
      | lost url loss =>
        by_cases h : loss = .unreachable
        · exact .inl (h ▸ .unreachable id url)
        · exact .inr (.inr (.lost id url loss h))
    -- An error object may come with any status, so it is looked for before the client's checks.
    · by_cases href : Refused ⟨id, .ok a⟩
      · exact .inr (.inl href)
      refine .inr (.inr ?_)
      cases hs : Web.isSuccess a.status with
      | false => exact .failed id a hs href
      | true =>
        cases hr : response? a with
        | none => exact .unparsed id a hr
        | some r =>
          by_cases hid : r.id = some (.number id.toInt)
          · cases hf : r.fault with
            | some f => exact absurd ⟨a, r, f, rfl, hr, hid, hf⟩ href
            | none =>
              cases hv : reads (r.result.getD .null) with
              | none => exact .untyped id a r hr hf hv
              | some v =>
                have hok := (read_eq_ok_iff endpoint method reads ⟨id, .ok a⟩ v).mpr
                  ⟨a, r, rfl, hs, hr, hid, hf, hv⟩
                rw [hok] at he
                cases he
          · exact .foreign id a r hr hid
  · intro h
    cases hx : x.read endpoint method reads with
    | error e => exact ⟨e, rfl⟩
    | ok v =>
      obtain ⟨a, r, ho, hs, hr, hid, hf, hv⟩ := (read_eq_ok_iff endpoint method reads x v).mp hx
      obtain ⟨id, outcome⟩ := x
      cases ho
      rcases h with h | ⟨a', r', f, ho', hr', -, hf'⟩ | h
      · cases h
      · cases ho'
        rw [hr] at hr'
        cases hr'
        rw [hf] at hf'
        cases hf'
      · cases h with
        | failed _ _ h' => exact absurd (hs.symm.trans h') nofun
        | unparsed _ _ h' => exact absurd (hr.symm.trans h') nofun
        | foreign _ _ r' h' hne =>
          rw [hr] at h'
          cases h'
          exact absurd hid hne
        | untyped _ _ r' h' _ hnone =>
          rw [hr] at h'
          cases h'
          exact absurd (hv.symm.trans hnone) nofun

theorem Unsettled.not_unsent {α : Type} {reads : Json → Option α} {x : Exchange}
    (h : x.Unsettled reads) : ¬x.Unsent := by
  intro hu
  cases h with
  | lost id url loss hl =>
    cases hu
    exact hl rfl
  | _ => cases hu

theorem Unsettled.not_refused {α : Type} {reads : Json → Option α} {x : Exchange}
    (h : x.Unsettled reads) : ¬x.Refused := by
  rintro ⟨a, r, f, ho, hr, hid, hf⟩
  cases h with
  | lost => cases ho
  | failed id a' hs hno => exact hno ⟨a, r, f, ho, hr, hid, hf⟩
  | unparsed id a' hnone =>
    cases ho
    rw [hnone] at hr
    cases hr
  | foreign id a' r' hr' hne =>
    cases ho
    rw [hr'] at hr
    cases hr
    exact hne hid
  | untyped id a' r' hr' hnone hv =>
    cases ho
    rw [hr'] at hr
    cases hr
    rw [hnone] at hf
    cases hf

end Exchange

end TokenAudit.Rpc
