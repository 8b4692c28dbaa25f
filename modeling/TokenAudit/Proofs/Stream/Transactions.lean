import TokenAudit.Proofs.Stream.Contract

/-! The records of transactions on a stream. A stream leaves their order to those who call: it lets
every one of them through while it is open, and no other call puts one there. -/

namespace TokenAudit

def Event.isTransaction : Event → Bool
  | .transactionSubmitted _ => true
  | .transactionConfirmed _ _ _ => true
  | _ => false

def Call.isTransaction : Call → Bool
  | .transactionSubmitted _ => true
  | .transactionConfirmed _ _ _ => true
  | _ => false

theorem Call.isTransaction_event {c : Call} {e : Event} (h : c.event? = some e) :
    e.isTransaction = c.isTransaction := by
  cases c with
  | fatal => cases h
  | _ =>
    cases h
    rfl

theorem Feed.isTransaction_of_mem_accept (f : Feed) {c : Call} (hc : c.isTransaction = false)
    {e : Event} (he : e ∈ (f.accept c).2) : e.isTransaction = false := by
  cases hevent : c.event? with
  | some e' =>
    rw [accept_of_event? hevent] at he
    split at he
    · rw [List.mem_singleton.mp he, Call.isTransaction_event hevent, hc]
    · cases he
  | none =>
    cases c with
    | fatal message =>
      rcases List.mem_append.mp he with he | he
      · obtain ⟨p, -, rfl⟩ := List.mem_map.mp he
        rfl
      · rw [List.mem_singleton.mp he]
        rfl
    | _ => cases hevent

namespace Stream

theorem isTransaction_of_mem_calls {s : Stream} {cs : List Call}
    (hcs : ∀ c ∈ cs, c.isTransaction = false) {e : Event} (he : e ∈ (s.calls cs).events) :
    e ∈ s.events ∨ e.isTransaction = false := by
  induction cs generalizing s with
  | nil => exact .inl he
  | cons c cs ih =>
    obtain hcall | hnew := ih (fun d hd => hcs d (List.mem_cons_of_mem c hd)) he
    · cases ht : s.feed.terminated with
      | true =>
        rw [call_of_terminated ht] at hcall
        exact .inl hcall
      | false =>
        rw [call_of_open ht] at hcall
        rcases List.mem_append.mp hcall with hold | hnew
        · exact .inl hold
        · exact .inr (s.feed.isTransaction_of_mem_accept (hcs c List.mem_cons_self) hnew)
    · exact .inr hnew

theorem calls_transactions {s : Stream} (hopen : s.feed.terminated = false) {cs : List Call}
    (hcs : ∀ c ∈ cs, c.isTransaction = true) :
    s.calls cs = ⟨s.feed, s.events ++ cs.filterMap Call.event?⟩ := by
  induction cs generalizing s with
  | nil => rw [List.filterMap_nil, List.append_nil, calls_nil]
  | cons c cs ih =>
    have hc := hcs c List.mem_cons_self
    have hcall : ∃ e, c.event? = some e ∧ s.call c = ⟨s.feed, s.events ++ [e]⟩ := by
      cases c with
      | transactionSubmitted hash => exact ⟨_, rfl, call_of_open hopen _⟩
      | transactionConfirmed hash block success => exact ⟨_, rfl, call_of_open hopen _⟩
      | _ => cases hc
    obtain ⟨e, he, hcall⟩ := hcall
    have hrest := ih (s := ⟨s.feed, s.events ++ [e]⟩) hopen
      fun d hd => hcs d (List.mem_cons_of_mem c hd)
    rw [calls_cons, hcall, hrest, List.filterMap_cons_some he, List.append_assoc]
    rfl

end Stream

end TokenAudit
