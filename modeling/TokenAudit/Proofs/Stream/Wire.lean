import TokenAudit.Proofs.Instant.Text
import TokenAudit.Proofs.Json.Record
import TokenAudit.Wire

/-! The records of a stream on their way to the client: each comes back from its line of text as it was
sent, and so the client learns the outcome that the stream had. -/

namespace TokenAudit

open Json

/-! ### Names -/

theorem Family.ofJson?_toJson (f : Family) : ofJson? f.toJson = some f := by
  cases f <;> rfl

theorem VerdictStatus.ofJson?_toJson (s : VerdictStatus) : ofJson? s.toJson = some s := by
  cases s <;> rfl

theorem Phase.ofJson?_toJson (p : Phase) : ofJson? p.toJson = some p := by
  cases p <;> rfl

theorem PhaseStatus.ofJson?_toJson (s : PhaseStatus) : ofJson? s.toJson = some s := by
  cases s <;> rfl

/-! ### Verdicts -/

theorem RiskCheck.ofJson?_toJson (c : RiskCheck) : ofJson? c.toJson = some c := by
  have hfields : c.toJson.fields ["name", "triggered"] false =
      some [.given (.str c.name), .given (.bool c.triggered)] := fields_obj _ false (by decide) rfl
  rw [ofJson?, hfields]
  rfl

theorem RiskCheck.fits_toJson (c : RiskCheck) (room : Nat) : Fits (room + 1) c.toJson :=
  ⟨Nat.succ_pos room, trivial, trivial, trivial⟩

namespace RiskVerdict

theorem ofJson?_toJson (v : RiskVerdict) (h : v.decidedAt.Civil) : ofJson? v.toJson = some v := by
  have hfields : v.toJson.fields ["tradeId", "targetToken", "riskScore", "status", "reasoning", "checks",
      "decidedAt"] false = some [.given (.ofUint256 v.tradeId), .given (.ofAddress v.token),
        .given (.ofUInt8 v.score), .given v.status.toJson, .given (.str v.reasoning),
        .given (.ofList RiskCheck.toJson v.checks), .given v.decidedAt.toJson] :=
    fields_obj _ false (by decide) rfl
  have hchecks : readList? RiskCheck.ofJson? (.ofList RiskCheck.toJson v.checks) = some v.checks :=
    readList?_ofList fun c _ => c.ofJson?_toJson
  have hinstant : Instant.ofJson? v.decidedAt.toJson = some v.decidedAt := h.parse_text
  rw [ofJson?, hfields]
  simp only [Slot.required, readUint256?_ofUint256, readAddress?_ofAddress, readUInt8?_ofUInt8,
    VerdictStatus.ofJson?_toJson, hchecks, hinstant, Option.bind_eq_bind, Option.bind_some]
  rfl

theorem fits_toJson (v : RiskVerdict) (room : Nat) : Fits (room + 3) v.toJson :=
  ⟨Nat.succ_pos _, trivial, trivial, fits_ofUInt8 v.score _, trivial, trivial,
    fits_ofList fun c _ => c.fits_toJson room, trivial, trivial⟩

end RiskVerdict

/-! ### Records of a stream -/

namespace Event

/-- Its decision, if it has one, is of a year that four figures write. -/
def Dated (e : Event) : Prop := ∀ v, e = .finalVerdict v → v.decidedAt.Civil

theorem fields_members (e : Event) : (Json.obj e.members).fields (e.members.map Prod.fst) false =
    some (e.members.map fun m => .given m.2) := by
  have hnodup : (e.members.map Prod.fst).Nodup := by
    cases e <;> simp [members]
  exact fields_obj _ false hnodup rfl

theorem ofKind?_members (e : Event) (h : e.Dated) : ofKind? e.kind (.obj e.members) = some e := by
  have hfields := e.fields_members
  cases e with
  | finalVerdict v =>
    have hverdict := v.ofJson?_toJson (h v rfl)
    simp only [members, List.map_cons, List.map_nil] at hfields
    simp only [ofKind?, kind, members, hfields, Slot.required, hverdict]
    rfl
  | transactionConfirmed hash blockNumber success =>
    have hblock : nullable readUInt64? (ofOption ofUInt64 blockNumber) = some blockNumber :=
      nullable_ofOption readUInt64?_ofUInt64 nofun
    simp only [members, List.map_cons, List.map_nil] at hfields
    simp only [ofKind?, kind, members, hfields, Slot.required, Slot.optional, hblock]
    rfl
  | _ =>
    simp only [members, List.map_cons, List.map_nil] at hfields
    simp only [ofKind?, kind, members, hfields, Slot.required, Phase.ofJson?_toJson,
      PhaseStatus.ofJson?_toJson, Family.ofJson?_toJson, readUInt8?_ofUInt8]
    rfl

theorem ne_type_of_mem {e : Event} {m : String × Json} (h : m ∈ e.members) : m.1 ≠ "type" := by
  have hnames : "type" ∉ e.members.map Prod.fst := by
    cases e <;> simp [members]
  intro heq
  exact hnames (List.mem_map.mpr ⟨m, h, heq⟩)

theorem fits_toJson (e : Event) (room : Nat) : Fits (room + 4) e.toJson := by
  refine ⟨Nat.succ_pos _, trivial, ?_⟩
  cases e with
  | finalVerdict v => exact ⟨v.fits_toJson room, trivial⟩
  | detectorScore d bits => exact ⟨trivial, fits_ofUInt8 bits _, trivial⟩
  | transactionConfirmed hash blockNumber success =>
    exact ⟨trivial, fits_ofOption fun n => fits_ofUInt64 n _, trivial, trivial⟩
  | reasoningStart | transactionSubmitted | fatalError => exact ⟨trivial, trivial⟩
  | phase => exact ⟨trivial, trivial, trivial, trivial⟩
  | detectorStarted | reasoningChunk | detectorError => exact ⟨trivial, trivial, trivial⟩

theorem ofJson?_toJson (e : Event) (h : e.Dated) : ofJson? e.toJson = some e := by
  have hreadable := readable_of_fits e.toJson (e.fits_toJson 0)
  have htype : (("type", Json.str e.kind) :: e.members).filter (fun m => m.1 = "type") =
      [("type", .str e.kind)] := by
    rw [List.filter_cons_of_pos (by simp), List.filter_eq_nil_iff.mpr]
    intro m hm
    simpa using ne_type_of_mem hm
  have hrest : (("type", Json.str e.kind) :: e.members).filter (fun m => m.1 ≠ "type") = e.members := by
    rw [List.filter_cons_of_neg (by simp), List.filter_eq_self.mpr]
    intro m hm
    simpa using ne_type_of_mem hm
  rw [toJson] at hreadable ⊢
  simp only [ofJson?, hreadable, not_true_eq_false, if_false, htype, hrest]
  exact e.ofKind?_members h

def ofLine? (s : String) : Option Event := (Json.parse s).bind ofJson?

theorem ofLine?_line (e : Event) (h : e.Dated) : ofLine? e.line = some e := by
  rw [ofLine?, line, parse_render (e.fits_toJson 123), Option.bind_some, e.ofJson?_toJson h]

example : (Event.reasoningChunk "a\n" "\"").line =
    "\x7b\"type\":\"detector-reasoning-chunk\",\"detector\":\"a\\n\",\"text\":\"\\\"\"\x7d" := by
  decide +kernel

theorem printable_line (e : Event) : Printable e.line.toList := by
  rw [line, Json.render, String.toList_ofList]
  exact printable_render e.toJson (e.fits_toJson 0)

def ofLines? (lines : List String) : Option (List Event) := lines.mapM ofLine?

theorem ofLines?_lines {es : List Event} (h : ∀ e ∈ es, e.Dated) :
    ofLines? (es.map line) = some es := by
  induction es with
  | nil => rfl
  | cons e es ih =>
    obtain ⟨he, hes⟩ := List.forall_mem_cons.mp h
    have hrest : (es.map line).mapM ofLine? = some es := ih hes
    rw [ofLines?, List.map_cons, List.mapM_cons, e.ofLine?_line he, hrest]
    rfl

end Event

/-- Each record is read back from its line as it was sent, none of the lines has a line break in it, and
who reads them all learns the outcome of the stream. -/
theorem records_survive_the_wire (es : List Event) (h : ∀ e ∈ es, e.Dated) :
    (∀ e ∈ es, Event.ofLine? e.line = some e ∧ '\n' ∉ e.line.toList ∧ '\r' ∉ e.line.toList) ∧
      Event.ofLines? (es.map Event.line) = some es ∧
      (Event.ofLines? (es.map Event.line)).map StreamOutcome.ofEvents =
        some (StreamOutcome.ofEvents es) := by
  have hlines := Event.ofLines?_lines h
  refine ⟨fun e he => ⟨e.ofLine?_line (h e he), ?_, ?_⟩, hlines, congrArg _ hlines⟩
  · intro hbreak
    exact absurd (e.printable_line _ hbreak) (by decide)
  · intro hbreak
    exact absurd (e.printable_line _ hbreak) (by decide)

def leapVerdict : RiskVerdict where
  tradeId := BitVec.ofNat 256 (2 ^ 256 - 1)
  token := ⟨0xdead⟩
  score := 255
  status := .blocked
  reasoning := "two\r\nlines, a \"quote\" and \x01"
  checks := [⟨"\\", true⟩, ⟨"", false⟩, ⟨"\\", true⟩]
  decidedAt := ⟨9999, 12, 31, 86399, 1999999999⟩

theorem leap_verdict_survives_the_wire :
    let es : List Event := [.reasoningChunk "\n" "",
      .transactionConfirmed "" (some 18446744073709551615) true, .finalVerdict leapVerdict]
    (∀ e ∈ es, e.Dated) ∧ Event.ofLines? (es.map Event.line) = some es ∧
      StreamOutcome.ofEvents es = .verdict leapVerdict := by
  intro es
  have hdated : ∀ e ∈ es, e.Dated := by
    rintro e he v rfl
    have hleap : v = leapVerdict := by simpa [es] using he
    rw [hleap]
    exact ⟨by decide, by decide, by decide, by decide, .inr (by decide)⟩
  exact ⟨hdated, (records_survive_the_wire es hdated).2.1, rfl⟩

end TokenAudit
