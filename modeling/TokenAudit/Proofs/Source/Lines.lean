import TokenAudit.Proofs.Source.Waits

/-! The lines that the search for a source logs. Each begins with the tag of its origin, and the lines
that tell how the search goes are told from all others by how they begin, whatever texts of others
stand in them. -/

namespace TokenAudit

/-! ### How lines begin -/

/-- What the course of a search is read off. -/
inductive Topic where
  | attempt
  | timeout
  | noBytecode
  | exhausted
  deriving DecidableEq

namespace Topic

def head : Topic → String
  | attempt => "Poll attempt "
  | timeout => "Decompilation timed out"
  | noBytecode => "No bytecode"
  | exhausted => "All source retrieval methods exhausted"

def opening (k : Topic) : List Char :=
  SourceNote.decompilerTag.toList ++ ' ' :: k.head.toList

def isOf (k : Topic) (line : String) : Bool := k.opening.isPrefixOf line.toList

def among (k : Topic) (logged : List String) : List String := logged.filter k.isOf

end Topic

namespace SourceNote

def topic? : SourceNote → Option Topic
  | pollAttempt _ _ => some .attempt
  | pollTimedOut _ => some .timeout
  | noBytecode _ => some .noBytecode
  | exhausted => some .exhausted
  | _ => none

def pollFailedHead (transient : Bool) : String :=
  bif transient then "Poll transport error (retrying): " else "Poll error (retrying): "

def head : SourceNote → String
  | submitting _ => "Submitting "
  | networkError _ => "Network error: "
  | apiError _ _ => "API error: HTTP "
  | jobPending _ => "Decompilation pending (job: "
  | pollAttempt _ _ => "Poll attempt "
  | pollReady _ => "Decompilation ready after "
  | pollFailed e => pollFailedHead e.isTransient
  | pollTimedOut _ => "Decompilation timed out after "
  | truncated _ _ => "Output truncated from "
  | complete _ => "Decompilation complete: "
  | verifiedFound _ _ => "Verified source found for "
  | lookupFailed _ _ => "Source lookup failed for "
  | unverified _ => "Unverified contract at "
  | bytecodeFailed _ => "Bytecode fetch failed: "
  | noBytecode _ => "No bytecode at "
  | decompiledAs _ _ _ => "Decompiled "
  | emptyOutput => "Decompiler returned empty output"
  | decompilationFailed _ => "Decompilation failed: "
  | exhausted => "All source retrieval methods exhausted, AI will be skipped"

def opening (n : SourceNote) : List Char := n.tag.toList ++ ' ' :: n.head.toList

theorem message_pollFailed (e : AuditError) :
    (pollFailed e).message = pollFailedHead e.isTransient ++ e.message := by
  change (if e.isTransient = true then _ else _) = _
  cases e.isTransient <;> rfl

theorem head_prefix (n : SourceNote) : n.head.toList <+: n.message.toList := by
  cases n with
  | pollFailed e =>
    rw [message_pollFailed, String.toList_append]
    exact List.prefix_append _ _
  | emptyOutput | exhausted => exact List.prefix_rfl
  | _ =>
    delta head message
    dsimp only
    simp only [String.toList_append, List.append_assoc]
    exact List.prefix_append _ _

theorem opening_prefix (n : SourceNote) : n.opening <+: n.line.toList := by
  have hline : n.line.toList = n.tag.toList ++ ' ' :: n.message.toList := by
    change (n.tag ++ " " ++ n.message).toList = _
    rw [String.toList_append, String.toList_append, List.append_assoc]
    rfl
  rw [hline, opening, List.prefix_append_right_inj, List.cons_prefix_cons]
  exact ⟨rfl, n.head_prefix⟩

theorem topic_opening (k : Topic) (n : SourceNote) :
    (k.opening.isPrefixOf n.opening || n.opening.isPrefixOf k.opening) =
      (n.topic? == some k) ∧
    k.opening.isPrefixOf n.opening = (n.topic? == some k) := by
  -- No opening is the beginning of another, but that a note on a topic begins like it.
  -- The texts are made lists of characters by a lemma, since computing those lists takes long.
  cases n with
  | pollFailed e =>
    have hopening : (pollFailed e).opening =
      decompilerTag.toList ++ ' ' :: (pollFailedHead e.isTransient).toList := rfl
    rw [hopening]
    cases e.isTransient <;> cases k <;> dsimp only [topic?, pollFailedHead, cond, decompilerTag,
      Topic.opening, Topic.head] <;> (repeat rw [String.toList_ofList]) <;> decide
  | _ =>
    cases k <;> dsimp only [opening, tag, head, topic?, decompilerTag, explorerTag, Topic.opening,
      Topic.head] <;> (repeat rw [String.toList_ofList]) <;> decide

theorem isOf_line (k : Topic) (n : SourceNote) : k.isOf n.line = (n.topic? == some k) := by
  rw [Bool.eq_iff_iff, Topic.isOf, List.isPrefixOf_iff_prefix]
  constructor
  · intro hk
    rw [← (topic_opening k n).1, Bool.or_eq_true, List.isPrefixOf_iff_prefix,
      List.isPrefixOf_iff_prefix]
    exact List.prefix_or_prefix_of_prefix hk n.opening_prefix
  · intro hn
    rw [← (topic_opening k n).2, List.isPrefixOf_iff_prefix] at hn
    exact hn.trans n.opening_prefix

end SourceNote

namespace Topic

variable (k : Topic)

theorem among_append (xs ys : List String) : k.among (xs ++ ys) = k.among xs ++ k.among ys :=
  List.filter_append ..

theorem among_lines (ns : List SourceNote) :
    k.among (ns.map SourceNote.line) =
      (ns.filter fun n => n.topic? == some k).map SourceNote.line := by
  rw [among, List.filter_map]
  congr 2
  funext n
  exact SourceNote.isOf_line k n

theorem among_eq_nil {ns : List SourceNote} (h : ∀ n ∈ ns, n.topic? ≠ some k) :
    k.among (ns.map SourceNote.line) = [] := by
  rw [among_lines, List.map_eq_nil_iff, List.filter_eq_nil_iff]
  exact fun n hn => by simpa using h n hn

theorem among_of_no_topic {ns : List SourceNote} (h : ∀ n ∈ ns, n.topic? = none) :
    k.among (ns.map SourceNote.line) = [] := by
  refine k.among_eq_nil fun n hn => ?_
  rw [h n hn]
  exact (Option.some_ne_none k).symm

theorem among_around {before after : List SourceNote} (hbefore : ∀ n ∈ before, n.topic? = none)
    (ns : List SourceNote) (hafter : ∀ n ∈ after, n.topic? = none) :
    k.among ((before ++ (ns ++ after)).map SourceNote.line) = k.among (ns.map SourceNote.line) := by
  rw [List.map_append, List.map_append, among_append, among_append, k.among_of_no_topic hbefore,
    k.among_of_no_topic hafter, List.append_nil, List.nil_append]

theorem among_cons {n : SourceNote} (ns : List SourceNote) (h : n.topic? = some k) :
    k.among ((n :: ns).map SourceNote.line) = n.line :: k.among (ns.map SourceNote.line) := by
  have hn : k.isOf n.line = true := by
    rw [SourceNote.isOf_line, h]
    exact beq_self_eq_true (some k)
  exact List.filter_cons_of_pos hn

theorem among_cons_of_ne {n : SourceNote} (ns : List SourceNote) (h : n.topic? ≠ some k) :
    k.among ((n :: ns).map SourceNote.line) = k.among (ns.map SourceNote.line) := by
  have hn : ¬k.isOf n.line = true := by
    rw [SourceNote.isOf_line]
    simpa using h
  exact List.filter_cons_of_neg hn

/-- The one line on a topic is told exactly if something is so. -/
structure ToldIff (line : String) (p : Prop) (logged : List String) : Prop where
  told : p → k.among logged = [line]
  untold : ¬p → k.among logged = []

variable {k}

theorem ToldIff.congr {line : String} {p : Prop} {logged more : List String}
    (h : k.ToldIff line p logged) (hsame : k.among more = k.among logged) : k.ToldIff line p more :=
  ⟨fun hp => hsame.trans (h.told hp), fun hp => hsame.trans (h.untold hp)⟩

theorem toldIff_of {line : String} {p : Prop} {logged : List String} (hp : p)
    (h : k.among logged = [line]) : k.ToldIff line p logged := ⟨fun _ => h, fun hno => absurd hp hno⟩

theorem toldIff_of_not {line : String} {p : Prop} {logged : List String} (hp : ¬p)
    (h : k.among logged = []) : k.ToldIff line p logged := ⟨fun h => absurd h hp, fun _ => h⟩

end Topic

/-! ### What has been logged -/

def SourceAct.note? : SourceAct → Option SourceNote
  | .noted n => some n
  | _ => none

namespace Decompiler

variable {σ α : Type}

def notes (world : SourceWorld σ) : List SourceNote := world.acts.filterMap SourceAct.note?

def lines (world : SourceWorld σ) : List String := (notes world).map SourceNote.line

@[simp] theorem notes_note (world : SourceWorld σ) (n : SourceNote) :
    notes (note world n) = notes world ++ [n] := by
  simp [notes, note, SourceAct.note?]

@[simp] theorem notes_notes (world : SourceWorld σ) (ns : List SourceNote) :
    notes (ns.foldl note world) = notes world ++ ns := by
  induction ns generalizing world with
  | nil => exact (List.append_nil _).symm
  | cons n ns ih => rw [List.foldl_cons, ih, notes_note, List.append_assoc, List.singleton_append]

theorem notes_record (world : SourceWorld σ) {act : SourceAct} (h : act.note? = none) :
    notes (world.record act) = notes world := by
  simp [notes, h]

theorem notes_of_trace {world after : SourceWorld σ} (h : after.trace = world.trace) :
    notes after = notes world := by
  rw [notes, notes, World.acts, World.acts, h]

theorem notes_of_ask {world after : SourceWorld σ} {w : Window} {request : Ask σ α}
    {answer : Option α} (h : world.ask w request = (answer, after)) : notes after = notes world := by
  refine notes_of_trace ?_
  rw [← World.trace_ask world w request, h]

theorem notes_of_rest {world after : SourceWorld σ} {w : Window} {duration : Nat}
    {woken : Option Woken} (h : world.rest w duration = (woken, after)) :
    notes after = notes world := by
  refine notes_of_trace ?_
  rw [← World.trace_rest world w duration, h]

def cutNotes (limits : Limits) (output : List Char) : List SourceNote :=
  if limits.maxOutputChars < output.length then [.truncated output.length limits.maxOutputChars]
  else []

theorem notes_afterCut (limits : Limits) (output : List Char) (world : SourceWorld σ) :
    notes (afterCut limits output world) = notes world ++ cutNotes limits output := by
  unfold afterCut cutNotes
  split
  · exact notes_note world _
  · exact (List.append_nil _).symm

end Decompiler

end TokenAudit
