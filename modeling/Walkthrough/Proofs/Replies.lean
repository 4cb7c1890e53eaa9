import Walkthrough.Proofs.Calls
import Walkthrough.Proofs.CleanValues
import Walkthrough.Proofs.Edges
import Walkthrough.Proofs.Json.Literals
import Walkthrough.Proofs.Responses

/-!
# The framing of replies

No text that a client sends, and none in a snippet, can break the line of a reply or the
document in it.  `replies_framed` says so of single replies and of all that a session
writes.

* every part of a trace is readable: numbers are in range, and nothing is nested deeper than
  a reader allows (`Trace.readable_toJson`), as lists are flat and frames are fresh;
* so is every reply: `Command.readable_reply`;
* `splitOn_sent` cuts a stream of lines at its line feeds.
-/

namespace Walkthrough

/-- The times of a run are 64-bit numbers. -/
structure Run.IsTimed (run : Run) : Prop where
  clock : ∀ n, run.clock n < UInt64.size
  elapsed : run.elapsed < UInt64.size

/-- A run that takes no time. -/
theorem Run.isTimed_zero : IsTimed ⟨[], fun _ => 0, 0⟩ :=
  ⟨fun _ => Nat.pos_of_ne_zero (by decide), by decide⟩

/-! ## Values -/

section
variable (depth : Nat)

theorem Value.readable_ofInt (n : Int32) : Json.Readable depth (Value.int n).toJson := by
  refine Json.readable_ofInt depth ?_
  have low := n.le_toInt
  have high := n.toInt_lt
  simp only [Json.NumberLiteral.significandLimit]
  omega

theorem Value.IsElement.readable_toJson {value : Value} (h : value.IsElement) :
    Json.Readable depth value.toJson := by
  cases h with
  | int n => exact readable_ofInt depth n
  | double _ => exact Json.readable_ofDouble depth _
  | text _ _ => exact .string depth _

theorem Value.IsClean.readable_toJson {value : Value} (h : value.IsClean) :
    Json.Readable (depth + 1) value.toJson := by
  cases h with
  | int n => exact readable_ofInt _ n
  | double _ => exact Json.readable_ofDouble _ _
  | text _ => exact .string _ _
  | list elements =>
    rw [toJson, allToJson_eq_map]
    exact .array (List.forall_mem_map.2 fun element mem =>
      (elements element mem).readable_toJson depth)
  | placeholder => exact .string _ _

theorem Value.readable_entriesToJson {entries : List (Text × Value)}
    (h : ∀ entry ∈ entries, entry.2.IsClean) :
    Json.Readable (depth + 2) (entriesToJson entries) :=
  .object (List.forall_mem_map.2 fun entry mem => (h entry mem).readable_toJson depth)

theorem readable_strings (ts : List Text) : Json.Readable (depth + 1) (Json.strings ts) :=
  .array (List.forall_mem_map.2 fun t _ => .string depth t)

/-- A field that may lack a value. -/
theorem readable_of_mem_map {α : Type} {f : α → Json} {found : Option α}
    (h : ∀ x ∈ found, Json.Readable depth (f x)) :
    ∀ value ∈ found.map f, Json.Readable depth value := by
  intro value mem
  obtain ⟨x, hx, rfl⟩ := Option.map_eq_some_iff.1 mem
  exact h x hx

/-! ## The parts of a step -/

theorem readable_small {n : Nat} (h : n ≤ 16) : Json.Readable depth (Json.ofNat n) :=
  Json.readable_ofNat depth (Nat.lt_of_le_of_lt h (by decide))

theorem Frame.readable_toJson {frame : Frame} (h : frame.IsFresh) (line : frame.lineNumber ≤ 15) :
    Json.Readable (depth + 3) frame.toJson := by
  have parameters : ∀ entry ∈ frame.parameters.entries, entry.2.IsClean := fun entry mem =>
    h.parameters entry mem ▸ .placeholder
  have locals : ∀ entry ∈ frame.localVariables.entries, entry.2.IsClean :=
    h.localVariables ▸ List.forall_mem_nil _
  refine Json.readable_record ?_
  simp only [List.forall_mem_cons, Option.mem_some_iff, forall_eq', h.returnValue, Option.map_none,
    Option.not_mem_none, false_implies, forall_const]
  exact ⟨.string _ _, Value.readable_entriesToJson depth parameters,
    Value.readable_entriesToJson depth locals, trivial, readable_small _ (by omega),
    List.forall_mem_nil _⟩

theorem MemoryObject.readable_toJson {object : MemoryObject} (h : object.value.IsClean) :
    Json.Readable (depth + 2) object.toJson := by
  refine Json.readable_record ?_
  simp only [List.forall_mem_cons, Option.mem_some_iff, forall_eq']
  exact ⟨.string _ _, .string _ _, h.readable_toJson depth, readable_strings depth _,
    List.forall_mem_nil _⟩

theorem DataStructure.readable_toJson {detected : DataStructure} (h : detected.data.IsClean) :
    Json.Readable (depth + 2) detected.toJson := by
  refine Json.readable_record ?_
  simp only [List.forall_mem_cons, Option.mem_some_iff, forall_eq']
  exact ⟨.string _ _, h.readable_toJson depth, readable_strings depth _, List.forall_mem_nil _⟩

theorem Edge.readable_toJson {edge : Edge} (source : edge.source ≤ 15) (target : edge.target ≤ 15) :
    Json.Readable (depth + 1) edge.toJson := by
  refine Json.readable_record ?_
  simp only [List.forall_mem_cons, Option.mem_some_iff, forall_eq']
  exact ⟨readable_small _ (by omega), readable_small _ (by omega), .string _ _,
    readable_of_mem_map _ fun b _ => .bool _ b, List.forall_mem_nil _⟩

theorem Trace.length_visited_le (code : Text) : (visited code).length ≤ 15 := by
  calc (visited code).length ≤ (readLines code).zipIdx.length := by
        rw [visited, significantLines, List.length_map]
        exact List.length_filter_le _ _
    _ ≤ 15 := by
        rw [List.length_zipIdx, readLines, List.length_take]
        exact Nat.min_le_left _ _

/-- The ends of an edge are among the lines that are read. -/
theorem Trace.edge_bounds (run : Run) {code : Text} {k : Nat} (hk : k ≤ (visited code).length) :
    ∀ edge ∈ (stateAt run code k).edges, edge.source ≤ 15 ∧ edge.target ≤ 15 := by
  have inside (edge : Edge) (item : Nat × Text) (enters : edge.Enters code item.1) :
      (edge.source ≤ 15 ∧ edge.target ≤ 15) ∧ edge.Enters code item.1 := by
    have target_le := enters.target_le
    have target := enters.target
    have source := enters.source
    exact ⟨by omega, enters⟩
  exact ((List.forall₂_and_left _ _).1 ((edges_stateAt run hk).flip.imp inside)).1

/-- The numbers of a step. -/
theorem Trace.number_bounds {run : Run} {code : Text} {language : Language} {k : Nat} {step : Step}
    (h : (synthesize run code language)[k]? = some step) :
    step.number ≤ 16 ∧ (∀ n ∈ step.highlight, n ≤ 15) ∧ step.timestamp = run.clock step.number := by
  have few := length_visited_le code
  have hk := le_length_of_step h
  rcases step_cases h with ⟨item, found, rfl⟩ | ⟨-, -, rfl⟩
  · have early := (mem_visited.1 (List.mem_of_getElem? found)).1
    refine ⟨Nat.succ_le_succ (Nat.le_trans hk few), fun n hn => ?_, rfl⟩
    rw [← Option.some.inj hn]
    exact early
  · refine ⟨Nat.succ_le_succ (Nat.le_trans hk few), fun n hn => ?_, rfl⟩
    cases hn

/-- Every step of a trace is readable. -/
theorem Step.readable_toJson {run : Run} (timed : run.IsTimed) {code : Text} {language : Language}
    {k : Nat} {step : Step} (h : (Trace.synthesize run code language)[k]? = some step) :
    Json.Readable (depth + 5) step.toJson := by
  have clean := Trace.isClean_of_getElem? h
  have edges : ∀ edge ∈ step.edges, edge.source ≤ 15 ∧ edge.target ≤ 15 :=
    (Trace.pictures_stateAt h).edges ▸ Trace.edge_bounds run (Trace.le_length_of_step h)
  have frames : ∀ frame ∈ step.frames, Json.Readable (depth + 3) frame.toJson := by
    intro frame mem
    obtain ⟨fresh, line⟩ := Trace.isFresh_of_mem_frames h mem
    exact frame.readable_toJson depth fresh line
  obtain ⟨number, highlight, timestamp⟩ := Trace.number_bounds h
  refine Json.readable_record ?_
  simp only [List.forall_mem_cons, Option.mem_some_iff, forall_eq']
  refine ⟨readable_small _ number, .string _ _, Value.readable_entriesToJson _ clean.environment,
    readable_of_mem_map _ fun n hn => readable_small _ (Nat.le_succ_of_le (highlight n hn)),
    readable_of_mem_map _ fun t _ => .string _ t, ?_, ?_, ?_, ?_, ?_, List.forall_mem_nil _⟩
  · exact .array (List.forall_mem_map.2 frames)
  · exact .array (List.forall_mem_map.2 fun object mem =>
      object.readable_toJson (depth + 1) (clean.memory object mem))
  · exact .array (List.forall_mem_map.2 fun edge mem =>
      edge.readable_toJson (depth + 2) (edges edge mem).1 (edges edge mem).2)
  · exact .array (List.forall_mem_map.2 fun detected mem =>
      detected.readable_toJson (depth + 1) (clean.structures detected mem).data)
  · exact Json.readable_ofNat _ (timestamp ▸ timed.clock step.number)

theorem Trace.readable_toJson {run : Run} (timed : run.IsTimed) (code : Text)
    (language : Language) : Json.Readable (depth + 6) (synthesize run code language).toJson := by
  refine .array (List.forall_mem_map.2 fun step mem => ?_)
  obtain ⟨k, found⟩ := List.mem_iff_getElem?.1 mem
  exact Step.readable_toJson depth timed found

/-! ## Replies -/

theorem Response.readable_toJson {r : Response}
    (steps : ∀ trace ∈ r.steps?, Json.Readable (depth + 6) trace.toJson)
    (elapsed : ∀ n ∈ r.elapsed?, n < UInt64.size) : Json.Readable (depth + 7) r.toJson := by
  refine Json.readable_record ?_
  simp only [List.forall_mem_cons, Option.mem_some_iff, forall_eq']
  exact ⟨.bool _ _, readable_of_mem_map _ fun t _ => .string _ t,
    readable_of_mem_map _ fun t _ => .string _ t, readable_of_mem_map _ steps,
    readable_of_mem_map _ fun n hn => Json.readable_ofNat _ (elapsed n hn), List.forall_mem_nil _⟩

theorem Operation.readable_respond {run : Run} (timed : run.IsTimed) (operation : Operation)
    (r : Request) : Json.Readable (depth + 7) (operation.respond run r).toJson := by
  cases validated : r.validate with
  | error errors =>
    rw [operation.respond_of_error validated run]
    exact Response.readable_toJson depth (fun _ mem => by cases mem) (fun _ mem => by cases mem)
  | ok snippet =>
    cases operation with
    | execute =>
      simp only [respond, Request.execute, validated, Snippet.execute_eq]
      refine Response.readable_toJson depth (fun _ mem => by cases mem) fun n hn => ?_
      rw [← Option.some.inj hn]
      exact timed.elapsed
    | visualize =>
      simp only [respond, Request.visualize, validated, Snippet.visualize_eq]
      refine Response.readable_toJson depth (fun trace mem => ?_) fun n hn => ?_
      · rw [← Option.some.inj mem]
        exact Trace.readable_toJson depth timed _ _
      · rw [← Option.some.inj hn]
        exact timed.elapsed

/-- A status and the one field that comes with it. -/
theorem Reply.readable_fields (status name : String) {value : Json}
    (h : Json.Readable depth value) : Json.Readable (depth + 1)
      (.record [("status", some (.string status.toList)), (name, some value)]) := by
  refine Json.readable_record ?_
  simp only [List.forall_mem_cons, Option.mem_some_iff, forall_eq']
  exact ⟨.string _ _, h, List.forall_mem_nil _⟩

theorem Reply.readable_problem (error : CommandError) :
    Json.Readable (depth + 1) (problem error).toJson :=
  readable_fields depth _ _ (.string depth _)

theorem Reply.readable_success {data : Json} (h : Json.Readable depth data) :
    Json.Readable (depth + 1) (success data).toJson :=
  readable_fields depth _ _ h

theorem Reply.readable_ofResponse {r : Response} (h : Json.Readable depth r.toJson) :
    Json.Readable (depth + 1) (ofResponse r).toJson := by
  unfold ofResponse
  split
  · exact readable_success depth h
  · exact readable_fields depth _ _ h

theorem Command.readable_answer {run : Run} (timed : run.IsTimed) (c : Command) :
    Json.Readable (depth + 8) (c.answer run).toJson := by
  have served (operation : Operation) :
      Json.Readable (depth + 8) (c.answerWith (operation.respond run)).toJson := by
    unfold answerWith
    split
    · exact Reply.readable_problem _ _
    · exact Reply.readable_ofResponse _ (operation.readable_respond depth timed _)
  unfold answer
  split
  · exact Reply.readable_success _ (.string _ _)
  · split
    · exact Reply.readable_success _ (.string _ _)
    · split
      · exact served .execute
      · split
        · exact served .visualize
        · exact Reply.readable_problem _ _

/-- A reply is readable, whatever the line is. -/
theorem Command.readable_reply {run : Run} (timed : run.IsTimed) (line : Text) :
    Json.Readable (depth + 8) (Command.reply run line) := by
  refine Json.Readable.sorted ?_
  split
  · exact Reply.readable_problem _ _
  · exact readable_answer depth timed _

end

/-! ## Over a connection -/

namespace Session

/-- The bytes that are written back, a line for each reply. -/
def output (runs : Nat → Run) (bytes : List UInt8) : List UInt8 :=
  sent ((serve runs 0 bytes).replies.map Json.write)

/-- Each line ends with its line feed, and nothing comes after the last one. -/
theorem splitOn_sent {lines : List Text} (h : ∀ line ∈ lines, '\n' ∉ line) :
    (sent lines).splitOn lineFeed = lines.map Text.toUtf8 ++ [[]] := by
  have sent_eq : sent lines = [lineFeed].intercalate (lines.map Text.toUtf8 ++ [[]]) := by
    clear h
    induction lines with
    | nil => rfl
    | cons line lines ih =>
      have more : lines.map Text.toUtf8 ++ [[]] ≠ [] :=
        List.append_ne_nil_of_right_ne_nil _ (List.cons_ne_nil _ _)
      have split : sent (line :: lines) = Text.toUtf8 line ++ [lineFeed] ++ sent lines := by
        simp only [sent, Text.toUtf8, List.flatMap_cons, List.flatMap_append]
        rfl
      rw [split, ih, List.map_cons, List.cons_append, List.intercalate_cons_of_ne_nil more]
  rw [sent_eq]
  refine List.splitOn_intercalate lineFeed ?_ ?_
  · refine List.forall_mem_append.2 ⟨List.forall_mem_map.2 fun line mem => ?_, ?_⟩
    · exact lineFeed_not_mem_toUtf8 (h line mem)
    · exact List.forall_mem_singleton.2 List.not_mem_nil
  · exact List.append_ne_nil_of_right_ne_nil _ (List.cons_ne_nil _ _)

/-- **The framing of replies.**  Whatever a line is, the compact text of its reply has no
control characters and is read back as the reply, with nothing after it.  And so what is
written over a connection, cut at its line feeds, is one document for each line that is
answered, in their order, and nothing after the last line feed. -/
theorem replies_framed (runs : Nat → Run) (timed : ∀ n, (runs n).IsTimed) :
    (∀ n line, (∀ c ∈ (Command.reply (runs n) line).write, 0x20 ≤ c.toNat) ∧
      Json.read? (Command.reply (runs n) line).write = some (Command.reply (runs n) line)) ∧
    ∀ bytes, ∃ documents : List (List UInt8),
      (output runs bytes).splitOn lineFeed = documents ++ [[]] ∧
      documents.map (fun document => (Text.ofUtf8? document).bind Json.read?) =
        (requestLines bytes).mapIdx fun n line => some (Command.reply (runs n) line) := by
  have readable (n : Nat) (line : Text) := Command.readable_reply 119 (timed n) line
  have printing (n : Nat) (line : Text) :
      ∀ c ∈ (Command.reply (runs n) line).write, 0x20 ≤ c.toNat :=
    fun c hc => Json.not_control_of_mem_write (readable n line) hc
  have read (n : Nat) (line : Text) :
      Json.read? (Command.reply (runs n) line).write = some (Command.reply (runs n) line) :=
    Json.read?_write (readable n line)
  refine ⟨fun n line => ⟨printing n line, read n line⟩, fun bytes => ?_⟩
  have lines : ∀ line ∈ (serve runs 0 bytes).replies.map Json.write, '\n' ∉ line := by
    rw [serve_eq]
    refine List.forall_mem_map.2 fun reply mem feed => ?_
    obtain ⟨n, hn, rfl⟩ := List.mem_mapIdx.1 mem
    exact absurd (printing _ _ _ feed) (by decide)
  refine ⟨_, splitOn_sent lines, ?_⟩
  simp only [serve_eq, List.mapIdx_eq_zipIdx_map, List.map_map, Function.comp_def,
    Text.ofUtf8?_toUtf8, Option.bind_some, read, Nat.zero_add]

/-- Of three lines a session answers the two that are not blank, each with a document,
though neither of them is a command. -/
theorem replies_framed_blank :
    let runs : Nat → Run := fun _ => ⟨[], fun _ => 0, 0⟩
    (∀ n, (runs n).IsTimed) ∧ ∃ first second,
      (output runs (sent [['x'], [], ['"']])).splitOn lineFeed = [first, second, []] ∧
      (Text.ofUtf8? first).bind Json.read? = some (Command.reply (runs 0) ['x']) ∧
      (Text.ofUtf8? second).bind Json.read? = some (Command.reply (runs 1) ['"']) := by
  intro runs
  have timed (n : Nat) : (runs n).IsTimed := ⟨fun _ => Nat.pos_of_ne_zero (by decide), by decide⟩
  obtain ⟨documents, split, read⟩ := (replies_framed runs timed).2 (sent [['x'], [], ['"']])
  have lines : requestLines (sent [['x'], [], ['"']]) = [['x'], ['"']] := by
    rw [requestLines, validTexts_sent (by decide)]
    decide
  rw [lines] at read
  obtain ⟨first, rest, rfl, first_read, rest_read⟩ := List.map_eq_cons_iff.1 read
  obtain ⟨second, none, rfl, second_read, none_read⟩ := List.map_eq_cons_iff.1 rest_read
  obtain rfl := List.map_eq_nil_iff.1 none_read
  exact ⟨timed, first, second, split, first_read, second_read⟩

end Session
end Walkthrough
