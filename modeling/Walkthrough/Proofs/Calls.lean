import Walkthrough.Proofs.Requests
import Walkthrough.Proofs.Sessions
import Walkthrough.Proofs.Text.Trim

/-!
# Calls over a connection

A call is an operation on a request, sent as a line of its own.  `serve_calls` says that a
session over any calls answers each of them, in their order, with what the operation gives
for the very request that was sent: nothing in the texts of a request can break the line,
the document or the request that it is in.

* `serve_lines` is about any lines that have no line feeds and no blanks at their ends:
  those that are sent are those that are answered;
* `read?_text` recovers the command of a call, and `ofJson?_toJson` the request in it.
-/

namespace Walkthrough

/-! ## Lines over a connection -/

namespace Session

/-- Lines as bytes, with a line feed after each. -/
def sent (lines : List Text) : List UInt8 := Text.toUtf8 (lines.flatMap fun line => line ++ ['\n'])

theorem lineFeed_ne_ofNat {x : Nat} (low : 0x80 ≤ x) (high : x < 0x100) :
    lineFeed ≠ UInt8.ofNat x := by
  intro same
  have value := congrArg UInt8.toNat same
  have ten : lineFeed.toNat = 10 := rfl
  rw [UInt8.toNat_ofNat_of_lt' high] at value
  omega

/-- In UTF-8 no other character has the byte of the line feed. -/
theorem lineFeed_mem_utf8EncodeChar {c : Char} (h : lineFeed ∈ String.utf8EncodeChar c) :
    c = '\n' := by
  apply Text.toNat_injective
  simp only [String.utf8EncodeChar, Char.toNat] at h ⊢
  generalize c.val.toNat = n at *
  split at h
  · rename_i ascii
    have small : n < 0x100 := by omega
    have value := congrArg UInt8.toNat (List.mem_singleton.1 h)
    rw [UInt8.toNat_ofNat_of_lt' small] at value
    exact value.symm
  · -- all bytes of the longer forms are above those of ASCII
    refine absurd h ?_
    repeat' split
    all_goals simp only [List.mem_cons, List.not_mem_nil, or_false, not_or]
    all_goals repeat' apply And.intro
    all_goals exact lineFeed_ne_ofNat (by omega) (by omega)

theorem lineFeed_not_mem_toUtf8 {t : Text} (h : '\n' ∉ t) : lineFeed ∉ Text.toUtf8 t := by
  intro feed
  obtain ⟨c, hc, inside⟩ := List.mem_flatMap.1 feed
  rw [lineFeed_mem_utf8EncodeChar inside] at hc
  exact h hc

theorem pieces_line {line : List UInt8} (h : lineFeed ∉ line) :
    pieces (line ++ [lineFeed]) = [line ++ [lineFeed]] := by
  induction line with
  | nil => rfl
  | cons byte line ih =>
    rw [List.mem_cons, not_or] at h
    obtain ⟨differs, h⟩ := h
    rw [List.cons_append, pieces, if_neg (Ne.symm differs), ih h]

theorem pieces_sent {lines : List Text} (h : ∀ line ∈ lines, '\n' ∉ line) :
    pieces (sent lines) = lines.map fun line => Text.toUtf8 (line ++ ['\n']) := by
  induction lines with
  | nil => rfl
  | cons line lines ih =>
    obtain ⟨first, others⟩ := List.forall_mem_cons.1 h
    have encoded : Text.toUtf8 (line ++ ['\n']) = Text.toUtf8 line ++ [lineFeed] :=
      List.flatMap_append
    have split : sent (line :: lines) = Text.toUtf8 (line ++ ['\n']) ++ sent lines :=
      List.flatMap_append
    rw [split, encoded, pieces_append (List.getLast?_concat), ih others,
      pieces_line (lineFeed_not_mem_toUtf8 first), List.map_cons, encoded, List.singleton_append]

theorem validTexts_toUtf8 (texts : List Text) : validTexts (texts.map Text.toUtf8) = texts := by
  induction texts with
  | nil => rfl
  | cons t texts ih => rw [List.map_cons, validTexts, Text.ofUtf8?_toUtf8, ih]

theorem validTexts_sent {lines : List Text} (h : ∀ line ∈ lines, '\n' ∉ line) :
    validTexts (pieces (sent lines)) = lines.map (· ++ ['\n']) := by
  rw [pieces_sent h, ← validTexts_toUtf8 (lines.map _), List.map_map]
  rfl

/-- A session over lines answers each of them. -/
theorem serve_lines (runs : Nat → Run) {lines : List Text}
    (h : ∀ line ∈ lines, '\n' ∉ line ∧ line ≠ [] ∧ Text.Trimmed line) :
    serve runs 0 (sent lines) =
      ⟨lines.mapIdx fun n line => Command.reply (runs n) line, true⟩ := by
  have cut := pieces_sent fun line hl => (h line hl).1
  have clean : isClean (sent lines) = true := by
    refine isClean_iff.2 ?_
    rw [cut]
    exact List.forall_mem_map.2 fun line _ => ⟨_, rfl⟩
  have requests : requestLines (sent lines) = lines := by
    have trimmed : (lines.map (· ++ ['\n'])).map Text.trim = lines := by
      rw [List.map_map]
      refine (List.map_congr_left fun line hl => ?_).trans (List.map_id lines)
      rw [Function.comp_apply, Text.trim_append_blanks line (List.forall_mem_singleton.2 rfl)]
      exact (h line hl).2.2.trim_eq
    have full : ∀ line ∈ lines, (!line.isEmpty) = true := by
      intro line hl
      rw [Bool.not_eq_true', List.isEmpty_eq_false_iff]
      exact (h line hl).2.1
    rw [requestLines, validTexts_sent fun line hl => (h line hl).1, trimmed,
      List.filter_eq_self.2 full]
  rw [serve_eq, clean, requests]
  simp only [Nat.zero_add]

end Session

/-! ## Calls -/

/-- What may be asked for about a snippet. -/
inductive Operation where
  | execute
  | visualize

namespace Operation

def name : Operation → Text
  | .execute => "EXECUTE".toList
  | .visualize => "VISUALIZE".toList

def respond : Operation → Run → Request → Response
  | .execute => Request.execute
  | .visualize => Request.visualize

end Operation

theorem Command.answer_operation {c : Command} {operation : Operation}
    (h : c.name = operation.name) (run : Run) :
    c.answer run = c.answerWith (operation.respond run) := by
  have ping : operation.name ≠ "PING".toList := by cases operation <;> decide
  have health : operation.name ≠ "HEALTH".toList := by cases operation <;> decide
  rw [answer, h, if_neg ping, if_neg health]
  cases operation with
  | execute => exact if_pos rfl
  | visualize =>
    have execute : Operation.visualize.name ≠ "EXECUTE".toList := by decide
    rw [if_neg execute]
    exact if_pos rfl

structure Call where
  operation : Operation
  request : Request

namespace Call

/-- The line of a call, without its line feed. -/
def text (c : Call) : Text :=
  "\x7b\"command\":\"".toList ++ c.operation.name ++ "\",\"params\":".toList ++
    c.request.toJson.write ++ ['\x7d']

def toJson (c : Call) : Json :=
  .object
    [("command".toList, .string c.operation.name), ("params".toList, c.request.toJson)]

theorem text_eq_write (c : Call) : c.text = c.toJson.write := by
  have command : Json.escape "command".toList = "command".toList :=
    Json.escape_eq_self (by decide)
  have params : Json.escape "params".toList = "params".toList := Json.escape_eq_self (by decide)
  have name : Json.escape c.operation.name = c.operation.name :=
    Json.escape_eq_self (by cases c.operation <;> decide)
  rw [toJson, Json.write_pair command name params]
  rfl

theorem readable_toJson (c : Call) (depth : Nat) : Json.Readable (depth + 2) c.toJson :=
  (Json.Readable.string _ c.operation.name).pair (c.request.readable_toJson depth) _ _

def command (c : Call) : Command := ⟨c.operation.name, some c.request.toJson⟩

/-- What the service has to say to a call. -/
def reply (run : Run) (c : Call) : Reply := .ofResponse (c.operation.respond run c.request)

theorem read?_text (c : Call) : Command.read? c.text = some c.command := by
  have differ : "command".toList ≠ "params".toList := by decide
  have name : (Json.string c.operation.name).document.text? = some c.operation.name :=
    Json.unescape?_escape c.operation.name
  have decoded := Json.decode?_document (c.request.readable_toJson 125)
  have params : Command.decodeParams? (some c.request.toJson.document) =
      some (some c.request.toJson) := congrArg (Option.map some) decoded
  have complete : (guard (Command.isComplete c.toJson.document = true) : Option Unit) =
      some () := rfl
  have fields : c.toJson.document.fields? "command".toList "params".toList =
      some (some (Json.string c.operation.name).document, some c.request.toJson.document) :=
    Json.Document.fields?_pair differ (.string c.operation.name) c.request.toJson
  rw [text_eq_write, Command.read?, Json.Document.read?_write (c.readable_toJson 0)]
  change Command.ofDocument? c.toJson.document = some c.command
  rw [Command.ofDocument?, complete, fields]
  simp only [Option.bind_eq_bind, Option.bind_some, name, params]
  rfl

theorem request_command (c : Call) : c.command.request = .ok c.request := by
  simp only [Command.request, command, Request.ofJson?_toJson]

theorem answer_command (run : Run) (c : Call) : c.command.answer run = c.reply run := by
  rw [Command.answer_operation rfl, Command.answerWith, request_command]
  rfl

theorem reply_text (run : Run) (c : Call) :
    Command.reply run c.text = (c.reply run).toJson.sorted := by
  simp only [Command.reply, read?_text, answer_command]

theorem lineFeed_not_mem_text (c : Call) : '\n' ∉ c.text := by
  intro h
  rw [text_eq_write] at h
  have control := Json.not_control_of_mem_write (c.readable_toJson 0) h
  exact absurd control (by decide)

theorem trimmed_text (c : Call) : Text.Trimmed c.text :=
  .of_ends (c := '\x7b') (d := '\x7d') rfl (List.getLast?_concat) (by decide) (by decide)

end Call

/-- **A session of calls.**  No call has a line feed in its text, and the request comes back
from what is written of it.  A session over any calls ends without an error, and it answers
each call, in their order, with what the operation gives for its request. -/
theorem Session.serve_calls (runs : Nat → Run) (calls : List Call) :
    (∀ c ∈ calls, '\n' ∉ c.text ∧
      Request.read? c.request.toJson.write = some c.request ∧
      (Json.read? c.request.toJson.write).bind Request.ofJson? = some c.request) ∧
    serve runs 0 (sent (calls.map Call.text)) =
      ⟨calls.mapIdx fun n c =>
        (Reply.ofResponse (c.operation.respond (runs n) c.request)).toJson.sorted, true⟩ := by
  constructor
  · intro c _
    refine ⟨c.lineFeed_not_mem_text, c.request.read?_write, ?_⟩
    rw [Json.read?_write (c.request.readable_toJson 126)]
    exact c.request.ofJson?_toJson
  · have lines : ∀ line ∈ calls.map Call.text, '\n' ∉ line ∧ line ≠ [] ∧ Text.Trimmed line := by
      refine List.forall_mem_map.2 fun c _ => ⟨c.lineFeed_not_mem_text, ?_, c.trimmed_text⟩
      exact List.append_ne_nil_of_right_ne_nil _ (List.cons_ne_nil _ _)
    rw [serve_lines runs lines]
    simp only [List.mapIdx_eq_zipIdx_map, List.zipIdx_map, List.map_map, Function.comp_def,
      Prod.map_fst, Prod.map_snd, id, Call.reply_text, Call.reply]

end Walkthrough
