import Walkthrough.Proofs.Calls
import Walkthrough.Proofs.Decoding
import Walkthrough.Proofs.Json.Paths

/-!
# The envelope of a reply

Every line has a reply with a status, and with either data or a message
(`Command.reply_envelope`).  A message is the first problem that keeps a line from being
served: the line is no command, its name is unknown, its parameters are missing, or they
are no request.
-/

namespace Walkthrough

/-! ## Two shapes -/

namespace Reply

def withData (status : String) (data : Json) : Json :=
  .object [("data".toList, data), ("status".toList, .string status.toList)]

def withMessage (message : Text) : Json :=
  .object [("message".toList, .string message), ("status".toList, .string "error".toList)]

theorem sorted_success (data : Json) :
    (success data).toJson.sorted = withData "success" data.sorted := rfl

theorem sorted_failure (data : Json) :
    (failure data).toJson.sorted = withData "error" data.sorted := rfl

theorem sorted_problem (error : CommandError) :
    (problem error).toJson.sorted = withMessage error.message := rfl

theorem withData_ne_withMessage (status : String) (data : Json) (message : Text) :
    withData status data ≠ withMessage message := by
  intro same
  have names : ["data".toList, "status".toList] = ["message".toList, "status".toList] :=
    congrArg Json.names same
  exact absurd names (by decide)

/-- The status of a reply with a response is the word for the success that the response
itself tells. -/
theorem sorted_ofResponse (response : Response) :
    ∃ status, (ofResponse response).toJson.sorted = withData status response.toJson.sorted ∧
      (status = "success" ∨ status = "error") ∧
      (status = "success" ↔
        response.toJson.sorted.part? (.member "success".toList) = some (.bool true)) := by
  have distinct :
      ["success", "output", "error", "visualizationSteps", "executionTime"].Nodup := by decide
  have told : response.toJson.sorted.part? (.member "success".toList) =
      some (.bool response.isSuccess) := by
    rw [Json.part?_sorted]
    have member : response.toJson.part? (.member "success".toList) =
        some (.bool response.isSuccess) := by
      apply Json.part?_record
      · exact distinct
      · exact List.mem_cons_self
    rw [member]
    rfl
  rw [told, ofResponse]
  cases response.isSuccess with
  | true => exact ⟨"success", sorted_success _, .inl rfl, by simp⟩
  | false => exact ⟨"error", sorted_failure _, .inr rfl, by simp⟩

end Reply

/-! ## Commands in a line -/

namespace Command

def knownNames : List Text :=
  ["PING".toList, "HEALTH".toList, "EXECUTE".toList, "VISUALIZE".toList]

/-- The whole line is the command. -/
def WrittenIn (line : Text) (c : Command) : Prop :=
  ∃ document, Json.Document.read? line = some document ∧ WrittenAs document c

/-- A command that no problem keeps from being served. -/
inductive IsServed (c : Command) : Prop where
  | ping (h : c.name = "PING".toList)
  | health (h : c.name = "HEALTH".toList)
  | request (operation : Operation) (named : c.name = operation.name) (params : Json)
      (given : c.params = some params) (r : Request) (held : Request.HeldBy params r)

variable {line : Text} {c : Command}

theorem read?_eq_some_iff : read? line = some c ↔ WrittenIn line c := by
  simp only [WrittenIn, ← ofDocument?_eq_some_iff, read?]
  cases Json.Document.read? line with
  | none => simp
  | some document => simp

theorem WrittenIn.unique {c' : Command} (h : WrittenIn line c) (h' : WrittenIn line c') : c = c' :=
  Option.some.inj ((read?_eq_some_iff.2 h).symm.trans (read?_eq_some_iff.2 h'))

theorem reply_of_writtenIn (run : Run) (h : WrittenIn line c) :
    reply run line = (c.answer run).toJson.sorted := by
  simp only [reply, read?_eq_some_iff.2 h]

theorem reply_of_not_writtenIn (run : Run) (h : ¬ ∃ c, WrittenIn line c) :
    reply run line = Reply.withMessage "Invalid JSON format".toList := by
  have unread : read? line = none := by
    refine Option.eq_none_iff_forall_not_mem.2 fun c found => h ⟨c, read?_eq_some_iff.1 found⟩
  simp only [reply, unread]
  exact Reply.sorted_problem .invalidJson

theorem answer_unknown (run : Run) (h : c.name ∉ knownNames) :
    c.answer run = .problem (.unknownCommand c.name) := by
  simp only [knownNames, List.mem_cons, List.not_mem_nil, or_false, not_or] at h
  obtain ⟨ping, health, execute, visualize⟩ := h
  rw [answer, if_neg ping, if_neg health, if_neg execute, if_neg visualize]

theorem answer_ping (run : Run) (h : c.name = "PING".toList) :
    c.answer run = .success (.string "PONG".toList) := if_pos h

theorem answer_health (run : Run) (h : c.name = "HEALTH".toList) :
    c.answer run = .success (.string healthMessage) := by
  have not_ping : c.name ≠ "PING".toList := by
    rw [h]
    decide
  rw [answer, if_neg not_ping, if_pos h]

theorem name_cases (c : Command) :
    c.name ∉ knownNames ∨
      c.name = "PING".toList ∨ c.name = "HEALTH".toList ∨
        ∃ operation : Operation, c.name = operation.name := by
  by_cases known : c.name ∈ knownNames
  · simp only [knownNames, List.mem_cons, List.not_mem_nil, or_false] at known
    rcases known with ping | health | execute | visualize
    · exact .inr (.inl ping)
    · exact .inr (.inr (.inl health))
    · exact .inr (.inr (.inr ⟨.execute, execute⟩))
    · exact .inr (.inr (.inr ⟨.visualize, visualize⟩))
  · exact .inl known

section
variable {operation : Operation} (named : c.name = operation.name) (run : Run)
include named

theorem answer_of_missing (missing : c.params = none) :
    c.answer run = .problem .missingParams := by
  rw [answer_operation named, answerWith, request, missing]

variable {params : Json} (given : c.params = some params)
include given

theorem answer_of_malformed (malformed : ¬ ∃ r, Request.HeldBy params r) :
    c.answer run = .problem .malformedParams := by
  have unread : Request.ofJson? params = none := by
    refine Option.eq_none_iff_forall_not_mem.2 fun r found => malformed ⟨r, ?_⟩
    exact Request.ofJson?_eq_some_iff.1 found
  rw [answer_operation named, answerWith, request, given]
  simp only [unread]

theorem answer_of_heldBy {r : Request} (held : Request.HeldBy params r) :
    c.answer run = .ofResponse (operation.respond run r) := by
  rw [answer_operation named, answerWith, request, given]
  simp only [Request.ofJson?_eq_some_iff.2 held]

end

theorem not_isServed_of_unknown (h : c.name ∉ knownNames) : ¬ c.IsServed := by
  intro served
  cases served with
  | ping named => exact h (by rw [named]; decide)
  | health named => exact h (by rw [named]; decide)
  | request operation named => exact h (by rw [named]; cases operation <;> decide)

theorem isServed_iff_of_operation {operation : Operation} (named : c.name = operation.name) :
    c.IsServed ↔ ∃ params, c.params = some params ∧ ∃ r, Request.HeldBy params r := by
  constructor
  · intro served
    cases served with
    | ping h => exact absurd (h.symm.trans named) (by cases operation <;> decide)
    | health h => exact absurd (h.symm.trans named) (by cases operation <;> decide)
    | request _ _ params given r held => exact ⟨params, given, r, held⟩
  · rintro ⟨params, given, r, held⟩
    exact .request operation named params given r held

/-- A command that is served has data, and any other a message. -/
theorem sorted_answer (run : Run) (c : Command) :
    (c.IsServed ∧ ∃ status data, (status = "success" ∨ status = "error") ∧
      (c.answer run).toJson.sorted = Reply.withData status data) ∨
    (¬ c.IsServed ∧ ∃ message, (c.answer run).toJson.sorted = Reply.withMessage message) := by
  rcases name_cases c with unknown | ping | health | ⟨operation, named⟩
  · rw [answer_unknown run unknown]
    exact .inr ⟨not_isServed_of_unknown unknown, _, Reply.sorted_problem _⟩
  · rw [answer_ping run ping]
    exact .inl ⟨.ping ping, _, _, .inl rfl, Reply.sorted_success _⟩
  · rw [answer_health run health]
    exact .inl ⟨.health health, _, _, .inl rfl, Reply.sorted_success _⟩
  · rw [isServed_iff_of_operation named]
    cases given : c.params with
    | none =>
      rw [answer_of_missing named run given]
      exact .inr ⟨by simp, _, Reply.sorted_problem _⟩
    | some params =>
      by_cases held : ∃ r, Request.HeldBy params r
      · obtain ⟨r, held⟩ := held
        obtain ⟨status, reply_eq, either, -⟩ :=
          Reply.sorted_ofResponse (operation.respond run r)
        rw [answer_of_heldBy named run given held]
        exact .inl ⟨⟨params, rfl, r, held⟩, status, _, either, reply_eq⟩
      · rw [answer_of_malformed named run given held]
        exact .inr ⟨by simpa using held, _, Reply.sorted_problem _⟩

/-- A line that reaches the service is answered with data, and any other with a message. -/
theorem reply_shape (run : Run) (line : Text) :
    ((∃ c, WrittenIn line c ∧ c.IsServed) ∧ ∃ status data,
      (status = "success" ∨ status = "error") ∧ reply run line = Reply.withData status data) ∨
    ((¬ ∃ c, WrittenIn line c ∧ c.IsServed) ∧
      ∃ message, reply run line = Reply.withMessage message) := by
  by_cases written : ∃ c, WrittenIn line c
  · obtain ⟨c, written⟩ := written
    rw [reply_of_writtenIn run written]
    rcases sorted_answer run c with ⟨served, data⟩ | ⟨unserved, message⟩
    · exact .inl ⟨⟨c, written, served⟩, data⟩
    · refine .inr ⟨?_, message⟩
      rintro ⟨c', written', served⟩
      exact unserved (written'.unique written ▸ served)
  · refine .inr ⟨?_, _, reply_of_not_writtenIn run written⟩
    rintro ⟨c, is_written, -⟩
    exact written ⟨c, is_written⟩

/-- **The envelope of a reply.**  A reply has a status and data, or the status `error` and a
message; it has a message exactly if the line does not reach the service.  The message is
that of the first problem: the line is no command; its name is unknown, whatever the
parameters are; the parameters of an operation are missing; they are no request.  What
reaches the service is answered with data: a constant, whatever the parameters are, or the
response to the request, which tells its own status. -/
theorem reply_envelope (run : Run) (line : Text) :
    let reply := reply run line
    ((∃ status data, (status = "success" ∨ status = "error") ∧
        reply = Reply.withData status data) ∨
      ∃ message, reply = Reply.withMessage message) ∧
    ((∃ message, reply = Reply.withMessage message) ↔ ¬ ∃ c, WrittenIn line c ∧ c.IsServed) ∧
    ((¬ ∃ c, WrittenIn line c) → reply = Reply.withMessage "Invalid JSON format".toList) ∧
    ∀ c, WrittenIn line c →
      (c.name ∉ knownNames →
        reply = Reply.withMessage ("Unknown command: ".toList ++ c.name)) ∧
      (c.name = "PING".toList → reply = Reply.withData "success" (.string "PONG".toList)) ∧
      (c.name = "HEALTH".toList →
        reply = Reply.withData "success" (.string "WhatCode trace server is running".toList)) ∧
      ∀ operation : Operation, c.name = operation.name →
        (c.params = none → reply = Reply.withMessage "Missing params".toList) ∧
        ∀ params, c.params = some params →
          ((¬ ∃ r, Request.HeldBy params r) →
            reply = Reply.withMessage "Malformed request params".toList) ∧
          ∀ r, Request.HeldBy params r →
            let data := (operation.respond run r).toJson.sorted
            ∃ status, reply = Reply.withData status data ∧
              (status = "success" ∨ status = "error") ∧
              (status = "success" ↔
                data.part? (.member "success".toList) = some (.bool true)) := by
  dsimp only
  have shape := reply_shape run line
  refine ⟨?_, ?_, reply_of_not_writtenIn run, ?_⟩
  · exact shape.imp And.right And.right
  · rcases shape with ⟨served, status, data, -, reply_eq⟩ | ⟨unserved, message⟩
    · refine iff_of_false ?_ (not_not.2 served)
      rintro ⟨message, other⟩
      exact Reply.withData_ne_withMessage _ _ _ (reply_eq.symm.trans other)
    · exact iff_of_true message unserved
  · intro c written
    rw [reply_of_writtenIn run written]
    refine ⟨?_, ?_, ?_, ?_⟩
    · intro unknown
      rw [answer_unknown run unknown]
      exact Reply.sorted_problem _
    · intro ping
      rw [answer_ping run ping]
      exact Reply.sorted_success _
    · intro health
      rw [answer_health run health]
      exact Reply.sorted_success _
    · intro operation named
      refine ⟨?_, ?_⟩
      · intro missing
        rw [answer_of_missing named run missing]
        exact Reply.sorted_problem _
      · intro params given
        refine ⟨?_, ?_⟩
        · intro malformed
          rw [answer_of_malformed named run given malformed]
          exact Reply.sorted_problem _
        · intro r held
          rw [answer_of_heldBy named run given held]
          exact Reply.sorted_ofResponse _

end Command

end Walkthrough
