import Walkthrough.Service
import Walkthrough.Service.Decoding

/-!
# Commands

One line of the wire is a command: a record of a name and of parameters, which only the
commands about a snippet look at.  The reply is an object with a status and with either
data or a message; `Command.reply` gives it with all names in order.
-/

namespace Walkthrough

structure Command where
  name : Text
  params : Option Json

/-- Why a line is not answered by the service. -/
inductive CommandError where
  | invalidJson
  | unknownCommand (name : Text)
  | missingParams
  | malformedParams

def CommandError.message : CommandError → Text
  | .invalidJson => "Invalid JSON format".toList
  | .unknownCommand name => "Unknown command: ".toList ++ name
  | .missingParams => "Missing params".toList
  | .malformedParams => "Malformed request params".toList

inductive Reply where
  | success (data : Json)
  | failure (data : Json)
  | problem (error : CommandError)

namespace Reply

def ofResponse (r : Response) : Reply :=
  if r.isSuccess then .success r.toJson else .failure r.toJson

def toJson : Reply → Json
  | .success data => .record [("status", some (.string "success".toList)), ("data", some data)]
  | .failure data => .record [("status", some (.string "error".toList)), ("data", some data)]
  | .problem error =>
    .record
      [("status", some (.string "error".toList)), ("message", some (.string error.message))]

end Reply

namespace Command

/-- Parameters are inside the record, so one container less may be nested in them. -/
def paramsDepth : Nat := Json.depthLimit - 1

def decodeParams? : Option Json.Document → Option (Option Json)
  | none | some .null => some none
  | some item => (item.decode? paramsDepth).map some

/-- An array has to hold both fields; in an object the parameters may be missing. -/
def isComplete : Json.Document → Bool
  | .array items => items.length = 2
  | _ => true

def ofDocument? (document : Json.Document) : Option Command := do
  guard (isComplete document)
  let (name, params) ← document.fields? "command".toList "params".toList
  return ⟨← (← name).text?, ← decodeParams? params⟩

def read? (line : Text) : Option Command :=
  match Json.Document.read? line with
  | none => none
  | some document => ofDocument? document

def request (c : Command) : Except CommandError Request :=
  match c.params with
  | none => .error .missingParams
  | some params =>
    match Request.ofJson? params with
    | none => .error .malformedParams
    | some request => .ok request

def healthMessage : Text := "WhatCode trace server is running".toList

/-- The reply to a command about a snippet. -/
def answerWith (service : Request → Response) (c : Command) : Reply :=
  match c.request with
  | .error error => .problem error
  | .ok request => .ofResponse (service request)

def answer (run : Run) (c : Command) : Reply :=
  if c.name = "PING".toList then .success (.string "PONG".toList)
  else if c.name = "HEALTH".toList then .success (.string healthMessage)
  else if c.name = "EXECUTE".toList then c.answerWith (Request.execute run)
  else if c.name = "VISUALIZE".toList then c.answerWith (Request.visualize run)
  else .problem (.unknownCommand c.name)

/-- The reply to a line, which is taken as it is. -/
def reply (run : Run) (line : Text) : Json :=
  let reply : Reply := match read? line with
    | none => .problem .invalidJson
    | some c => c.answer run
  reply.toJson.sorted

end Command
end Walkthrough
