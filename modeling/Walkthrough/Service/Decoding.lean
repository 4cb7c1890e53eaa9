import Walkthrough.Json.Document
import Walkthrough.Service.Request

/-!
# Reading records

Records come as objects, with their fields by name, or as arrays, with their fields in
order.  Fields of other names are ignored, whatever their values.  A request is read
either off a document, where no field may come twice, or off a value, where of repeated
fields the last one counts.
-/

namespace Walkthrough

namespace Json

def optionalText? : Option Json → Option (Option Text)
  | none | some .null => some none
  | some (.string t) => some (some t)
  | _ => none

/-- The last of the members with a name. -/
def lastMember? (name : Text) (members : List (Text × Json)) : Option Json :=
  members.reverse.lookup name

namespace Document

/-- The member with a name.  The outer option is nothing if there are several. -/
def onlyMember? (name : Text) (members : List (Text × Document)) : Option (Option Document) :=
  match members.filter fun member => member.1 = name with
  | [] => some none
  | [(_, item)] => some (some item)
  | _ => none

def readName? : Text × Document → Option (Text × Document)
  | (body, item) => (unescape? body).map fun name => (name, item)

/-- The two fields of a record, as far as they are there. -/
def fields? (first second : Text) : Document → Option (Option Document × Option Document)
  | .object members => do
    let members ← members.mapM readName?
    return (← onlyMember? first members, ← onlyMember? second members)
  | .array items => if items.length ≤ 2 then some (items[0]?, items[1]?) else none
  | _ => none

def text? : Document → Option Text
  | .string body => unescape? body
  | _ => none

def optionalText? : Option Document → Option (Option Text)
  | none | some .null => some none
  | some item => item.text?.map some

end Document
end Json

namespace Request

def ofDocument? (document : Json.Document) : Option Request := do
  let (code, language) ← document.fields? codeField languageField
  return ⟨← Json.Document.optionalText? code, ← Json.Document.optionalText? language⟩

def read? (t : Text) : Option Request :=
  match Json.Document.read? t with
  | none => none
  | some document => ofDocument? document

def ofFields? (code language : Option Json) : Option Request := do
  return ⟨← Json.optionalText? code, ← Json.optionalText? language⟩

def ofJson? : Json → Option Request
  | .object members =>
    ofFields? (Json.lastMember? codeField members) (Json.lastMember? languageField members)
  | .array items => if items.length ≤ 2 then ofFields? items[0]? items[1]? else none
  | _ => none

end Request
end Walkthrough
