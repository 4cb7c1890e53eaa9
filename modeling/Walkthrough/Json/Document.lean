import Walkthrough.Json.Token

/-!
# Documents

A JSON text read for its shape alone.  Strings and numbers are still as written, so that
a document may nest to any depth and hold numbers and escapes that stand for nothing.
`Document.decode?` gives the value, of a part or of the whole, under the limits that
values have.
-/

namespace Walkthrough.Json

inductive Document where
  | null
  | bool (b : Bool)
  | number (literal : Text)
  | string (body : Text)
  | array (items : List Document)
  | object (members : List (Text × Document))
  deriving Inhabited

namespace Document

/-- A container that has not ended yet, with its parts so far, the last one first. -/
inductive Unfinished where
  | array (items : List Document)
  /-- An object in which the value under a name comes next. -/
  | object (members : List (Text × Document)) (name : Text)

/-- What may come next, inside of which containers, the innermost first. -/
inductive Reader where
  | value (outer : List Unfinished)
  | firstItem (outer : List Unfinished)
  | firstName (outer : List Unfinished)
  | name (members : List (Text × Document)) (outer : List Unfinished)
  | colon (members : List (Text × Document)) (name : Text) (outer : List Unfinished)
  | afterValue (value : Document) (outer : List Unfinished)

namespace Reader

/-- At the start of a value. -/
def enter (outer : List Unfinished) : Token → Option Reader
  | .null => some (.afterValue .null outer)
  | .bool b => some (.afterValue (.bool b) outer)
  | .number literal => some (.afterValue (.number literal) outer)
  | .string body => some (.afterValue (.string body) outer)
  | .openArray => some (.firstItem outer)
  | .openObject => some (.firstName outer)
  | _ => none

/-- At the end of a value, which belongs to the innermost container. -/
def leave (item : Document) : List Unfinished → Token → Option Reader
  | .array items :: outer, .comma => some (.value (.array (item :: items) :: outer))
  | .array items :: outer, .closeArray =>
    some (.afterValue (.array (item :: items).reverse) outer)
  | .object members key :: outer, .comma => some (.name ((key, item) :: members) outer)
  | .object members key :: outer, .closeObject =>
    some (.afterValue (.object ((key, item) :: members).reverse) outer)
  | _, _ => none

def step : Reader → Token → Option Reader
  | .value outer, token => enter outer token
  | .firstItem outer, .closeArray => some (.afterValue (.array []) outer)
  | .firstItem outer, token => enter (.array [] :: outer) token
  | .firstName outer, .closeObject => some (.afterValue (.object []) outer)
  | .firstName outer, .string body => some (.colon [] body outer)
  | .name members outer, .string body => some (.colon members body outer)
  | .colon members key outer, .colon => some (.value (.object members key :: outer))
  | .afterValue item outer, token => leave item outer token
  | _, _ => none

end Reader

def ofTokens? (tokens : List Token) : Option Document :=
  match tokens.foldlM Reader.step (.value []) with
  | some (.afterValue value []) => some value
  | _ => none

/-- The document that is the whole text. -/
def read? (t : Text) : Option Document :=
  match Token.lex t with
  | none => none
  | some tokens => ofTokens? tokens

mutual
/-- The value of a document in which at most `depth` containers are nested. -/
def decode? (depth : Nat) : Document → Option Json
  | .null => some .null
  | .bool b => some (.bool b)
  | .number literal => if isInRange literal then some (.number literal) else none
  | .string body => (unescape? body).map .string
  | .array items => if depth = 0 then none else (decodeItems? (depth - 1) items).map .array
  | .object members =>
    if depth = 0 then none else (decodeMembers? (depth - 1) members).map .object

def decodeItems? (depth : Nat) : List Document → Option (List Json)
  | [] => some []
  | item :: rest => do
    let value ← decode? depth item
    let values ← decodeItems? depth rest
    return value :: values

def decodeMembers? (depth : Nat) : List (Text × Document) → Option (List (Text × Json))
  | [] => some []
  | (body, item) :: rest => do
    let name ← unescape? body
    let value ← decode? depth item
    let values ← decodeMembers? depth rest
    return (name, value) :: values
end

end Document

/-- The number of containers that may be nested in a value. -/
def depthLimit : Nat := 127

def read? (t : Text) : Option Json :=
  match Document.read? t with
  | none => none
  | some document => document.decode? depthLimit

end Walkthrough.Json
