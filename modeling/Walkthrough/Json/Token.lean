import Walkthrough.Json
import Walkthrough.Json.Number
import Walkthrough.Json.Quoted

/-!
# Tokens

A JSON text is a list of tokens with blanks between them.  The tokens of a value decide
its compact text (`Json.write`) and its indented one (`Json.writeIndented`); `Token.lex`
recovers the tokens of a text.
-/

namespace Walkthrough.Json

inductive Token where
  | openArray
  | closeArray
  | openObject
  | closeObject
  | comma
  | colon
  | null
  | bool (b : Bool)
  | number (literal : Text)
  /-- A string by its body, with all escapes. -/
  | string (body : Text)
  deriving DecidableEq

namespace Token

def text : Token → Text
  | .openArray => ['[']
  | .closeArray => [']']
  | .openObject => ['\x7b']
  | .closeObject => ['\x7d']
  | .comma => [',']
  | .colon => [':']
  | .null => "null".toList
  | .bool true => "true".toList
  | .bool false => "false".toList
  | .number literal => literal
  | .string body => ['"'] ++ body ++ ['"']

def isOpening (t : Token) : Bool := t = .openArray || t = .openObject

def isClosing (t : Token) : Bool := t = .closeArray || t = .closeObject

/-- The tokens of a fixed text. -/
def fixed : List Token :=
  [.openArray, .closeArray, .openObject, .closeObject, .comma, .colon, .null, .bool true,
    .bool false]

/-- The token that a text starts with, and what comes after it. -/
def take? : Text → Option (Token × Text)
  | [] => none
  | '"' :: rest =>
    match takeBody? rest with
    | none => none
    | some (body, after) => if isBody body then some (.string body, after) else none
  | t =>
    match fixed.find? fun token => token.text.isPrefixOf t with
    | some token => some (token, t.drop token.text.length)
    | none => (NumberLiteral.take? t).map fun (l, after) => (.number l.text, after)

/-- The blanks between tokens are fewer than those of other texts. -/
def isSpace (c : Char) : Bool := c = ' ' || c = '\t' || c = '\n' || c = '\r'

/-- The tokens of a text; a text of `n` characters has no more than `n`. -/
def lexUpTo : Nat → Text → Option (List Token)
  | 0, t => if t.isEmpty then some [] else none
  | n + 1, t =>
    match t.dropWhile isSpace with
    | [] => some []
    | start =>
      match take? start with
      | none => none
      | some (token, after) => (lexUpTo n after).map (token :: ·)

def lex (t : Text) : Option (List Token) := lexUpTo t.length t

end Token

mutual
def tokens : Json → List Token
  | .null => [.null]
  | .bool b => [.bool b]
  | .number literal => [.number literal]
  | .string t => [.string (escape t)]
  | .array items => .openArray :: [Token.comma].intercalate (itemTokens items) ++ [.closeArray]
  | .object members =>
    .openObject :: [Token.comma].intercalate (memberTokens members) ++ [.closeObject]

def itemTokens : List Json → List (List Token)
  | [] => []
  | item :: rest => item.tokens :: itemTokens rest

def memberTokens : List (Text × Json) → List (List Token)
  | [] => []
  | (name, value) :: rest =>
    (.string (escape name) :: .colon :: value.tokens) :: memberTokens rest
end

theorem itemTokens_eq_map (items : List Json) : itemTokens items = items.map tokens := by
  induction items with
  | nil => rfl
  | cons item rest ih => simp [itemTokens, ih]

theorem memberTokens_eq_map (members : List (Text × Json)) :
    memberTokens members = members.map fun (name, value) =>
      .string (escape name) :: .colon :: value.tokens := by
  induction members with
  | nil => rfl
  | cons member rest ih => simp [memberTokens, ih]

/-- The compact text, which has no blanks between tokens. -/
def write (j : Json) : Text := j.tokens.flatMap Token.text

/-- The start of a new line at some depth of nesting. -/
def newLine (depth : Nat) : Text := '\n' :: List.replicate (2 * depth) ' '

/-- What stands between two tokens: an item or a member starts a line of its own, and so
does the end of a container that is not empty. -/
def gap (depth : Nat) (previous next : Token) : Text :=
  if previous.isOpening then if next.isClosing then [] else newLine depth
  else if next.isClosing || previous = .comma then newLine depth
  else if previous = .colon then [' ']
  else []

def layOut (depth : Nat) (previous : Token) : List Token → Text
  | [] => []
  | next :: rest =>
    let outer := if next.isClosing then depth - 1 else depth
    let inner := if next.isOpening then outer + 1 else outer
    gap outer previous next ++ next.text ++ layOut inner next rest

/-- The text on several lines, two more spaces before each line of a container. -/
def writeIndented (j : Json) : Text := layOut 0 .null j.tokens

end Walkthrough.Json
