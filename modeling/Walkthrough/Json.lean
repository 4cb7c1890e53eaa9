import Walkthrough.Dictionary
import Walkthrough.Double.Layout

/-!
# JSON values

A number is kept as the literal that stands for it, and the members of an object in
their order, so that a value fixes its compact text.
-/

namespace Walkthrough

inductive Json where
  | null
  | bool (b : Bool)
  | number (literal : Text)
  | string (t : Text)
  | array (items : List Json)
  | object (members : List (Text × Json))
  deriving Inhabited

namespace Json

def ofNat (n : Nat) : Json := .number (Text.ofNat n)

def ofInt (n : Int) : Json := .number (Text.ofInt n)

/-- A number on the wire is positional from `0.00001` up to below `10 ^ 16`; of two
equally near digit strings the even one is written. -/
def numberLayout : Double.Layout := ⟨.toEven, -5, 15, true⟩

/-- A double that is not finite has no literal and becomes `null`. -/
def ofDouble (x : Double) : Json := if x.isFinite then .number (numberLayout.write x) else .null

def ofOption (t : Option Text) : Json := (t.map .string).getD .null

def strings (ts : List Text) : Json := .array (ts.map .string)

/-- An object without the fields that have no value. -/
def record (fields : List (String × Option Json)) : Json :=
  .object (fields.filterMap fun (name, value) => value.map fun v => (name.toList, v))

mutual
/-- The value with the members of each object in increasing order of their names; of
members with one name the last is kept. -/
def sorted : Json → Json
  | .array items => .array (sortedItems items)
  | .object members => .object (Dictionary.ofList (sortedMembers members)).entries
  | .null => .null
  | .bool b => .bool b
  | .number literal => .number literal
  | .string t => .string t

def sortedItems : List Json → List Json
  | [] => []
  | item :: rest => item.sorted :: sortedItems rest

def sortedMembers : List (Text × Json) → List (Text × Json)
  | [] => []
  | (name, value) :: rest => (name, value.sorted) :: sortedMembers rest
end

theorem sortedItems_eq_map (items : List Json) : sortedItems items = items.map sorted := by
  induction items with
  | nil => rfl
  | cons item rest ih => simp [sortedItems, ih]

theorem sortedMembers_eq_map (members : List (Text × Json)) :
    sortedMembers members = members.map fun (name, value) => (name, value.sorted) := by
  induction members with
  | nil => rfl
  | cons member rest ih => simp [sortedMembers, ih]

end Json
end Walkthrough
