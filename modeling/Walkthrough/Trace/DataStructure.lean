import Walkthrough.Value

/-!
# Detected data structures

A list counts as an array, or as a graph when its first element is list-shaped.
-/

namespace Walkthrough

inductive DataStructure.Shape where
  | array
  | graph
  deriving DecidableEq

def DataStructure.Shape.name : DataStructure.Shape → Text
  | .array => "array".toList
  | .graph => "graph".toList

structure DataStructure where
  shape : DataStructure.Shape
  data : Value
  operations : List Text

namespace DataStructure

/-- What can be done with every detected structure. -/
def operationNames : List Text := ["read".toList, "write".toList]

def shapeOf (items : List Value) : Shape :=
  if items.head?.any Value.isListShaped then .graph else .array

/-- The structure of a value; only lists have one. -/
def detect? (value : Value) : Option DataStructure :=
  value.items?.map fun items => ⟨shapeOf items, value, operationNames⟩

end DataStructure
end Walkthrough
