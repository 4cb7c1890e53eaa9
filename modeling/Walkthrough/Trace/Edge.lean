import Walkthrough.Line

/-!
# Control-flow edges

How control comes to a line from the physical line just before it, also when that one
is blank or a comment.  An edge depends on these two lines only (`Edge.into?_take`).
-/

namespace Walkthrough

inductive Flow where
  | sequential
  | branch
  | loop
  | return
  | call
  deriving DecidableEq

def Flow.name : Flow → Text
  | .sequential => "sequential".toList
  | .branch => "branch".toList
  | .loop => "loop".toList
  | .return => "return".toList
  | .call => "call".toList

structure Edge where
  source : Nat
  target : Nat
  flow : Flow
  /-- On a branch, whether it is the one taken when the condition holds. -/
  condition : Option Bool
  deriving DecidableEq

namespace Edge

/-- A condition or a loop on the line before decides first; then a return on the line
itself; then a call, which no equals sign may go with. -/
def flowBetween (previous current : Text) : Flow :=
  if Line.isCondition previous then .branch
  else if Line.isLoop previous then .loop
  else if Line.isReturn current then .return
  else if current.contains '(' && !current.contains '=' then .call
  else .sequential

def conditionOf (flow : Flow) (current : Text) : Option Bool :=
  if flow = .branch then some (!Line.has "else" current) else none

/-- The edge from line `n` to line `n + 1`, given the two lines. -/
def between (n : Nat) (previous current : Text) : Edge :=
  let flow := flowBetween (Text.trim previous) (Text.trim current)
  ⟨n, n + 1, flow, conditionOf flow (Text.trim current)⟩

/-- The edge into the line at a position, counted from zero; the first line has none. -/
def into? (lines : List Text) (index : Nat) : Option Edge :=
  match index with
  | 0 => none
  | before + 1 =>
    match lines[before]?, lines[before + 1]? with
    | some previous, some current => some (between (before + 1) previous current)
    | _, _ => none

theorem into?_of_getElem? {lines : List Text} {before : Nat} {previous current : Text}
    (hp : lines[before]? = some previous) (hc : lines[before + 1]? = some current) :
    into? lines (before + 1) = some (between (before + 1) previous current) := by
  simp only [into?, hp, hc]

theorem into?_take (lines : List Text) {n index : Nat} (h : index < n) :
    into? (lines.take n) index = into? lines index := by
  cases index with
  | zero => rfl
  | succ before =>
    have previous : (lines.take n)[before]? = lines[before]? :=
      List.getElem?_take_of_lt (Nat.lt_of_succ_lt h)
    have current : (lines.take n)[before + 1]? = lines[before + 1]? := List.getElem?_take_of_lt h
    rw [into?, into?, previous, current]

end Edge
end Walkthrough
