import Walkthrough.Text.Digits
import Walkthrough.Trace.Step

/-!
# Flowcharts

The control flow of a trace as a graph description in DOT.  There is a node for every
highlighted line and for both ends of every edge, in the order of the lines; the edges
are those of the last step, which has them all.
-/

namespace Walkthrough

/-- Adds a line to increasing lines, unless it is among them. -/
def insertLine (n : Nat) : List Nat → List Nat
  | [] => [n]
  | m :: rest =>
    if n < m then n :: m :: rest
    else if n = m then m :: rest
    else m :: insertLine n rest

theorem mem_insertLine {n k : Nat} {lines : List Nat} :
    k ∈ insertLine n lines ↔ k = n ∨ k ∈ lines := by
  induction lines with
  | nil => simp [insertLine]
  | cons m rest ih =>
    simp only [insertLine]
    split
    · simp
    · split <;> grind

theorem insertLine_increasing {n : Nat} {lines : List Nat} (h : lines.Pairwise (· < ·)) :
    (insertLine n lines).Pairwise (· < ·) := by
  induction lines with
  | nil => simp [insertLine]
  | cons m rest ih =>
    have below := (List.pairwise_cons.1 h).1
    have ih := ih (List.pairwise_cons.1 h).2
    simp only [insertLine]
    split
    · refine List.pairwise_cons.2 ⟨fun k hk => ?_, h⟩
      rcases List.mem_cons.1 hk with rfl | hk
      · assumption
      · exact Nat.lt_trans (by assumption) (below k hk)
    · split
      · exact h
      · refine List.pairwise_cons.2 ⟨fun k hk => ?_, ih⟩
        rcases mem_insertLine.1 hk with rfl | hk
        · omega
        · exact below k hk

namespace Flowchart

def edgesOf (steps : Trace) : List Edge := (steps.getLast?.map (·.edges)).getD []

def nodesOf (steps : Trace) : List Nat :=
  let ends := (edgesOf steps).flatMap fun edge => [edge.source, edge.target]
  (steps.filterMap (·.highlight) ++ ends).foldr insertLine []

/-- The backslash is replaced first, so the backslashes of the later replacements stay single. -/
def escape (t : Text) : Text :=
  ((t.replace '\\' ['\\', '\\']).replace '"' ['\\', '"']).replace '\n' ['\\', 'n']

/-- The line, with the description of the first step about it. -/
def nodeLabel (steps : Trace) (line : Nat) : Text :=
  match steps.find? fun step => step.highlight = some line with
  | some step => Text.ofNat line ++ ": ".toList ++ escape step.description
  | none => Text.ofNat line

def nodeName (line : Nat) : Text := "\"L".toList ++ Text.ofNat line ++ ['"']

def nodeStatement (steps : Trace) (line : Nat) : Text :=
  "    ".toList ++ nodeName line ++ " [label=\"".toList ++ nodeLabel steps line ++ "\"];".toList

def edgeLabel (edge : Edge) : Text :=
  match edge.condition with
  | some true => edge.flow.name ++ " [true]".toList
  | some false => edge.flow.name ++ " [false]".toList
  | none => edge.flow.name

def colorOf : Flow → Text
  | .sequential => "#5c5f77".toList
  | .branch => "#df8e1d".toList
  | .loop => "#8839ef".toList
  | .return => "#d20f39".toList
  | .call => "#1e66f5".toList

def styleOf : Flow → Text
  | .sequential | .call => "solid".toList
  | .branch | .loop => "bold".toList
  | .return => "dashed".toList

def edgeStatement (edge : Edge) : Text :=
  "    ".toList ++ nodeName edge.source ++ " -> ".toList ++ nodeName edge.target ++
    " [label=\"".toList ++ edgeLabel edge ++
    "\", color=\"".toList ++ colorOf edge.flow ++
    "\", style=\"".toList ++ styleOf edge.flow ++ "\"];".toList

def header : List Text :=
  ["digraph ControlFlow \x7b",
    "    rankdir=TB;",
    "    nodesep=0.6;",
    "    node [fontname=\"Helvetica\", fontsize=12, shape=box, style=\"filled,rounded\", " ++
      "fillcolor=\"#e6e9ef\"];",
    "    edge [fontname=\"Helvetica\", fontsize=10];"].map String.toList

def statements (steps : Trace) : List Text :=
  header ++ [[]] ++ (nodesOf steps).map (nodeStatement steps) ++ [[]] ++
    (edgesOf steps).map edgeStatement ++ [['\x7d']]

end Flowchart

def Trace.flowchart (steps : Trace) : Text := Text.join ['\n'] (Flowchart.statements steps)

end Walkthrough
