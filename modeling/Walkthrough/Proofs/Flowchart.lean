import Mathlib.Data.List.Basic
import Walkthrough.Export.Flowchart
import Walkthrough.Proofs.Text.Digits
import Walkthrough.Proofs.Text.Fields

/-!
# Reading a flowchart back

A flowchart is read line by line.  A line is the statement of a node or of an edge, or says
nothing about either (`readStatement?`); names, labels, colors and styles are quoted texts,
which end at the first quotation mark without a backslash and have no raw line feed in them
(`readQuoted?`).

* `readQuoted?_escape`: a text that was escaped is read back, whatever it is;
* `readStatement?_nodeStatement` and `readStatement?_edgeStatement` read one line;
* `statements_flowchart` reads all of them, so the text tells its nodes and edges:
  `flowchart_faithful`.
-/

namespace Walkthrough

namespace Flowchart

/-! ## A reader -/

/-- What a backslash in front of a character stands for. -/
def unescapeChar? (c : Char) : Option Char :=
  if c = '\\' ∨ c = '"' then some c else if c = 'n' then some '\n' else none

/-- What is quoted up to the closing quotation mark, and what follows the mark. -/
def readBody? : Text → Option (Text × Text)
  | [] => none
  | '"' :: rest => some ([], rest)
  | '\n' :: _ => none
  | ['\\'] => none
  | '\\' :: c :: rest => do
    let d ← unescapeChar? c
    let (body, rest) ← readBody? rest
    return (d :: body, rest)
  | c :: rest => do
    let (body, rest) ← readBody? rest
    return (c :: body, rest)

def readQuoted? (t : Text) : Option (Text × Text) := (t.dropPrefix? ['"']).bind readBody?

/-- The line that a node is named after. -/
def readNode? (t : Text) : Option (Nat × Text) := do
  let (name, rest) ← readQuoted? t
  let digits ← name.dropPrefix? ['L']
  if Text.isDigits digits then some (Text.digitsValue digits, rest) else none

/-- The value of an attribute, given the text in front of it. -/
def readAttribute? (key : String) (t : Text) : Option (Text × Text) :=
  (t.dropPrefix? key.toList).bind readQuoted?

def readCondition? (t : Text) : Option (Option Bool) :=
  if t = [] then some none
  else if t = " [true]".toList then some (some true)
  else if t = " [false]".toList then some (some false)
  else none

/-- The kind of an edge and the condition on it. -/
def readEdgeLabel? (t : Text) : Option (Flow × Option Bool) := do
  let flow ← [Flow.sequential, .branch, .loop, .return, .call].find? fun flow =>
    flow.name = t.takeWhile (· != ' ')
  let condition ← readCondition? (t.dropWhile (· != ' '))
  return (flow, condition)

inductive Statement where
  | node (line : Nat) (label : Text)
  | edge (edge : Edge)

/-- What a line of a flowchart says, if it is the statement of a node or an edge. -/
def readStatement? (t : Text) : Option Statement := do
  let (source, rest) ← readNode? (← t.dropPrefix? "    ".toList)
  match rest.dropPrefix? " -> ".toList with
  | none =>
    let (label, rest) ← readAttribute? " [label=" rest
    if rest = "];".toList then some (.node source label) else none
  | some rest =>
    let (target, rest) ← readNode? rest
    let (label, rest) ← readAttribute? " [label=" rest
    let (_, rest) ← readAttribute? ", color=" rest
    let (_, rest) ← readAttribute? ", style=" rest
    let (flow, condition) ← readEdgeLabel? label
    if rest = "];".toList then some (.edge ⟨source, target, flow, condition⟩) else none

/-- The label of a node as it is meant: the line, with the description of the first step
about it. -/
def caption (steps : Trace) (line : Nat) : Text :=
  match steps.find? fun step => step.highlight = some line with
  | some step => Text.ofNat line ++ ": ".toList ++ step.description
  | none => Text.ofNat line

/-! ## Quoted texts -/

theorem dropPrefix?_append (piece t : Text) : (piece ++ t).dropPrefix? piece = some t :=
  List.dropPrefix?_append_of_beq t (beq_self_eq_true piece)

/-- A character that stands for itself in a quoted text. -/
def IsPlain (c : Char) : Prop := c ≠ '\\' ∧ c ≠ '"' ∧ c ≠ '\n'

/-! The replacements go on character by character, so what they do to a text is what they do
to the texts of one character. -/

theorem escape_append (s t : Text) : escape (s ++ t) = escape s ++ escape t := by
  simp only [escape, Text.replace, List.flatMap_append]

theorem escape_cons (c : Char) (t : Text) : escape (c :: t) = escape [c] ++ escape t :=
  escape_append [c] t

theorem escape_singleton {c : Char} (h : IsPlain c) : escape [c] = [c] := by
  obtain ⟨backslash, quote, feed⟩ := h
  simp [escape, Text.replace, backslash, quote, feed]

theorem escape_eq_self {t : Text} (h : ∀ c ∈ t, IsPlain c) : escape t = t := by
  induction t with
  | nil => rfl
  | cons c t ih =>
    obtain ⟨first, others⟩ := List.forall_mem_cons.1 h
    rw [escape_cons, escape_singleton first, ih others, List.singleton_append]

theorem lineFeed_not_mem_escape (t : Text) : '\n' ∉ escape t := by
  intro mem
  -- whatever came before, the last replacement leaves no line feed
  obtain ⟨c, -, written⟩ := List.mem_flatMap.1 mem
  split at written
  · revert written
    decide
  · rename_i other
    exact other (List.mem_singleton.1 written).symm

theorem readBody?_cons {c : Char} (h : IsPlain c) (t : Text) :
    readBody? (c :: t) = (readBody? t).map fun (body, rest) => (c :: body, rest) := by
  obtain ⟨backslash, quote, feed⟩ := h
  rw [readBody?]
  · cases readBody? t <;> rfl
  · exact quote
  · exact feed
  · intro same
    exact absurd same backslash
  · intro _ _ same
    exact absurd same backslash

theorem readBody?_escape (t rest : Text) :
    readBody? (escape t ++ '"' :: rest) = some (t, rest) := by
  induction t with
  | nil => rfl
  | cons c t ih =>
    rw [escape_cons, List.append_assoc]
    by_cases backslash : c = '\\'
    · subst backslash
      have doubled : escape ['\\'] = ['\\', '\\'] := rfl
      simp [doubled, readBody?, unescapeChar?, ih]
    by_cases quote : c = '"'
    · subst quote
      have marked : escape ['"'] = ['\\', '"'] := rfl
      simp [marked, readBody?, unescapeChar?, ih]
    by_cases feed : c = '\n'
    · subst feed
      have named : escape ['\n'] = ['\\', 'n'] := rfl
      simp [named, readBody?, unescapeChar?, ih]
    have plain : IsPlain c := ⟨backslash, quote, feed⟩
    rw [escape_singleton plain, List.singleton_append, readBody?_cons plain, ih]
    rfl

/-- A text that is escaped between quotation marks is read back, whatever follows it. -/
theorem readQuoted?_escape (t rest : Text) :
    readQuoted? ('"' :: (escape t ++ '"' :: rest)) = some (t, rest) := by
  have opened := dropPrefix?_append ['"'] (escape t ++ '"' :: rest)
  rw [List.singleton_append] at opened
  rw [readQuoted?, opened, Option.bind_some, readBody?_escape]

/-- An attribute with the value that is meant, and what is written after it. -/
def field (key : String) (value rest : Text) : Text :=
  key.toList ++ '"' :: (escape value ++ '"' :: rest)

theorem readAttribute?_field (key : String) (value rest : Text) :
    readAttribute? key (field key value rest) = some (value, rest) := by
  rw [readAttribute?, field, dropPrefix?_append, Option.bind_some, readQuoted?_escape]

/-! ## One line -/

theorem isPlain_of_isDigit {c : Char} (h : c.isDigit = true) : IsPlain c := by
  refine ⟨?_, ?_, ?_⟩ <;> (rintro rfl; cases h)

theorem escape_ofNat (n : Nat) : escape (Text.ofNat n) = Text.ofNat n :=
  escape_eq_self fun _ hc => isPlain_of_isDigit (Text.isDigit_of_mem_ofNat hc)

theorem readNode?_nodeName (line : Nat) (rest : Text) :
    readNode? (nodeName line ++ rest) = some (line, rest) := by
  have quoted :
      nodeName line ++ rest = '"' :: (escape ('L' :: Text.ofNat line) ++ '"' :: rest) := by
    have name : escape ('L' :: Text.ofNat line) = 'L' :: escape (Text.ofNat line) := rfl
    rw [name, escape_ofNat, nodeName, List.append_assoc, List.append_assoc]
    rfl
  have digits := dropPrefix?_append ['L'] (Text.ofNat line)
  rw [List.singleton_append] at digits
  rw [quoted, readNode?, readQuoted?_escape]
  simp [digits, Text.isDigits_ofNat, Text.digitsValue_ofNat]

theorem nodeLabel_eq_escape (steps : Trace) (line : Nat) :
    nodeLabel steps line = escape (caption steps line) := by
  unfold nodeLabel caption
  cases steps.find? fun step => step.highlight = some line with
  | none => exact (escape_ofNat line).symm
  | some step =>
    have colon : escape ": ".toList = ": ".toList := rfl
    simp only [escape_append, escape_ofNat, colon]

theorem nodeStatement_eq (steps : Trace) (line : Nat) :
    nodeStatement steps line =
      "    ".toList ++ (nodeName line ++ field " [label=" (caption steps line) "];".toList) := by
  unfold nodeStatement field
  simp [nodeLabel_eq_escape]

/-- The statement of a node says its line and its caption. -/
theorem readStatement?_nodeStatement (steps : Trace) (line : Nat) :
    readStatement? (nodeStatement steps line) = some (.node line (caption steps line)) := by
  have no_arrow (value rest : Text) :
      (field " [label=" value rest).dropPrefix? " -> ".toList = none := rfl
  simp only [readStatement?, nodeStatement_eq, Option.bind_eq_bind, Option.bind_some,
    dropPrefix?_append, readNode?_nodeName, no_arrow, readAttribute?_field, if_true]

/-! Labels, colors and styles of edges need no escapes. -/

theorem escape_edgeLabel (edge : Edge) : escape (edgeLabel edge) = edgeLabel edge := by
  obtain ⟨source, target, flow, condition⟩ := edge
  cases flow <;> rcases condition with _ | _ | _ <;> rfl

theorem escape_colorOf (flow : Flow) : escape (colorOf flow) = colorOf flow := by
  cases flow <;> rfl

theorem escape_styleOf (flow : Flow) : escape (styleOf flow) = styleOf flow := by
  cases flow <;> rfl

theorem edgeStatement_eq (edge : Edge) :
    edgeStatement edge =
      "    ".toList ++ (nodeName edge.source ++ (" -> ".toList ++ (nodeName edge.target ++
        field " [label=" (edgeLabel edge) (field ", color=" (colorOf edge.flow)
          (field ", style=" (styleOf edge.flow) "];".toList))))) := by
  unfold edgeStatement field
  simp [escape_edgeLabel, escape_colorOf, escape_styleOf]

theorem readEdgeLabel?_edgeLabel (edge : Edge) :
    readEdgeLabel? (edgeLabel edge) = some (edge.flow, edge.condition) := by
  obtain ⟨source, target, flow, condition⟩ := edge
  cases flow <;> rcases condition with _ | _ | _ <;> rfl

theorem readStatement?_edgeStatement (edge : Edge) :
    readStatement? (edgeStatement edge) = some (.edge edge) := by
  simp only [readStatement?, edgeStatement_eq, Option.bind_eq_bind, Option.bind_some,
    dropPrefix?_append, readNode?_nodeName, readAttribute?_field, readEdgeLabel?_edgeLabel,
    if_true]

/-! ## All lines -/

theorem mem_foldr_insertLine {n : Nat} {lines : List Nat} :
    n ∈ lines.foldr insertLine [] ↔ n ∈ lines := by
  induction lines with
  | nil => rfl
  | cons m lines ih => rw [List.foldr_cons, mem_insertLine, ih, List.mem_cons]

theorem foldr_insertLine_increasing (lines : List Nat) :
    (lines.foldr insertLine []).Pairwise (· < ·) := by
  induction lines with
  | nil => exact .nil
  | cons m lines ih => exact insertLine_increasing ih

/-- The lines that a flowchart has nodes for: the highlighted ones and the ends of edges. -/
def HasNode (steps : Trace) (line : Nat) : Prop :=
  (∃ step ∈ steps, step.highlight = some line) ∨
    ∃ edge ∈ edgesOf steps, line = edge.source ∨ line = edge.target

theorem mem_nodesOf {steps : Trace} {line : Nat} : line ∈ nodesOf steps ↔ HasNode steps line := by
  simp only [nodesOf, mem_foldr_insertLine, List.mem_append, List.mem_filterMap, List.mem_flatMap,
    List.mem_cons, List.not_mem_nil, or_false, HasNode]

theorem nodesOf_increasing (steps : Trace) : (nodesOf steps).Pairwise (· < ·) :=
  foldr_insertLine_increasing _

theorem lineFeed_not_mem_nodeName (line : Nat) : '\n' ∉ nodeName line := by
  have digits := lineFeed_not_mem_escape (Text.ofNat line)
  rw [escape_ofNat] at digits
  simp [nodeName, digits]

theorem lineFeed_not_mem_field (key : String) {rest : Text} (hk : '\n' ∉ key.toList)
    (hr : '\n' ∉ rest) (value : Text) : '\n' ∉ field key value rest := by
  have escaped := lineFeed_not_mem_escape value
  have mark : '\n' ≠ '"' := by decide
  simp only [field, List.mem_append, List.mem_cons, hk, escaped, hr, mark, or_false,
    not_false_eq_true]

theorem lineFeed_not_mem_nodeStatement (steps : Trace) (line : Nat) :
    '\n' ∉ nodeStatement steps line := by
  have label : '\n' ∉ field " [label=" (caption steps line) "];".toList :=
    lineFeed_not_mem_field _ (by decide) (by decide) _
  have indent : '\n' ∉ "    ".toList := by decide
  rw [nodeStatement_eq, List.mem_append, List.mem_append]
  exact not_or.2 ⟨indent, not_or.2 ⟨lineFeed_not_mem_nodeName line, label⟩⟩

theorem lineFeed_not_mem_edgeStatement (edge : Edge) : '\n' ∉ edgeStatement edge := by
  have style : '\n' ∉ field ", style=" (styleOf edge.flow) "];".toList :=
    lineFeed_not_mem_field _ (by decide) (by decide) _
  have color := lineFeed_not_mem_field ", color=" (by decide) style (colorOf edge.flow)
  have label := lineFeed_not_mem_field " [label=" (by decide) color (edgeLabel edge)
  have indent : '\n' ∉ "    ".toList := by decide
  have arrow : '\n' ∉ " -> ".toList := by decide
  simp only [edgeStatement_eq, List.mem_append, indent, arrow, label, lineFeed_not_mem_nodeName,
    or_false, not_false_eq_true]

theorem splitOn_flowchart (steps : Trace) :
    (Trace.flowchart steps).splitOn '\n' = statements steps := by
  apply List.splitOn_intercalate
  · unfold statements
    simp only [List.forall_mem_append, List.forall_mem_map, List.forall_mem_singleton]
    have header_whole : ∀ line ∈ header, '\n' ∉ line := by decide +kernel
    have nodes_whole : ∀ line ∈ nodesOf steps, '\n' ∉ nodeStatement steps line :=
      fun line _ => lineFeed_not_mem_nodeStatement steps line
    have edges_whole : ∀ edge ∈ edgesOf steps, '\n' ∉ edgeStatement edge :=
      fun edge _ => lineFeed_not_mem_edgeStatement edge
    exact ⟨⟨⟨⟨⟨header_whole, List.not_mem_nil⟩, nodes_whole⟩, List.not_mem_nil⟩, edges_whole⟩,
      by decide⟩
  · unfold statements
    exact List.append_ne_nil_of_right_ne_nil _ (List.cons_ne_nil _ _)

/-- The lines around the statements are no statements. -/
theorem readStatement?_header : header.filterMap readStatement? = [] := by
  decide +kernel

/-- The statements of a flowchart are those of its nodes and then those of its edges. -/
theorem statements_flowchart (steps : Trace) :
    ((Trace.flowchart steps).splitOn '\n').filterMap readStatement? =
      (nodesOf steps).map (fun line => .node line (caption steps line)) ++
        (edgesOf steps).map .edge := by
  have empty : readStatement? [] = none := rfl
  have close : readStatement? ['\x7d'] = none := rfl
  have node : readStatement? ∘ nodeStatement steps =
      some ∘ fun line => .node line (caption steps line) :=
    funext (readStatement?_nodeStatement steps)
  have edge : readStatement? ∘ edgeStatement = some ∘ Statement.edge :=
    funext readStatement?_edgeStatement
  rw [splitOn_flowchart, statements]
  simp only [List.filterMap_append, readStatement?_header, List.filterMap_cons, empty, close,
    List.filterMap_nil, List.filterMap_map, node, edge, List.filterMap_eq_map, List.nil_append,
    List.append_nil]

/-- What a statement says of a node. -/
def Statement.node? : Statement → Option (Nat × Text)
  | .node line label => some (line, label)
  | .edge _ => none

def Statement.edge? : Statement → Option Edge
  | .node _ _ => none
  | .edge e => some e

theorem eq_of_statements_eq {nodes others : List Nat} {label label' : Nat → Text}
    {edges edges' : List Edge}
    (same : nodes.map (fun line => Statement.node line (label line)) ++ edges.map .edge =
      others.map (fun line => .node line (label' line)) ++ edges'.map .edge) :
    nodes.map (fun line => (line, label line)) = others.map (fun line => (line, label' line)) ∧
      edges = edges' := by
  constructor
  · have told := congrArg (List.filterMap Statement.node?) same
    simpa [List.filterMap_append, List.filterMap_map, Function.comp_def, Statement.node?] using told
  · have told := congrArg (List.filterMap Statement.edge?) same
    simpa [List.filterMap_append, List.filterMap_map, Function.comp_def, Statement.edge?] using told

end Flowchart

open Flowchart in
/-- **A flowchart tells its nodes and edges.**  The nodes are the lines that are highlighted
and the ends of the last step's edges.  The statements of the text, each a line of its own,
are one for each node, in the order of the lines, with the description of the first step
about it, whatever characters that has; and then one for each edge, in their order.  There
are eight more lines and no others.  So two traces with one text have the same nodes, labels
and edges. -/
theorem Trace.flowchart_faithful (steps : Trace) :
    let nodes := nodesOf steps
    let edges := (steps.getLast?.map Step.edges).getD []
    let lines := (flowchart steps).splitOn '\n'
    (nodes.Pairwise (· < ·) ∧
      ∀ n, n ∈ nodes ↔ (∃ step ∈ steps, step.highlight = some n) ∨
        ∃ edge ∈ edges, n = edge.source ∨ n = edge.target) ∧
    lines.filterMap readStatement? =
      nodes.map (fun n => .node n (caption steps n)) ++ edges.map .edge ∧
    lines.length = 8 + nodes.length + edges.length ∧
    (∀ edge ∈ edges, edge.source ∈ nodes ∧ edge.target ∈ nodes) ∧
    ∀ others : Trace, flowchart others = flowchart steps →
      nodesOf others = nodes ∧ (∀ n ∈ nodes, caption others n = caption steps n) ∧
        (others.getLast?.map Step.edges).getD [] = edges := by
  intro nodes edges lines
  refine ⟨⟨nodesOf_increasing steps, fun n => mem_nodesOf⟩, statements_flowchart steps, ?_, ?_, ?_⟩
  · have header_length : header.length = 5 := rfl
    show lines.length = 8 + (nodesOf steps).length + (edgesOf steps).length
    calc lines.length = (statements steps).length := congrArg List.length (splitOn_flowchart steps)
      _ = 8 + (nodesOf steps).length + (edgesOf steps).length := by
        simp only [statements, List.length_append, List.length_map, List.length_cons,
          List.length_nil, header_length]
        omega
  · intro edge mem
    constructor
    · exact mem_nodesOf.2 (.inr ⟨edge, mem, .inl rfl⟩)
    · exact mem_nodesOf.2 (.inr ⟨edge, mem, .inr rfl⟩)
  · intro others same
    have read := statements_flowchart others
    rw [same, statements_flowchart steps] at read
    obtain ⟨labelled, edges_eq⟩ := eq_of_statements_eq read
    have nodes_eq : nodes = nodesOf others := by
      simpa [Function.comp_def] using congrArg (List.map Prod.fst) labelled
    refine ⟨nodes_eq.symm, ?_, edges_eq.symm⟩
    intro n mem
    rw [← nodes_eq] at labelled
    exact (Prod.mk.inj (List.map_inj_left.1 labelled n mem)).2.symm

end Walkthrough
