import Walkthrough.Json.Document
import Walkthrough.Proofs.Dictionary
import Walkthrough.Proofs.Json.Lexing

/-!
# Reading a compact text back

A text of the tokens of a value is read as the document of the value
(`Document.read?_of_spaced`), and so is its compact text (`Document.read?_write`); that
document decodes to the value (`decode?_document`).  Together: `read?_write`.

The reader is followed from the start of a value to its end, over a stack of unfinished
containers that it leaves as it was.  It goes through the items of an array and through the
members of an object alike: `Parts.foldlM_intercalate`.
-/

namespace Walkthrough.Json

mutual
/-- A value with its strings as they are written. -/
def document : Json → Document
  | .null => .null
  | .bool b => .bool b
  | .number literal => .number literal
  | .string t => .string (escape t)
  | .array items => .array (itemDocuments items)
  | .object members => .object (memberDocuments members)

def itemDocuments : List Json → List Document
  | [] => []
  | item :: rest => item.document :: itemDocuments rest

def memberDocuments : List (Text × Json) → List (Text × Document)
  | [] => []
  | (name, value) :: rest => (escape name, value.document) :: memberDocuments rest
end

theorem itemDocuments_eq_map (items : List Json) : itemDocuments items = items.map document := by
  induction items with
  | nil => rfl
  | cons item rest ih => simp [itemDocuments, ih]

theorem memberDocuments_eq_map (members : List (Text × Json)) :
    memberDocuments members = members.map fun (name, value) => (escape name, value.document) := by
  induction members with
  | nil => rfl
  | cons member rest ih => simp [memberDocuments, ih]

/-! ## From tokens to documents -/

namespace Document

/-- How the reader goes through the parts of a container: where it is before a part and
after it, with the parts so far, and where the end of the container takes it. -/
structure Parts (β : Type) where
  before : List β → Reader
  after : β → List β → Reader
  finish : List β → Reader
  closing : Token
  step_comma : ∀ x done, (after x done).step .comma = some (before (x :: done))
  step_closing : ∀ x done, (after x done).step closing = some (finish (x :: done).reverse)

theorem foldlM_cons_of_step {r r' : Reader} {token : Token} (h : r.step token = some r')
    (rest : List Token) :
    (token :: rest).foldlM Reader.step r = rest.foldlM Reader.step r' := by
  rw [List.foldlM_cons, h]
  rfl

theorem foldlM_append_of_foldlM {r r' : Reader} {first : List Token}
    (h : first.foldlM Reader.step r = some r') (rest : List Token) :
    (first ++ rest).foldlM Reader.step r = rest.foldlM Reader.step r' := by
  rw [List.foldlM_append, h]
  rfl

theorem exists_intercalate_cons {α : Type} (separator part : List α) (rest : List (List α)) :
    ∃ more, separator.intercalate (part :: rest) = part ++ more := by
  cases rest with
  | nil => exact ⟨[], by rw [List.intercalate_singleton, List.append_nil]⟩
  | cons next rest => exact ⟨_, by rw [List.intercalate_cons_cons, List.append_assoc]⟩

namespace Parts

def items (outer : List Unfinished) : Parts Document where
  before done := .value (.array done :: outer)
  after item done := .afterValue item (.array done :: outer)
  finish items := .afterValue (.array items) outer
  closing := .closeArray
  step_comma _ _ := rfl
  step_closing _ _ := rfl

def members (outer : List Unfinished) : Parts (Text × Document) where
  before done := .name done outer
  after member done := .afterValue member.2 (.object done member.1 :: outer)
  finish members := .afterValue (.object members) outer
  closing := .closeObject
  step_comma _ _ := rfl
  step_closing _ _ := rfl

/-- If each part is read off its tokens, so are all of them, with commas between them. -/
theorem foldlM_intercalate {α β : Type} (p : Parts β) {tokens : α → List Token} {read : α → β}
    {parts : List α} (nonempty : parts ≠ [])
    (h : ∀ x ∈ parts, ∀ done,
      (tokens x).foldlM Reader.step (p.before done) = some (p.after (read x) done))
    (done : List β) :
    ([Token.comma].intercalate (parts.map tokens) ++ [p.closing]).foldlM Reader.step
      (p.before done) = some (p.finish (done.reverse ++ parts.map read)) := by
  induction parts generalizing done with
  | nil => exact absurd rfl nonempty
  | cons x rest ih =>
    obtain ⟨first, others⟩ := List.forall_mem_cons.1 h
    cases rest with
    | nil =>
      rw [List.map_singleton, List.intercalate_singleton, foldlM_append_of_foldlM (first done),
        foldlM_cons_of_step (p.step_closing _ _), List.reverse_cons]
      rfl
    | cons next rest =>
      have later := ih (List.cons_ne_nil next rest) others (read x :: done)
      rw [List.reverse_cons, List.append_assoc] at later
      rw [List.map_cons, List.map_cons, List.intercalate_cons_cons, List.append_assoc,
        List.append_assoc, foldlM_append_of_foldlM (first done), List.singleton_append,
        foldlM_cons_of_step (p.step_comma _ _)]
      exact later

/-- At the start of a container the reader has a state of its own, in which a part is read
as any other. -/
theorem foldlM_container {α β : Type} (p : Parts β) {first : Reader} {tokens : α → List Token}
    {read : α → β} {x : α} {rest : List α}
    (enter : ∀ more, (tokens x ++ more).foldlM Reader.step first =
      (tokens x ++ more).foldlM Reader.step (p.before []))
    (h : ∀ y ∈ x :: rest, ∀ done,
      (tokens y).foldlM Reader.step (p.before done) = some (p.after (read y) done)) :
    ([Token.comma].intercalate ((x :: rest).map tokens) ++ [p.closing]).foldlM Reader.step first =
      some (p.finish ((x :: rest).map read)) := by
  have all := p.foldlM_intercalate (List.cons_ne_nil x rest) h []
  obtain ⟨more, starts⟩ := exists_intercalate_cons [Token.comma] (tokens x) (rest.map tokens)
  rw [List.map_cons, starts, List.append_assoc] at all ⊢
  rw [enter]
  exact all

end Parts

/-- No value starts with the end of an array. -/
theorem foldlM_firstItem (j : Json) (rest : List Token) (outer : List Unfinished) :
    (j.tokens ++ rest).foldlM Reader.step (.firstItem outer) =
      (j.tokens ++ rest).foldlM Reader.step (.value (.array [] :: outer)) := by
  cases j <;> rfl

theorem foldlM_tokens (j : Json) (outer : List Unfinished) :
    j.tokens.foldlM Reader.step (.value outer) = some (.afterValue j.document outer) := by
  induction j using Json.induction generalizing outer with
  | null => rfl
  | bool => rfl
  | number => rfl
  | string => rfl
  | array items ih =>
    cases items with
    | nil => rfl
    | cons item rest =>
      rw [tokens, document, itemTokens_eq_map, itemDocuments_eq_map, List.cons_append,
        foldlM_cons_of_step rfl]
      exact (Parts.items outer).foldlM_container (fun more => foldlM_firstItem item more outer)
        (fun x hx done => ih x hx (.array done :: outer))
  | object members ih =>
    cases members with
    | nil => rfl
    | cons member rest =>
      rw [tokens, document, memberTokens_eq_map, memberDocuments_eq_map, List.cons_append,
        foldlM_cons_of_step rfl]
      exact (Parts.members outer).foldlM_container (fun _ => rfl)
        (fun x hx done => ih x hx (.object done (escape x.1) :: outer))

/-- A value is read off any text of its tokens, at any depth. -/
theorem read?_of_spaced {j : Json} {t : Text} (standard : ∀ token ∈ j.tokens, token.Standard)
    (h : Token.Spaced j.tokens t) : read? t = some j.document := by
  rw [read?, lex_of_spaced standard h]
  simp only [ofTokens?, foldlM_tokens]

theorem read?_write {depth : Nat} {j : Json} (h : Readable depth j) :
    read? j.write = some j.document :=
  read?_of_spaced (standard_of_mem_tokens h) (Token.spaced_flatMap _)

end Document

/-! ## From documents to values -/

section
variable {depth : Nat}

theorem decodeItems?_map {items : List Json}
    (h : ∀ item ∈ items, item.document.decode? depth = some item) :
    Document.decodeItems? depth (items.map document) = some items := by
  induction items with
  | nil => rfl
  | cons item rest ih =>
    obtain ⟨first, others⟩ := List.forall_mem_cons.1 h
    rw [List.map_cons, Document.decodeItems?, first, ih others]
    rfl

theorem decodeMembers?_map {members : List (Text × Json)}
    (h : ∀ member ∈ members, member.2.document.decode? depth = some member.2) :
    Document.decodeMembers? depth
      (members.map fun (name, value) => (escape name, value.document)) = some members := by
  induction members with
  | nil => rfl
  | cons member rest ih =>
    obtain ⟨first, others⟩ := List.forall_mem_cons.1 h
    rw [List.map_cons, Document.decodeMembers?, unescape?_escape, first, ih others]
    rfl

theorem decode?_document {j : Json} (h : Readable depth j) : j.document.decode? depth = some j := by
  induction h with
  | null => rfl
  | bool => rfl
  | number _ whole inRange =>
    simp only [document, Document.decode?, isInRange, whole, Option.any_some, inRange, if_true]
  | string _ t =>
    rw [document, Document.decode?, unescape?_escape]
    rfl
  | array _ ih =>
    rw [document, itemDocuments_eq_map, Document.decode?, if_neg (Nat.succ_ne_zero _),
      Nat.add_sub_cancel, decodeItems?_map ih]
    rfl
  | object _ ih =>
    rw [document, memberDocuments_eq_map, Document.decode?, if_neg (Nat.succ_ne_zero _),
      Nat.add_sub_cancel, decodeMembers?_map ih]
    rfl

end

/-- A value comes back from its compact text. -/
theorem read?_write {j : Json} (h : Readable depthLimit j) : read? j.write = some j := by
  rw [read?, Document.read?_write h]
  exact decode?_document h

/-! ## Readable values -/

theorem readable_record {depth : Nat} {fields : List (String × Option Json)}
    (h : ∀ field ∈ fields, ∀ value ∈ field.2, Readable depth value) :
    Readable (depth + 1) (record fields) := by
  refine .object fun member mem => ?_
  obtain ⟨field, inside, found⟩ := List.mem_filterMap.1 mem
  obtain ⟨value, present, rfl⟩ := Option.map_eq_some_iff.1 found
  exact h field inside value present

/-- Putting the members in order keeps a value readable. -/
theorem Readable.sorted {depth : Nat} {j : Json} (h : Readable depth j) :
    Readable depth j.sorted := by
  induction h with
  | null depth => exact .null depth
  | bool depth b => exact .bool depth b
  | number depth whole inRange => exact .number depth whole inRange
  | string depth t => exact .string depth t
  | array _ ih =>
    rw [Json.sorted, sortedItems_eq_map]
    exact .array (List.forall_mem_map.2 ih)
  | object _ ih =>
    rw [Json.sorted, sortedMembers_eq_map]
    refine .object fun member mem => ?_
    obtain ⟨source, inside, rfl⟩ := List.mem_map.1 (Dictionary.mem_entries_ofList mem)
    exact ih source inside

end Walkthrough.Json
