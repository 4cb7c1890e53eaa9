import Mathlib.Data.List.Forall2
import Walkthrough.Proofs.Decoding

/-!
# Documents and their values

A document is decoded part by part: an array item by item, an object member by member
(`Document.exists_items_of_decode?`, `Document.exists_members_of_decode?`), and a field
holds the same text before and after (`Document.holdsText_iff`).  What differs is the limit
on nesting, which shallow values do not reach (`Document.decode?_of_depth_le`), and repeated
names, of which a value gives the last (`exists_onlyMember`).
-/

namespace Walkthrough.Json

/-! ## Nesting -/

mutual
/-- The number of containers that are nested in a value. -/
def depth : Json → Nat
  | .array items => itemsDepth items + 1
  | .object members => membersDepth members + 1
  | .null | .bool _ | .number _ | .string _ => 0

def itemsDepth : List Json → Nat
  | [] => 0
  | item :: rest => max item.depth (itemsDepth rest)

def membersDepth : List (Text × Json) → Nat
  | [] => 0
  | (_, value) :: rest => max value.depth (membersDepth rest)
end

namespace Document

mutual
/-- The limit on nesting does not matter to a value that stays below it. -/
theorem decode?_of_depth_le {n k : Nat} {document : Document} {value : Json}
    (h : document.decode? n = some value) (shallow : value.depth ≤ k) :
    document.decode? k = some value := by
  cases document with
  | null => exact h
  | bool => exact h
  | number => exact h
  | string => exact h
  | array items =>
    obtain ⟨-, h⟩ := Option.ite_none_left_eq_some.1 h
    obtain ⟨values, decoded, rfl⟩ := Option.map_eq_some_iff.1 h
    rw [depth] at shallow
    have inner := decodeItems?_of_depth_le decoded (Nat.le_sub_of_add_le shallow)
    rw [decode?, if_neg (by omega), inner]
    rfl
  | object members =>
    obtain ⟨-, h⟩ := Option.ite_none_left_eq_some.1 h
    obtain ⟨values, decoded, rfl⟩ := Option.map_eq_some_iff.1 h
    rw [depth] at shallow
    have inner := decodeMembers?_of_depth_le decoded (Nat.le_sub_of_add_le shallow)
    rw [decode?, if_neg (by omega), inner]
    rfl

theorem decodeItems?_of_depth_le {n k : Nat} {items : List Document} {values : List Json}
    (h : decodeItems? n items = some values) (shallow : itemsDepth values ≤ k) :
    decodeItems? k items = some values := by
  cases items with
  | nil => exact h
  | cons item rest =>
    obtain ⟨first, decoded, h⟩ := Option.bind_eq_some_iff.1 h
    obtain ⟨others, decoded_rest, h⟩ := Option.bind_eq_some_iff.1 h
    cases h
    obtain ⟨first_shallow, rest_shallow⟩ := Nat.max_le.1 shallow
    rw [decodeItems?, decode?_of_depth_le decoded first_shallow,
      decodeItems?_of_depth_le decoded_rest rest_shallow]
    rfl

theorem decodeMembers?_of_depth_le {n k : Nat} {members : List (Text × Document)}
    {values : List (Text × Json)} (h : decodeMembers? n members = some values)
    (shallow : membersDepth values ≤ k) : decodeMembers? k members = some values := by
  cases members with
  | nil => exact h
  | cons member rest =>
    obtain ⟨body, item⟩ := member
    obtain ⟨name, unescaped, h⟩ := Option.bind_eq_some_iff.1 h
    obtain ⟨first, decoded, h⟩ := Option.bind_eq_some_iff.1 h
    obtain ⟨others, decoded_rest, h⟩ := Option.bind_eq_some_iff.1 h
    cases h
    obtain ⟨first_shallow, rest_shallow⟩ := Nat.max_le.1 shallow
    rw [decodeMembers?, unescaped, decode?_of_depth_le decoded first_shallow,
      decodeMembers?_of_depth_le decoded_rest rest_shallow]
    rfl
end

/-! ## Parts of a document and of its value -/

section
variable {depth : Nat}

/-- A member and its value. -/
def DecodesMember (depth : Nat) (member : Text × Document) (value : Text × Json) : Prop :=
  unescape? member.1 = some value.1 ∧ member.2.decode? depth = some value.2

theorem forall₂_decodeItems? {items : List Document} {values : List Json}
    (h : decodeItems? depth items = some values) :
    List.Forall₂ (fun item value => item.decode? depth = some value) items values := by
  induction items generalizing values with
  | nil =>
    cases h
    exact .nil
  | cons item rest ih =>
    obtain ⟨first, decoded, h⟩ := Option.bind_eq_some_iff.1 h
    obtain ⟨others, decoded_rest, h⟩ := Option.bind_eq_some_iff.1 h
    cases h
    exact .cons decoded (ih decoded_rest)

theorem forall₂_decodeMembers? {members : List (Text × Document)} {values : List (Text × Json)}
    (h : decodeMembers? depth members = some values) :
    List.Forall₂ (DecodesMember depth) members values := by
  induction members generalizing values with
  | nil =>
    cases h
    exact .nil
  | cons member rest ih =>
    obtain ⟨body, item⟩ := member
    obtain ⟨name, unescaped, h⟩ := Option.bind_eq_some_iff.1 h
    obtain ⟨first, decoded, h⟩ := Option.bind_eq_some_iff.1 h
    obtain ⟨others, decoded_rest, h⟩ := Option.bind_eq_some_iff.1 h
    cases h
    exact .cons ⟨unescaped, decoded⟩ (ih decoded_rest)

theorem rel_getElem? {α β : Type} {R : α → β → Prop} {xs : List α} {ys : List β}
    (h : List.Forall₂ R xs ys) (i : Nat) : Option.Rel R xs[i]? ys[i]? := by
  induction h generalizing i with
  | nil => exact .none
  | cons here _ ih =>
    cases i with
    | zero => exact .some here
    | succ i => exact ih i

theorem exists_items_of_decode? {items : List Document} {value : Json}
    (h : decode? depth (.array items) = some value) :
    ∃ values, value = .array values ∧
      List.Forall₂ (fun item value => item.decode? (depth - 1) = some value) items values := by
  obtain ⟨-, h⟩ := Option.ite_none_left_eq_some.1 h
  obtain ⟨values, decoded, rfl⟩ := Option.map_eq_some_iff.1 h
  exact ⟨values, rfl, forall₂_decodeItems? decoded⟩

theorem exists_members_of_decode? {members : List (Text × Document)} {value : Json}
    (h : decode? depth (.object members) = some value) :
    ∃ values, value = .object values ∧
      List.Forall₂ (DecodesMember (depth - 1)) members values := by
  obtain ⟨-, h⟩ := Option.ite_none_left_eq_some.1 h
  obtain ⟨values, decoded, rfl⟩ := Option.map_eq_some_iff.1 h
  exact ⟨values, rfl, forall₂_decodeMembers? decoded⟩

/-- A field holds the same text before and after decoding. -/
theorem holdsText_iff {item : Option Document} {value : Option Json}
    (h : Option.Rel (fun item value => decode? depth item = some value) item value)
    {t : Option Text} : HoldsText item t ↔ Json.HoldsText value t := by
  rw [← optionalText?_eq_some_iff, ← Json.optionalText?_eq_some_iff]
  cases h with
  | none => rfl
  | @some item value decoded =>
    cases item with
    | null =>
      cases decoded
      rfl
    | bool =>
      cases decoded
      rfl
    | number =>
      obtain ⟨-, same⟩ := Option.ite_none_right_eq_some.1 decoded
      cases same
      rfl
    | string body =>
      obtain ⟨text, unescaped, rfl⟩ := Option.map_eq_some_iff.1 decoded
      have read : optionalText? (some (string body)) = some (some text) :=
        congrArg (Option.map some) unescaped
      rw [read]
      rfl
    | array =>
      obtain ⟨_, rfl, -⟩ := exists_items_of_decode? decoded
      rfl
    | object =>
      obtain ⟨_, rfl, -⟩ := exists_members_of_decode? decoded
      rfl

end

theorem named_of_forall₂ {depth : Nat} {members : List (Text × Document)}
    {values : List (Text × Json)}
    (h : List.Forall₂ (DecodesMember depth) members values) :
    Named members := by
  induction h with
  | nil => exact List.forall_mem_nil _
  | cons here _ ih => exact List.forall_mem_cons.2 ⟨⟨_, here.1⟩, ih⟩

end Document

theorem lastMember?_eq_getLast? (name : Text) (members : List (Text × Json)) :
    lastMember? name members =
      ((members.filter fun member => member.1 = name).map Prod.snd).getLast? := by
  have lookup_eq (members : List (Text × Json)) :
      members.lookup name =
        ((members.filter fun member => member.1 = name).map Prod.snd).head? := by
    induction members with
    | nil => rfl
    | cons member members ih =>
      rw [List.lookup_cons, List.filter_cons, ih]
      by_cases same : member.1 = name
      · simp [same]
      · simp [same, beq_eq_false_iff_ne.2 (Ne.symm same)]
  rw [lastMember?, lookup_eq, List.filter_reverse, List.map_reverse, List.head?_reverse]

/-- A name that comes once at most has one member, and that is the last one. -/
theorem exists_onlyMember {depth : Nat} {members : List (Text × Document)}
    {values : List (Text × Json)}
    (h : List.Forall₂ (Document.DecodesMember depth) members values) {name : Text}
    (once : (values.map Prod.fst).count name ≤ 1) :
    ∃ item, Document.OnlyMember members name item ∧
      Option.Rel (fun item value => Document.decode? depth item = some value) item
        (lastMember? name values) := by
  have selected : List.Forall₂ (Document.DecodesMember depth)
      (members.filter fun member => unescape? member.1 = some name)
      (values.filter fun value => value.1 = name) := by
    refine List.rel_filter ?_ h
    intro member value decodes
    simp only [decide_eq_true_eq, decodes.1, Option.some.injEq]
  have few : (values.filter fun value => value.1 = name).length ≤ 1 := by
    have count_eq : (values.map Prod.fst).count name =
        (values.filter fun value => value.1 = name).length := by
      rw [List.count_eq_length_filter, List.filter_map, List.length_map]
      exact congrArg List.length (List.filter_congr fun value _ => beq_eq_decide value.1 name)
    rwa [← count_eq]
  rw [lastMember?_eq_getLast?]
  unfold Document.OnlyMember
  generalize members.filter _ = found at selected
  generalize values.filter _ = last at selected few
  cases selected with
  | nil => exact ⟨none, rfl, .none⟩
  | cons here others =>
    cases others with
    | nil => exact ⟨some _, rfl, .some here.2⟩
    | cons => simp at few

end Walkthrough.Json
