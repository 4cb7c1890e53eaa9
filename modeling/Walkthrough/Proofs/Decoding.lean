import Mathlib.Data.List.Basic
import Walkthrough.Service.Command

/-!
# What records are read as

A record is an object, with its fields by name, or an array, with its fields in order.
Which requests and which commands are read off which documents and values is said here
without the readers: `Request.WrittenAs`, `Request.HeldBy` and `Command.WrittenAs`.  The
readers accept exactly these, and read them as said (`ofDocument?_eq_some_iff` and
`ofJson?_eq_some_iff`).
-/

namespace Walkthrough

/-! ## Members and fields -/

namespace Json.Document

variable {members : List (Text × Document)} {name : Text} {item : Option Document}

/-- The value of the member with a name, or nothing if there is none.  There are no two. -/
def OnlyMember (members : List (Text × Document)) (name : Text) (item : Option Document) : Prop :=
  (members.filter fun member => unescape? member.1 = some name).map Prod.snd = item.toList

/-- All members have names, with no half of a surrogate pair in them. -/
def Named (members : List (Text × Document)) : Prop :=
  ∀ member ∈ members, ∃ name, unescape? member.1 = some name

theorem onlyMember?_eq_some_iff {named : List (Text × Document)} :
    onlyMember? name named = some item ↔
      (named.filter fun member => member.1 = name).map Prod.snd = item.toList := by
  unfold onlyMember?
  split
  · rename_i none
    rw [none]
    cases item <;> simp
  · rename_i other found one
    rw [one]
    cases item <;> simp
  · rename_i several no_one
    refine iff_of_false (fun found => nomatch found) ?_
    intro only
    cases item with
    | none => exact several (List.map_eq_nil_iff.1 only)
    | some found =>
      obtain ⟨⟨other, x⟩, one, -⟩ := List.map_eq_singleton_iff.1 only
      exact no_one other x one

/-- The members with their names read. -/
theorem mapM_readName?_eq_some {named : List (Text × Document)}
    (h : members.mapM readName? = some named) (name : Text) :
    (named.filter fun member => member.1 = name).map Prod.snd =
      (members.filter fun member => unescape? member.1 = some name).map Prod.snd := by
  induction members generalizing named with
  | nil =>
    cases h
    rfl
  | cons member members ih =>
    rw [List.mapM_cons] at h
    obtain ⟨first, read, h⟩ := Option.bind_eq_some_iff.1 h
    obtain ⟨others, read_others, h⟩ := Option.bind_eq_some_iff.1 h
    cases h
    obtain ⟨found, unescaped, rfl⟩ := Option.map_eq_some_iff.1 read
    rw [List.filter_cons, List.filter_cons, unescaped]
    by_cases same : found = name
    · simp [same, ih read_others]
    · simp [same, ih read_others]

theorem exists_mapM_readName?_iff :
    (∃ named, members.mapM readName? = some named) ↔ Named members := by
  induction members with
  | nil => exact iff_of_true ⟨[], rfl⟩ (List.forall_mem_nil _)
  | cons member members ih =>
    rw [Named, List.forall_mem_cons, ← Named, ← ih]
    constructor
    · rintro ⟨named, h⟩
      rw [List.mapM_cons] at h
      obtain ⟨first, read, h⟩ := Option.bind_eq_some_iff.1 h
      obtain ⟨others, read_others, -⟩ := Option.bind_eq_some_iff.1 h
      obtain ⟨found, unescaped, -⟩ := Option.map_eq_some_iff.1 read
      exact ⟨⟨found, unescaped⟩, others, read_others⟩
    · rintro ⟨⟨found, unescaped⟩, others, read_others⟩
      refine ⟨(found, member.2) :: others, ?_⟩
      have read : readName? member = some (found, member.2) := by
        rw [readName?, unescaped]
        rfl
      rw [List.mapM_cons, read, read_others]
      rfl

theorem fields?_object_eq_some_iff {first second : Text} {x y : Option Document} :
    fields? first second (.object members) = some (x, y) ↔
      Named members ∧ OnlyMember members first x ∧ OnlyMember members second y := by
  rw [← exists_mapM_readName?_iff]
  constructor
  · intro h
    obtain ⟨named, read, h⟩ := Option.bind_eq_some_iff.1 h
    obtain ⟨x', only_x, h⟩ := Option.bind_eq_some_iff.1 h
    obtain ⟨y', only_y, h⟩ := Option.bind_eq_some_iff.1 h
    cases h
    rw [onlyMember?_eq_some_iff, mapM_readName?_eq_some read] at only_x only_y
    exact ⟨⟨named, read⟩, only_x, only_y⟩
  · rintro ⟨⟨named, read⟩, only_x, only_y⟩
    rw [OnlyMember, ← mapM_readName?_eq_some read, ← onlyMember?_eq_some_iff] at only_x only_y
    simp only [fields?, read, only_x, only_y, Option.bind_eq_bind, Option.bind_some]
    rfl

theorem onlyMember_pair {first second body body' : Text} (hf : unescape? body = some first)
    (hs : unescape? body' = some second) (differ : first ≠ second) (x y : Document) :
    OnlyMember [(body, x), (body', y)] first (some x) ∧
      OnlyMember [(body, x), (body', y)] second (some y) := by
  simp [OnlyMember, hf, hs, differ, differ.symm]

theorem OnlyMember.unique {x y : Option Document} (hx : OnlyMember members name x)
    (hy : OnlyMember members name y) : x = y := by
  have same : x.toList = y.toList := hx.symm.trans hy
  cases x <;> cases y <;> simp_all

/-- Other members, and the order of members, do not matter to the member with a name. -/
theorem onlyMember_perm_append {members' extra : List (Text × Document)}
    (h : members'.Perm (members ++ extra))
    (others : ∀ member ∈ extra, unescape? member.1 ≠ some name) :
    OnlyMember members' name item ↔ OnlyMember members name item := by
  have none_extra : (extra.filter fun member => unescape? member.1 = some name) = [] := by
    simpa using others
  have selected : ((members'.filter fun member => unescape? member.1 = some name).map
      Prod.snd).Perm ((members.filter fun member => unescape? member.1 = some name).map
        Prod.snd) := by
    refine List.Perm.map _ ((h.filter _).trans ?_)
    rw [List.filter_append, none_extra, List.append_nil]
  unfold OnlyMember
  cases item with
  | none =>
    rw [Option.toList_none]
    exact ⟨fun same => List.perm_nil.1 (same ▸ selected.symm),
      fun same => List.perm_nil.1 (same ▸ selected)⟩
  | some item =>
    rw [Option.toList_some]
    exact ⟨fun same => List.perm_singleton.1 (same ▸ selected.symm),
      fun same => List.perm_singleton.1 (same ▸ selected)⟩

/-- A field that may hold a text, or nothing. -/
inductive HoldsText : Option Document → Option Text → Prop where
  | absent : HoldsText none none
  | null : HoldsText (some .null) none
  | string {body t : Text} (h : unescape? body = some t) : HoldsText (some (.string body)) (some t)

theorem optionalText?_eq_some_iff {t : Option Text} :
    optionalText? item = some t ↔ HoldsText item t := by
  constructor
  · intro h
    cases item with
    | none => cases h; exact .absent
    | some item =>
      cases item with
      | null => cases h; exact .null
      | string body =>
        obtain ⟨read, found, rfl⟩ := Option.map_eq_some_iff.1 h
        exact .string found
      | bool | number | array | object => cases h
  · intro h
    cases h with
    | absent => rfl
    | null => rfl
    | string found => exact congrArg (Option.map some) found

/-- A missing field and a `null` hold the same. -/
theorem holdsText_getD_null {t : Option Text} :
    HoldsText (some (item.getD .null)) t ↔ HoldsText item t := by
  cases item with
  | some => rfl
  | none =>
    constructor
    · intro h
      cases h
      exact .absent
    · intro h
      cases h
      exact .null

end Json.Document

/-- A field that may hold a text, or nothing. -/
inductive Json.HoldsText : Option Json → Option Text → Prop where
  | absent : HoldsText none none
  | null : HoldsText (some .null) none
  | string (t : Text) : HoldsText (some (.string t)) (some t)

theorem Json.optionalText?_eq_some_iff {value : Option Json} {t : Option Text} :
    optionalText? value = some t ↔ HoldsText value t := by
  constructor
  · intro h
    unfold optionalText? at h
    split at h
    · cases h; exact .absent
    · cases h; exact .null
    · cases h; exact .string _
    · cases h
  · intro h
    cases h <;> rfl

/-! ## Requests -/

namespace Request

/-- A request off a document, where no field comes twice. -/
inductive WrittenAs : Json.Document → Request → Prop where
  | object {members : List (Text × Json.Document)} {code language : Option Json.Document}
      {r : Request} (named : Json.Document.Named members)
      (code_only : Json.Document.OnlyMember members codeField code)
      (language_only : Json.Document.OnlyMember members languageField language)
      (code_text : Json.Document.HoldsText code r.code)
      (language_text : Json.Document.HoldsText language r.language) :
      WrittenAs (.object members) r
  | array {items : List Json.Document} {r : Request} (short : items.length ≤ 2)
      (code_text : Json.Document.HoldsText items[0]? r.code)
      (language_text : Json.Document.HoldsText items[1]? r.language) :
      WrittenAs (.array items) r

/-- A request off a value, where of repeated fields the last one counts. -/
inductive HeldBy : Json → Request → Prop where
  | object {members : List (Text × Json)} {r : Request}
      (code_text : Json.HoldsText (Json.lastMember? codeField members) r.code)
      (language_text : Json.HoldsText (Json.lastMember? languageField members) r.language) :
      HeldBy (.object members) r
  | array {items : List Json} {r : Request} (short : items.length ≤ 2)
      (code_text : Json.HoldsText items[0]? r.code)
      (language_text : Json.HoldsText items[1]? r.language) :
      HeldBy (.array items) r

theorem ofFields?_eq_some_iff {code language : Option Json} {r : Request} :
    ofFields? code language = some r ↔
      Json.HoldsText code r.code ∧ Json.HoldsText language r.language := by
  simp only [← Json.optionalText?_eq_some_iff]
  constructor
  · intro h
    obtain ⟨c, code_text, h⟩ := Option.bind_eq_some_iff.1 h
    obtain ⟨l, language_text, h⟩ := Option.bind_eq_some_iff.1 h
    cases h
    exact ⟨code_text, language_text⟩
  · rintro ⟨code_text, language_text⟩
    rw [ofFields?, code_text, language_text]
    rfl

theorem ofJson?_eq_some_iff {value : Json} {r : Request} :
    ofJson? value = some r ↔ HeldBy value r := by
  constructor
  · intro h
    unfold ofJson? at h
    split at h
    · obtain ⟨code_text, language_text⟩ := ofFields?_eq_some_iff.1 h
      exact .object code_text language_text
    · obtain ⟨short, h⟩ := Option.ite_none_right_eq_some.1 h
      obtain ⟨code_text, language_text⟩ := ofFields?_eq_some_iff.1 h
      exact .array short code_text language_text
    · cases h
  · intro h
    cases h with
    | object code_text language_text => exact ofFields?_eq_some_iff.2 ⟨code_text, language_text⟩
    | array short code_text language_text =>
      exact Option.ite_none_right_eq_some.2
        ⟨short, ofFields?_eq_some_iff.2 ⟨code_text, language_text⟩⟩

theorem ofDocument?_eq_some_iff {document : Json.Document} {r : Request} :
    ofDocument? document = some r ↔ WrittenAs document r := by
  have texts {x y : Option Json.Document}
      (fields : document.fields? codeField languageField = some (x, y)) :
      ofDocument? document = some r ↔
        Json.Document.HoldsText x r.code ∧ Json.Document.HoldsText y r.language := by
    simp only [← Json.Document.optionalText?_eq_some_iff, ofDocument?, fields, Option.bind_eq_bind,
      Option.bind_some]
    constructor
    · intro h
      obtain ⟨c, code_text, h⟩ := Option.bind_eq_some_iff.1 h
      obtain ⟨l, language_text, h⟩ := Option.bind_eq_some_iff.1 h
      cases h
      exact ⟨code_text, language_text⟩
    · rintro ⟨code_text, language_text⟩
      rw [code_text, language_text]
      rfl
  constructor
  · intro h
    obtain ⟨⟨x, y⟩, fields, -⟩ := Option.bind_eq_some_iff.1 h
    obtain ⟨code_text, language_text⟩ := (texts fields).1 h
    cases document with
    | object members =>
      obtain ⟨named, code_only, language_only⟩ := Json.Document.fields?_object_eq_some_iff.1 fields
      exact .object named code_only language_only code_text language_text
    | array items =>
      obtain ⟨short, same⟩ := Option.ite_none_right_eq_some.1 fields
      cases same
      exact .array short code_text language_text
    | null | bool | number | string => cases fields
  · intro h
    cases h with
    | object named code_only language_only code_text language_text =>
      have fields := Json.Document.fields?_object_eq_some_iff.2 ⟨named, code_only, language_only⟩
      exact (texts fields).2 ⟨code_text, language_text⟩
    | array short code_text language_text =>
      exact (texts (if_pos short)).2 ⟨code_text, language_text⟩

end Request

/-! ## Commands -/

namespace Command

/-- Parameters that may be missing or `null`, and are read as a value else. -/
inductive HoldsParams : Option Json.Document → Option Json → Prop where
  | absent : HoldsParams none none
  | null : HoldsParams (some .null) none
  | value {item : Json.Document} {params : Json} (read : item.decode? paramsDepth = some params)
      (full : params ≠ .null) : HoldsParams (some item) (some params)

theorem decodeParams?_eq_some_iff {item : Option Json.Document} {params : Option Json} :
    decodeParams? item = some params ↔ HoldsParams item params := by
  constructor
  · intro h
    unfold decodeParams? at h
    split at h
    · cases h; exact .absent
    · cases h; exact .null
    · rename_i item not_null
      obtain ⟨value, read, rfl⟩ := Option.map_eq_some_iff.1 h
      refine .value read ?_
      rintro rfl
      cases item <;> simp [Json.Document.decode?] at read not_null
  · intro h
    cases h with
    | absent => rfl
    | null => rfl
    | @value item params read full =>
      have not_null : item ≠ .null := by
        rintro rfl
        cases read
        exact full rfl
      unfold decodeParams?
      split
      · rename_i none
        cases none
      · rename_i null
        exact absurd (Option.some.inj null) not_null
      · rename_i same
        cases same
        rw [read]
        rfl

/-- A command off a document.  Its name is there once, its parameters once or not at all;
an array has both. -/
inductive WrittenAs : Json.Document → Command → Prop where
  | object {members : List (Text × Json.Document)} {body : Text} {params : Option Json.Document}
      {c : Command} (named : Json.Document.Named members)
      (name_only : Json.Document.OnlyMember members "command".toList (some (.string body)))
      (params_only : Json.Document.OnlyMember members "params".toList params)
      (name_text : Json.unescape? body = some c.name) (params_value : HoldsParams params c.params) :
      WrittenAs (.object members) c
  | array {body : Text} {params : Json.Document} {c : Command}
      (name_text : Json.unescape? body = some c.name)
      (params_value : HoldsParams (some params) c.params) :
      WrittenAs (.array [.string body, params]) c

theorem ofDocument?_of_fields {document : Json.Document} {x y : Option Json.Document}
    (complete : isComplete document = true)
    (fields : document.fields? "command".toList "params".toList = some (x, y)) {c : Command} :
    ofDocument? document = some c ↔
      ∃ body, x = some (.string body) ∧ Json.unescape? body = some c.name ∧
        HoldsParams y c.params := by
  have guarded : (guard (isComplete document = true) : Option Unit) = some () := if_pos complete
  rw [ofDocument?, guarded, fields]
  simp only [← decodeParams?_eq_some_iff, Option.bind_eq_bind, Option.bind_some]
  constructor
  · intro h
    obtain ⟨item, found, h⟩ := Option.bind_eq_some_iff.1 h
    obtain ⟨name, name_text, h⟩ := Option.bind_eq_some_iff.1 h
    obtain ⟨params, params_value, h⟩ := Option.bind_eq_some_iff.1 h
    cases h
    cases item with
    | string body => exact ⟨body, found, name_text, params_value⟩
    | null | bool | number | array | object => cases name_text
  · rintro ⟨body, rfl, name_text, params_value⟩
    rw [Option.bind_some, Json.Document.text?, name_text, params_value]
    rfl

theorem ofDocument?_eq_some_iff {document : Json.Document} {c : Command} :
    ofDocument? document = some c ↔ WrittenAs document c := by
  constructor
  · intro h
    obtain ⟨_, guarded, rest⟩ := Option.bind_eq_some_iff.1 h
    have complete : isComplete document = true := by
      cases found : isComplete document with
      | true => rfl
      | false =>
        rw [found] at guarded
        cases guarded
    obtain ⟨⟨x, y⟩, fields, -⟩ := Option.bind_eq_some_iff.1 rest
    obtain ⟨body, rfl, name_text, params_value⟩ := (ofDocument?_of_fields complete fields).1 h
    cases document with
    | object members =>
      obtain ⟨named, name_only, params_only⟩ := Json.Document.fields?_object_eq_some_iff.1 fields
      exact .object named name_only params_only name_text params_value
    | array items =>
      obtain ⟨-, same⟩ := Option.ite_none_right_eq_some.1 fields
      obtain ⟨first, second, rfl⟩ := List.length_eq_two.1 (of_decide_eq_true complete)
      cases same
      exact .array name_text params_value
    | null | bool | number | string => cases fields
  · intro h
    cases h with
    | object named name_only params_only name_text params_value =>
      have fields :=
        Json.Document.fields?_object_eq_some_iff.2 ⟨named, name_only, params_only⟩
      exact (ofDocument?_of_fields rfl fields).2 ⟨_, rfl, name_text, params_value⟩
    | array name_text params_value =>
      exact (ofDocument?_of_fields rfl rfl).2 ⟨_, rfl, name_text, params_value⟩

end Command

end Walkthrough
