import Walkthrough.Proofs.Envelope
import Walkthrough.Proofs.Json.Context
import Walkthrough.Proofs.Json.Values

/-!
# Two ways to read a request

A request is read straight off a text, or off the value of the parameters of a command.
Both readings agree (`Request.writtenAs_iff_heldBy`) on texts that have a value, as long as
no field comes twice, for of repeated fields the first reading accepts none and the second
the last one.  `Request.decoders_agree` is what follows for the replies, together with what
a request depends on: the fields `code` and `language`, wherever they stand.
-/

namespace Walkthrough

/-! ## The two readings -/

namespace Request

/-- The two readings of a request. -/
theorem writtenAs_iff_heldBy {depth : Nat} {document : Json.Document} {value : Json}
    (read : document.decode? depth = some value) (code_once : value.names.count codeField ≤ 1)
    (language_once : value.names.count languageField ≤ 1) {r : Request} :
    WrittenAs document r ↔ HeldBy value r := by
  cases document with
  | null => cases read; exact iff_of_false nofun nofun
  | bool => cases read; exact iff_of_false nofun nofun
  | number =>
    obtain ⟨-, same⟩ := Option.ite_none_right_eq_some.1 read
    cases same
    exact iff_of_false nofun nofun
  | string =>
    obtain ⟨_, -, rfl⟩ := Option.map_eq_some_iff.1 read
    exact iff_of_false nofun nofun
  | array items =>
    obtain ⟨values, rfl, related⟩ := Json.Document.exists_items_of_decode? read
    have code_iff {t : Option Text} :=
      Json.Document.holdsText_iff (Json.Document.rel_getElem? related 0) (t := t)
    have language_iff {t : Option Text} :=
      Json.Document.holdsText_iff (Json.Document.rel_getElem? related 1) (t := t)
    constructor
    · intro written
      cases written with
      | array short code_text language_text =>
        exact .array (related.length_eq ▸ short) (code_iff.1 code_text)
          (language_iff.1 language_text)
    · intro held
      cases held with
      | array short code_text language_text =>
        exact .array (related.length_eq ▸ short) (code_iff.2 code_text)
          (language_iff.2 language_text)
  | object members =>
    obtain ⟨values, rfl, related⟩ := Json.Document.exists_members_of_decode? read
    obtain ⟨code, code_only, code_rel⟩ := Json.exists_onlyMember related code_once
    obtain ⟨language, language_only, language_rel⟩ :=
      Json.exists_onlyMember related language_once
    constructor
    · intro written
      cases written with
      | object _ code_only' language_only' code_text language_text =>
        cases code_only.unique code_only'
        cases language_only.unique language_only'
        exact .object ((Json.Document.holdsText_iff code_rel).1 code_text)
          ((Json.Document.holdsText_iff language_rel).1 language_text)
    · intro held
      cases held with
      | object code_text language_text =>
        exact .object (Json.Document.named_of_forall₂ related) code_only language_only
          ((Json.Document.holdsText_iff code_rel).2 code_text)
          ((Json.Document.holdsText_iff language_rel).2 language_text)

theorem read?_eq_ofDocument? {text : Text} {document : Json.Document}
    (h : Json.Document.read? text = some document) : read? text = ofDocument? document := by
  rw [read?, h]

/-- Documents with the same requests. -/
theorem ofDocument?_congr {document other : Json.Document}
    (h : ∀ r, WrittenAs document r ↔ WrittenAs other r) :
    ofDocument? document = ofDocument? other := by
  refine Option.ext fun r => ?_
  rw [ofDocument?_eq_some_iff, ofDocument?_eq_some_iff, h]

/-! ## What a request depends on -/

variable {members : List (Text × Json.Document)}

theorem writtenAs_perm_append {members' extra : List (Text × Json.Document)}
    (h : members'.Perm (members ++ extra))
    (others : ∀ member ∈ extra, ∃ name, Json.unescape? member.1 = some name ∧
      name ≠ codeField ∧ name ≠ languageField) {r : Request} :
    WrittenAs (.object members') r ↔ WrittenAs (.object members) r := by
  have extra_named : Json.Document.Named extra :=
    fun member mem => (others member mem).imp fun _ found => found.1
  have named_iff : Json.Document.Named members' ↔ Json.Document.Named members := by
    constructor
    · intro named member mem
      exact named member (h.symm.subset (List.mem_append_left extra mem))
    · intro named member mem
      exact (List.mem_append.1 (h.subset mem)).elim (named member) (extra_named member)
  have only_iff {field : Text} (known : field = codeField ∨ field = languageField)
      {item : Option Json.Document} : Json.Document.OnlyMember members' field item ↔
        Json.Document.OnlyMember members field item := by
    apply Json.Document.onlyMember_perm_append h
    intro member mem same
    obtain ⟨name, found, not_code, not_language⟩ := others member mem
    obtain rfl : name = field := Option.some.inj (found.symm.trans same)
    exact known.elim not_code not_language
  have code_iff {item : Option Json.Document} : Json.Document.OnlyMember members' codeField item ↔
      Json.Document.OnlyMember members codeField item := only_iff (.inl rfl)
  have language_iff {item : Option Json.Document} :
      Json.Document.OnlyMember members' languageField item ↔
        Json.Document.OnlyMember members languageField item := only_iff (.inr rfl)
  constructor
  · intro written
    cases written with
    | object named code_only language_only code_text language_text =>
      exact .object (named_iff.1 named) (code_iff.1 code_only) (language_iff.1 language_only)
        code_text language_text
  · intro written
    cases written with
    | object named code_only language_only code_text language_text =>
      exact .object (named_iff.2 named) (code_iff.2 code_only) (language_iff.2 language_only)
        code_text language_text

theorem writtenAs_array {items : List Json.Document} {code language : Option Json.Document}
    (named : Json.Document.Named members)
    (code_only : Json.Document.OnlyMember members codeField code)
    (language_only : Json.Document.OnlyMember members languageField language)
    (short : items.length ≤ 2) (first : items[0]?.getD .null = code.getD .null)
    (second : items[1]?.getD .null = language.getD .null) {r : Request} :
    WrittenAs (.array items) r ↔ WrittenAs (.object members) r := by
  have code_iff {t : Option Text} : Json.Document.HoldsText items[0]? t ↔
      Json.Document.HoldsText code t := by
    rw [← Json.Document.holdsText_getD_null, first, Json.Document.holdsText_getD_null]
  have language_iff {t : Option Text} : Json.Document.HoldsText items[1]? t ↔
      Json.Document.HoldsText language t := by
    rw [← Json.Document.holdsText_getD_null, second, Json.Document.holdsText_getD_null]
  constructor
  · intro written
    cases written with
    | array _ code_text language_text =>
      exact .object named code_only language_only (code_iff.1 code_text)
        (language_iff.1 language_text)
  · intro written
    cases written with
    | object _ code_only' language_only' code_text language_text =>
      cases code_only.unique code_only'
      cases language_only.unique language_only'
      exact .array short (code_iff.2 code_text) (language_iff.2 language_text)

end Request

/-! ## Commands over parameters as they are written -/

namespace Operation

/-- The line of an operation, with the text of its parameters. -/
def line (operation : Operation) (params : Text) : Text :=
  "\x7b\"command\":\"".toList ++ operation.name ++ "\",\"params\":".toList ++ params ++ ['\x7d']

theorem writtenIn_line (operation : Operation) {params : Text} {document : Json.Document}
    (read : Json.Document.read? params = some document) {value : Option Json}
    (holds : Command.HoldsParams (some document) value) :
    Command.WrittenIn (operation.line params) ⟨operation.name, value⟩ := by
  have command : Json.escape "command".toList = "command".toList :=
    Json.escape_eq_self (by decide)
  have params_plain : Json.escape "params".toList = "params".toList :=
    Json.escape_eq_self (by decide)
  have name : Json.escape operation.name = operation.name :=
    Json.escape_eq_self (by cases operation <;> decide)
  have text (t : Text) (plain : Json.escape t = t) : Json.unescape? t = some t :=
    (congrArg Json.unescape? plain).symm.trans (Json.unescape?_escape t)
  have differ : "command".toList ≠ "params".toList := by decide
  have only := Json.Document.onlyMember_pair (text _ command) (text _ params_plain) differ
    (.string operation.name) document
  have line_eq : operation.line params =
      (['\x7b', '"'] ++ "command".toList ++ ['"', ':', '"']) ++ operation.name ++
        (['"', ',', '"'] ++ "params".toList ++ ['"', ':']) ++ params ++ ['\x7d'] := rfl
  have named : Json.Document.Named
      [("command".toList, .string operation.name), ("params".toList, document)] := by
    simp only [Json.Document.Named, List.forall_mem_cons]
    exact ⟨⟨_, text _ command⟩, ⟨_, text _ params_plain⟩, List.forall_mem_nil _⟩
  refine ⟨_, line_eq ▸ Json.Document.read?_pair command name params_plain read, ?_⟩
  exact .object named only.1 only.2 (text _ name) holds

end Operation

/-! ## The replies to both readings -/

namespace Request

section
variable {text : Text} {value : Json} (read : Json.read? text = some value)
include read

theorem exists_document (shallow : value.depth ≤ 126) :
    ∃ document, Json.Document.read? text = some document ∧
      document.decode? Command.paramsDepth = some value := by
  unfold Json.read? at read
  split at read
  · cases read
  · exact ⟨_, ‹_›, Json.Document.decode?_of_depth_le read shallow⟩

variable (shallow : value.depth ≤ 126) (code_once : value.names.count codeField ≤ 1)
  (language_once : value.names.count languageField ≤ 1)
include shallow code_once language_once

theorem read?_eq_some_iff_heldBy {r : Request} : read? text = some r ↔ HeldBy value r := by
  obtain ⟨document, read_document, decoded⟩ := exists_document read shallow
  rw [read?_eq_ofDocument? read_document, ofDocument?_eq_some_iff,
    writtenAs_iff_heldBy decoded code_once language_once]

/-- What is read straight off the text is what the service answers. -/
theorem reply_line_of_read? (run : Run) {r : Request} (found : read? text = some r)
    (operation : Operation) :
    Command.reply run (operation.line text) =
      (Reply.ofResponse (operation.respond run r)).toJson.sorted := by
  obtain ⟨document, read_document, decoded⟩ := exists_document read shallow
  have held := (read?_eq_some_iff_heldBy read shallow code_once language_once).1 found
  have not_null : value ≠ .null := by
    rintro rfl
    cases held
  have written := operation.writtenIn_line read_document (.value decoded not_null)
  rw [Command.reply_of_writtenIn run written, Command.answer_of_heldBy rfl run rfl held]

theorem reply_line_of_not_read? (run : Run) (unread : read? text = none)
    (not_null : value ≠ .null) (operation : Operation) :
    Command.reply run (operation.line text) =
      Reply.withMessage "Malformed request params".toList := by
  obtain ⟨document, read_document, decoded⟩ := exists_document read shallow
  have malformed : ¬ ∃ r, HeldBy value r := by
    rintro ⟨r, held⟩
    have found := (read?_eq_some_iff_heldBy read shallow code_once language_once).2 held
    rw [unread] at found
    cases found
  have written := operation.writtenIn_line read_document (.value decoded not_null)
  rw [Command.reply_of_writtenIn run written, Command.answer_of_malformed rfl run rfl malformed]
  exact Reply.sorted_problem _

end

theorem reply_line_null (run : Run) {text : Text}
    (read : Json.Document.read? text = some .null) (operation : Operation) :
    Command.reply run (operation.line text) = Reply.withMessage "Missing params".toList := by
  have written := operation.writtenIn_line read .null
  rw [Command.reply_of_writtenIn run written, Command.answer_of_missing rfl run rfl]
  exact Reply.sorted_problem _

/-- **The two readings of a request agree.**  Take a text that has a value, in which 126
containers are nested at most and no field of a request comes twice.  If a request is read
straight off the text, an operation with the text as its parameters is answered with the
response to that request.  If none is, the parameters count as missing when they are
`null`, and as malformed else.  The request depends on its two fields alone: members may
change places, others may come in, and the values of the fields may stand in an array, with
`null` in place of a missing field and none at the end. -/
theorem decoders_agree (run : Run) {text : Text} {value : Json}
    (has_value : Json.read? text = some value) (shallow : value.depth ≤ 126)
    (code_once : value.names.count codeField ≤ 1)
    (language_once : value.names.count languageField ≤ 1) :
    (∀ r, read? text = some r → ∀ operation : Operation,
      Command.reply run (operation.line text) =
        (Reply.ofResponse (operation.respond run r)).toJson.sorted) ∧
    (read? text = none → ∀ operation : Operation,
      (value = .null → Command.reply run (operation.line text) =
        Reply.withMessage "Missing params".toList) ∧
      (value ≠ .null → Command.reply run (operation.line text) =
        Reply.withMessage "Malformed request params".toList)) ∧
    (value = .null → read? text = none) ∧
    ∀ members, Json.Document.read? text = some (.object members) →
      (∀ other members' extra, Json.Document.read? other = some (.object members') →
        members'.Perm (members ++ extra) →
        (∀ member ∈ extra, ∃ name, Json.unescape? member.1 = some name ∧
          name ≠ codeField ∧ name ≠ languageField) →
        read? other = read? text) ∧
      ∃ code language, Json.Document.OnlyMember members codeField code ∧
        Json.Document.OnlyMember members languageField language ∧
        ∀ other items, Json.Document.read? other = some (.array items) → items.length ≤ 2 →
          items[0]?.getD .null = code.getD .null →
          items[1]?.getD .null = language.getD .null →
          read? other = read? text := by
  obtain ⟨document, read_document, decoded⟩ := exists_document has_value shallow
  refine ⟨?_, ?_, ?_, ?_⟩
  · intro r found operation
    exact reply_line_of_read? has_value shallow code_once language_once run found operation
  · intro unread operation
    refine ⟨?_, ?_⟩
    · rintro rfl
      have null : document = .null := by
        cases document <;> simp [Json.Document.decode?] at decoded ⊢
      exact reply_line_null run (null ▸ read_document) operation
    · intro not_null
      exact reply_line_of_not_read? has_value shallow code_once language_once run unread not_null
        operation
  · rintro rfl
    refine Option.eq_none_iff_forall_not_mem.2 fun r found => ?_
    exact nomatch (read?_eq_some_iff_heldBy has_value shallow code_once language_once).1 found
  · intro members read_members
    obtain rfl : document = .object members :=
      Option.some.inj (read_document.symm.trans read_members)
    refine ⟨?_, ?_⟩
    · intro other members' extra read_other perm others
      rw [read?_eq_ofDocument? read_other, read?_eq_ofDocument? read_members]
      exact ofDocument?_congr fun r => writtenAs_perm_append perm others
    · obtain ⟨values, rfl, related⟩ := Json.Document.exists_members_of_decode? decoded
      obtain ⟨code, code_only, -⟩ := Json.exists_onlyMember related code_once
      obtain ⟨language, language_only, -⟩ := Json.exists_onlyMember related language_once
      refine ⟨code, language, code_only, language_only, ?_⟩
      intro other items read_other short first second
      rw [read?_eq_ofDocument? read_other, read?_eq_ofDocument? read_members]
      exact ofDocument?_congr fun r =>
        writtenAs_array (Json.Document.named_of_forall₂ related) code_only language_only short
          first second

/-- Members in another order with one more among them, and the two texts in an array. -/
theorem decoders_agree_reordered :
    let r : Request := ⟨some "y = 2".toList, some "java".toList⟩
    let code := Json.string "y = 2".toList
    let language := Json.string "java".toList
    let reordered := Json.object
      [("x".toList, .array [.object []]), (languageField, language), (codeField, code)]
    (Json.read? r.toJson.write = some r.toJson ∧ r.toJson.depth ≤ 126 ∧
      r.toJson.names.count codeField ≤ 1 ∧ r.toJson.names.count languageField ≤ 1) ∧
    (∀ run, Command.reply run (Operation.visualize.line r.toJson.write) =
      (Reply.ofResponse (visualize run r)).toJson.sorted) ∧
    read? reordered.write = some r ∧ read? (Json.array [code, language]).write = some r := by
  intro r code language reordered
  have has_value : Json.read? r.toJson.write = some r.toJson :=
    Json.read?_write (r.readable_toJson 126)
  have read_members : Json.Document.read? r.toJson.write = some r.toJson.document :=
    Json.Document.read?_write (r.readable_toJson 126)
  have code_once : r.toJson.names.count codeField ≤ 1 := by decide
  have language_once : r.toJson.names.count languageField ≤ 1 := by decide
  have agree := fun run => decoders_agree run has_value (by decide) code_once language_once
  obtain ⟨-, -, -, depends⟩ := agree ⟨[], fun _ => 0, 0⟩
  obtain ⟨same, first, second, first_only, second_only, array⟩ := depends _ read_members
  have differ : codeField ≠ languageField := by decide
  have only := Json.Document.onlyMember_pair (Json.unescape?_escape codeField)
    (Json.unescape?_escape languageField) differ code.document language.document
  cases first_only.unique only.1
  cases second_only.unique only.2
  have strings (t : Text) (depth : Nat) : Json.Readable depth (.string t) := .string depth t
  refine ⟨⟨has_value, by decide, code_once, language_once⟩, ?_, ?_, ?_⟩
  · intro run
    exact (agree run).1 r r.read?_write .visualize
  · have readable : Json.Readable 3 reordered := by
      refine .object ?_
      simp only [List.forall_mem_cons]
      refine ⟨.array ?_, strings _ 2, strings _ 2, List.forall_mem_nil _⟩
      exact List.forall_mem_singleton.2 (.object (List.forall_mem_nil _))
    rw [← r.read?_write]
    refine same _ _ [(Json.escape "x".toList, .array [.object []])]
      (Json.Document.read?_write readable) ?_ ?_
    · exact List.reverse_perm [(Json.escape codeField, code.document),
        (Json.escape languageField, language.document),
        (Json.escape "x".toList, .array [.object []])]
    · exact List.forall_mem_singleton.2
        ⟨"x".toList, Json.unescape?_escape _, by decide, by decide⟩
  · have readable : Json.Readable 1 (.array [code, language]) := by
      refine .array ?_
      simp only [List.forall_mem_cons]
      exact ⟨strings _ 0, strings _ 0, List.forall_mem_nil _⟩
    rw [← r.read?_write]
    exact array _ [code.document, language.document] (Json.Document.read?_write readable)
      (Nat.le_refl 2) rfl rfl

end Request

end Walkthrough
