import Walkthrough.Proofs.Json.Reading
import Walkthrough.Service.Decoding

/-!
# Requests read back

A request comes back from what is written of it: off the document (`read?_write`) and off
the value (`ofJson?_toJson`).  Records of two fields are written and read as
`Json.write_pair` and `Json.Document.fields?_pair` say.
-/

namespace Walkthrough

/-! ## Records of two fields -/

namespace Json

theorem Readable.pair {depth : Nat} {x y : Json} (hx : Readable depth x) (hy : Readable depth y)
    (first second : Text) : Readable (depth + 1) (.object [(first, x), (second, y)]) := by
  apply Readable.object
  intro member h
  simp only [List.mem_cons, List.not_mem_nil, or_false] at h
  rcases h with rfl | rfl
  · exact hx
  · exact hy

theorem write_pair {first second t : Text} (plain_first : escape first = first)
    (plain_t : escape t = t) (plain_second : escape second = second) (j : Json) :
    (Json.object [(first, .string t), (second, j)]).write =
      (['\x7b', '"'] ++ first ++ ['"', ':', '"']) ++ t ++
        (['"', ',', '"'] ++ second ++ ['"', ':']) ++ j.write ++ ['\x7d'] := by
  simp [write, tokens, memberTokens, List.intercalate_cons_cons, List.intercalate_singleton,
    Token.text, plain_first, plain_t, plain_second]

namespace Document

theorem mapM_readName? (members : List (Text × Json)) :
    (members.map fun (name, value) => (escape name, value.document)).mapM readName? =
      some (members.map fun (name, value) => (name, value.document)) := by
  induction members with
  | nil => rfl
  | cons member members ih =>
    have name : readName? (escape member.1, member.2.document) =
        some (member.1, member.2.document) := by
      rw [readName?, unescape?_escape]
      rfl
    rw [List.map_cons, List.mapM_cons, name, ih]
    rfl

theorem fields?_pair {first second : Text} (h : first ≠ second) (x y : Json) :
    (Json.object [(first, x), (second, y)]).document.fields? first second =
      some (some x.document, some y.document) := by
  rw [document, memberDocuments_eq_map, fields?, mapM_readName?]
  simp [onlyMember?, h, h.symm]

end Document
end Json

/-! ## Requests as they are written -/

namespace Request

theorem readable_toJson (r : Request) (depth : Nat) : Json.Readable (depth + 1) r.toJson := by
  have field : ∀ t : Option Text, Json.Readable depth (.ofOption t) := by
    intro t
    cases t with
    | none => exact .null depth
    | some t => exact .string depth t
  exact (field r.code).pair (field r.language) codeField languageField

theorem optionalText?_ofOption (t : Option Text) :
    Json.optionalText? (some (.ofOption t)) = some t := by
  cases t <;> rfl

theorem optionalText?_document (t : Option Text) :
    Json.Document.optionalText? (some (Json.ofOption t).document) = some t := by
  cases t with
  | none => rfl
  | some t =>
    have read : (Json.ofOption (some t)).document.text? = some t := Json.unescape?_escape t
    exact congrArg (Option.map some) read

theorem ofJson?_toJson (r : Request) : ofJson? r.toJson = some r := by
  have code : Json.lastMember? codeField
      [(codeField, .ofOption r.code), (languageField, .ofOption r.language)] =
        some (.ofOption r.code) := rfl
  have language : Json.lastMember? languageField
      [(codeField, .ofOption r.code), (languageField, .ofOption r.language)] =
        some (.ofOption r.language) := rfl
  rw [toJson, ofJson?, code, language, ofFields?, optionalText?_ofOption, optionalText?_ofOption]
  rfl

theorem read?_write (r : Request) : read? r.toJson.write = some r := by
  have differ : codeField ≠ languageField := by decide
  rw [read?, Json.Document.read?_write (readable_toJson r 0), toJson]
  simp only [ofDocument?, Json.Document.fields?_pair differ, Option.bind_eq_bind, Option.bind_some,
    optionalText?_document]
  rfl

end Request

end Walkthrough
