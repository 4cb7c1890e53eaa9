import Walkthrough.Proofs.Dictionary
import Walkthrough.Proofs.Text.ByteOrder
import Walkthrough.Service.Request

/-!
# Errors reported one after another

A report puts a message under a field, in place of the one that stood there; errors are what a
sequence of reports comes to, `Dictionary.ofList`.  They have the last message for each field
(`get?_ofList_eq_some_iff`), and their text has the fields by increasing bytes (`collects_ofList`).
So the order of the reports has no say beyond that: `collected_in_any_order`.
-/

namespace Walkthrough.FieldErrors

variable {reports reports' : List (Text × Text)} {field message : Text}

/-- The message is the last one that was reported for the field. -/
def LastReport (reports : List (Text × Text)) (field message : Text) : Prop :=
  ∃ earlier later, reports = earlier ++ (field, message) :: later ∧
    ∀ report ∈ later, report.1 ≠ field

/-- The text has the fields in the order of the entries, each with its message, and a comma and
a space between any two of them. -/
inductive Enumerates : List (Text × Text) → Text → Prop
  | nil : Enumerates [] []
  | single (field message : Text) :
      Enumerates [(field, message)] (field ++ "=".toList ++ message)
  | cons (field message : Text) {next : Text × Text} {rest : List (Text × Text)} {t : Text}
      (behind : Enumerates (next :: rest) t) :
      Enumerates ((field, message) :: next :: rest)
        (field ++ "=".toList ++ message ++ ", ".toList ++ t)

/-- The errors are what the reports come to. -/
structure Collects (reports : List (Text × Text)) (errors : FieldErrors) : Prop where
  isEmpty_iff : errors.isEmpty = true ↔ reports = []
  once : errors.names.Nodup
  reported : ∀ field, field ∈ errors.names ↔ ∃ message, (field, message) ∈ reports
  last : ∀ field message, (field, message) ∈ errors.entries ↔ LastReport reports field message
  increasing : errors.names.Pairwise Text.BytesPrecede
  text : ∃ listed, Enumerates errors.entries listed ∧
    errors.message = "Validation failed: \x7b".toList ++ listed ++ "\x7d".toList

/-! ## The last message for a field -/

theorem lastReport_iff_lookup :
    LastReport reports field message ↔ reports.reverse.lookup field = some message := by
  rw [List.lookup_eq_some_iff]
  constructor
  · rintro ⟨earlier, later, split, others⟩
    refine ⟨later.reverse, earlier.reverse, by simp [split], ?_⟩
    intro report mem
    rw [bne_iff_ne]
    exact (others report (List.mem_reverse.1 mem)).symm
  · rintro ⟨later, earlier, split, others⟩
    refine ⟨earlier.reverse, later.reverse, ?_, ?_⟩
    · rw [← List.reverse_reverse reports, split]
      simp
    · intro report mem
      exact (bne_iff_ne.1 (others report (List.mem_reverse.1 mem))).symm

theorem get?_ofList_eq_some_iff :
    (Dictionary.ofList reports).get? field = some message ↔ LastReport reports field message := by
  rw [Dictionary.get?_ofList, lastReport_iff_lookup]

theorem lastReport_iff_mem (distinct : (reports.map Prod.fst).Nodup) :
    LastReport reports field message ↔ (field, message) ∈ reports := by
  rw [lastReport_iff_lookup, lookup_reverse distinct, lookup_eq_some_iff_mem distinct]

/-! ## Errors and their text -/

theorem enumerates_join (entries : List (Text × Text)) :
    Enumerates entries
      (Text.join ", ".toList (entries.map fun (field, message) => field ++ ['='] ++ message)) := by
  induction entries with
  | nil => exact .nil
  | cons entry rest ih =>
    obtain ⟨field, message⟩ := entry
    cases rest with
    | nil =>
      rw [List.map_singleton, Text.join, List.intercalate_singleton]
      exact .single field message
    | cons next rest =>
      rw [List.map_cons, List.map_cons, Text.join, List.intercalate_cons_cons]
      exact .cons field message ih

theorem collects_ofList (reports : List (Text × Text)) : Collects reports (.ofList reports) where
  isEmpty_iff := Dictionary.isEmpty_ofList_iff
  once := Dictionary.names_nodup _
  reported field := by
    rw [Dictionary.mem_names_ofList, List.mem_map]
    constructor
    · rintro ⟨⟨other, message⟩, mem, rfl⟩
      exact ⟨message, mem⟩
    · rintro ⟨message, mem⟩
      exact ⟨(field, message), mem, rfl⟩
  last field message := by
    rw [← get?_ofList_eq_some_iff]
    exact (lookup_eq_some_iff_mem (Dictionary.names_nodup _)).symm
  increasing := (Dictionary.ofList reports).increasing.imp Text.precedes_iff_bytes.1
  text := ⟨_, enumerates_join _, rfl⟩

/-! ## The order of reports -/

theorem ofList_congr
    (same : ∀ field message, LastReport reports field message ↔ LastReport reports' field message) :
    Dictionary.ofList reports = Dictionary.ofList reports' := by
  apply Dictionary.ext_get?
  intro field
  apply Option.ext
  intro message
  rw [get?_ofList_eq_some_iff, get?_ofList_eq_some_iff, same]

theorem ofList_perm (reordered : reports.Perm reports') (distinct : (reports.map Prod.fst).Nodup) :
    Dictionary.ofList reports = Dictionary.ofList reports' := by
  have distinct' : (reports'.map Prod.fst).Nodup := (reordered.map Prod.fst).nodup_iff.1 distinct
  apply ofList_congr
  intro field message
  rw [lastReport_iff_mem distinct, lastReport_iff_mem distinct', reordered.mem_iff]

theorem ofList_exchange {first second : Text × Text} (differ : first.1 ≠ second.1)
    (earlier later : List (Text × Text)) :
    Dictionary.ofList (earlier ++ first :: second :: later) =
      Dictionary.ofList (earlier ++ second :: first :: later) := by
  simp only [Dictionary.ofList, List.foldl_append, List.foldl_cons,
    Dictionary.insert_comm _ differ]

/-- Both sequences come to the same errors with the same text. -/
def Agree (reports reports' : List (Text × Text)) : Prop :=
  Dictionary.ofList reports = Dictionary.ofList reports' ∧
    FieldErrors.message (.ofList reports) = FieldErrors.message (.ofList reports')

theorem Agree.of_eq (h : Dictionary.ofList reports = Dictionary.ofList reports') :
    Agree reports reports' :=
  ⟨h, congrArg FieldErrors.message h⟩

/-- **Errors do not depend on the order of reporting.**  What a sequence of reports comes to has
each field once, with its last message, and tells the fields by increasing bytes.  Two sequences
with the same last message for every field come to the same errors with the same text: reports
for distinct fields in any order, and next to each other within any sequence. -/
theorem collected_in_any_order :
    (∀ reports : List (Text × Text), Collects reports (.ofList reports)) ∧
    (∀ reports reports' : List (Text × Text),
      (∀ field message, LastReport reports field message ↔ LastReport reports' field message) →
        Agree reports reports') ∧
    (∀ reports reports' : List (Text × Text),
      reports.Perm reports' → (reports.map Prod.fst).Nodup → Agree reports reports') ∧
    ∀ (earlier later : List (Text × Text)) (first second : Text × Text), first.1 ≠ second.1 →
      Agree (earlier ++ first :: second :: later) (earlier ++ second :: first :: later) := by
  refine ⟨collects_ofList, ?_, ?_, ?_⟩
  · intro reports reports' same
    exact .of_eq (ofList_congr same)
  · intro reports reports' reordered distinct
    exact .of_eq (ofList_perm reordered distinct)
  · intro earlier later first second differ
    exact .of_eq (ofList_exchange differ earlier later)

/-- The message on the language was reported first, and comes last. -/
theorem collected_in_any_order_request :
    Request.languageField ≠ Request.codeField ∧
      Agree [(Request.languageField, "Language cannot be null".toList),
          (Request.codeField, "Code cannot be blank".toList)]
        [(Request.codeField, "Code cannot be blank".toList),
          (Request.languageField, "Language cannot be null".toList)] :=
  ⟨by decide, collected_in_any_order.2.2.1 _ _ (.swap _ _ []) (by decide)⟩

/-- A field that was reported twice has its last message, and `z` comes before `é`. -/
example : FieldErrors.message (.ofList [("é".toList, ['1']), (['z'], ['2']), ("é".toList, ['3'])]) =
    "Validation failed: \x7bz=2, é=3\x7d".toList := by
  decide

end Walkthrough.FieldErrors
