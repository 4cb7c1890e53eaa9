import Walkthrough.Proofs.Dictionary
import Walkthrough.Proofs.Text.Case
import Walkthrough.Proofs.Text.Trim
import Walkthrough.Service.Request

/-!
# What validation accepts

A request passes with a code that is not blank and the name of a language, in small or
capital letters and between any blanks.  Each of the two checks is exact by itself
(`checkCode_eq_error_iff`, `checkLanguage_eq_error_iff`), and the errors of a request are
those of its fields (`validate_exact`).
-/

namespace Walkthrough

/-! ## The names of languages -/

namespace Language

/-- The names by which a request may ask for a language. -/
def names : List (String × Language) :=
  [("python", .python), ("java", .java), ("typescript", .typeScript), ("react", .react)]

/-- Between blanks the text is a name of the language, but for capitals among its letters.
Only the letters A to Z are changed by `Char.toLower`. -/
def IsNamedBy (l : Language) (t : Text) : Prop :=
  ∃ name, (name, l) ∈ names ∧ (Text.trim t).map Char.toLower = name.toList

theorem isNamedBy_iff {l : Language} {t : Text} :
    l.IsNamedBy t ↔ (Text.trim t).map Char.toLower = l.id := by
  constructor
  · rintro ⟨name, mem, spelled⟩
    simp only [names, List.mem_cons, Prod.mk.injEq, List.not_mem_nil, or_false] at mem
    rcases mem with ⟨rfl, rfl⟩ | ⟨rfl, rfl⟩ | ⟨rfl, rfl⟩ | ⟨rfl, rfl⟩ <;> exact spelled
  · intro spelled
    cases l with
    | python => exact ⟨"python", by simp [names], spelled⟩
    | java => exact ⟨"java", by simp [names], spelled⟩
    | typeScript => exact ⟨"typescript", by simp [names], spelled⟩
    | react => exact ⟨"react", by simp [names], spelled⟩

theorem isLower_range {c : Char} (h : c.isLower = true) : 97 ≤ c.toNat ∧ c.toNat ≤ 122 := by
  obtain ⟨first, last⟩ := Bool.and_eq_true_iff.1 h
  exact ⟨of_decide_eq_true first, of_decide_eq_true last⟩

theorem isAlpha_of_isLower_toLower {c : Char} (h : c.toLower.isLower = true) :
    c.isAlpha = true := by
  have cased : c.isAlpha = (c.isUpper || c.isLower) := rfl
  rw [cased]
  by_cases capital : c.val ≥ 'A'.val ∧ c.val ≤ 'Z'.val
  · have upper : c.isUpper = true := decide_eq_true capital
    rw [upper, Bool.true_or]
  · have kept : c.toLower = c := dif_neg capital
    rw [kept] at h
    rw [h, Bool.or_true]

theorem id_injective : Function.Injective id := by
  intro l l' same
  cases l <;> cases l' <;> first | rfl | cases same

theorem isLower_of_mem_id (l : Language) : ∀ c ∈ l.id, c.isLower = true ∧ c ≠ 'k' := by
  have all : (l.id.all fun c => c.isLower && c != 'k') = true := by cases l <;> decide
  simpa only [List.all_eq_true, Bool.and_eq_true, bne_iff_ne] using all

theorem isNamedBy_trim {l : Language} {t : Text} : l.IsNamedBy (Text.trim t) ↔ l.IsNamedBy t := by
  rw [isNamedBy_iff, isNamedBy_iff, (Text.trimmed_trim t).trim_eq]

theorem id_eq_lowerCase_iff {l : Language} {t : Text} :
    l.id = Text.lowerCase (Text.trim t) ↔ l.IsNamedBy t := by
  have ascii : ∀ c ∈ l.id, c.toNat < 128 := by
    intro c hc
    have range := isLower_range (l.isLower_of_mem_id c hc).1
    omega
  have no_k : 'k' ∉ l.id := fun mem => (l.isLower_of_mem_id _ mem).2 rfl
  rw [isNamedBy_iff, eq_comm, Text.lowerCase, List.flatMap_def]
  exact lowered_eq_iff (Text.forall₂_lowerCase _) ascii no_k

theorem isNamedBy_of_ofId? {l : Language} {t : Text} (h : ofId? t = some l) : l.IsNamedBy t := by
  unfold ofId? at h
  have same := List.find?_some h
  exact id_eq_lowerCase_iff.1 (of_decide_eq_true same)

/-- A language is found by its names and by no other text. -/
theorem ofId?_eq_some_iff {l : Language} {t : Text} : ofId? t = some l ↔ l.IsNamedBy t := by
  constructor
  · exact isNamedBy_of_ofId?
  · intro named
    have every : l ∈ all := by cases l <;> decide
    have some_language : (ofId? t).isSome = true :=
      List.find?_isSome.2 ⟨l, every, decide_eq_true (id_eq_lowerCase_iff.2 named)⟩
    obtain ⟨other, found⟩ := Option.isSome_iff_exists.1 some_language
    have same : other.id = l.id :=
      (id_eq_lowerCase_iff.2 (isNamedBy_of_ofId? found)).trans (id_eq_lowerCase_iff.2 named).symm
    rw [found, id_injective same]

theorem IsNamedBy.trim_ne_nil {l : Language} {t : Text} (h : l.IsNamedBy t) :
    Text.trim t ≠ [] := by
  rw [isNamedBy_iff] at h
  intro empty
  rw [empty] at h
  cases l <;> cases h

theorem IsNamedBy.isAlpha {l : Language} {t : Text} (h : l.IsNamedBy t) :
    ∀ c ∈ Text.trim t, c.isAlpha = true := by
  intro c hc
  rw [isNamedBy_iff] at h
  have mem : c.toLower ∈ l.id := h ▸ List.mem_map_of_mem hc
  exact isAlpha_of_isLower_toLower (l.isLower_of_mem_id _ mem).1

end Language

/-! ## The two checks -/

namespace Request

/-- The field is absent, or has nothing but blanks. -/
def IsMissing (field : Option Text) : Prop := ∀ t, field = some t → ∀ c ∈ t, isBlank c = true

/-- What is wrong with a code, as a message. -/
inductive CodeFault (code : Option Text) : Text → Prop where
  | missing (h : IsMissing code) : CodeFault code "Code cannot be blank".toList

/-- What is wrong with the id of a language, as a message. -/
inductive LanguageFault (language : Option Text) : Text → Prop where
  | missing (h : IsMissing language) : LanguageFault language "Language cannot be null".toList
  | unknown {t : Text} (given : language = some t) (full : ∃ c ∈ t, isBlank c = false)
      (unnamed : ∀ l, ¬ Language.IsNamedBy l t) :
      LanguageFault language ("Invalid language value: ".toList ++ Text.trim t)

/-- A field that fails, with what is wrong with it.  No field has a say in another's fault. -/
inductive Fault (r : Request) : Text → Text → Prop where
  | code {message : Text} (h : CodeFault r.code message) : Fault r "code".toList message
  | language {message : Text} (h : LanguageFault r.language message) :
      Fault r "language".toList message

theorem isMissing_some_iff {t : Text} : IsMissing (some t) ↔ Text.trim t = [] := by
  rw [Text.trim_eq_nil_iff]
  constructor
  · intro missing
    exact missing t rfl
  · intro blanks s given
    exact Option.some.inj given ▸ blanks

theorem isMissing_none : IsMissing none := by
  intro t given
  cases given

theorem exists_not_blank_iff {t : Text} : (∃ c ∈ t, isBlank c = false) ↔ Text.trim t ≠ [] := by
  rw [ne_eq, Text.trim_eq_nil_iff]
  simp

theorem checkCode_of_blank {t : Text} (h : Text.trim t = []) :
    checkCode (some t) = .error "Code cannot be blank".toList := by
  simp [checkCode, h]

theorem checkCode_of_full {t : Text} (h : Text.trim t ≠ []) : checkCode (some t) = .ok t := by
  simp [checkCode, h]

theorem checkCode_eq_ok_iff {code : Option Text} {t : Text} :
    checkCode code = .ok t ↔ code = some t ∧ ∃ c ∈ t, isBlank c = false := by
  rw [exists_not_blank_iff]
  constructor
  · intro h
    cases code with
    | none => cases h
    | some s =>
      by_cases blank : Text.trim s = []
      · rw [checkCode_of_blank blank] at h
        cases h
      · rw [checkCode_of_full blank] at h
        cases h
        exact ⟨rfl, blank⟩
  · rintro ⟨rfl, full⟩
    exact checkCode_of_full full

theorem checkCode_eq_error_iff {code : Option Text} {message : Text} :
    checkCode code = .error message ↔ CodeFault code message := by
  constructor
  · intro h
    cases code with
    | none =>
      cases h
      exact .missing isMissing_none
    | some t =>
      by_cases blank : Text.trim t = []
      · rw [checkCode_of_blank blank] at h
        cases h
        exact .missing (isMissing_some_iff.2 blank)
      · rw [checkCode_of_full blank] at h
        cases h
  · rintro ⟨missing⟩
    cases code with
    | none => rfl
    | some t => exact checkCode_of_blank (isMissing_some_iff.1 missing)

theorem checkLanguage_of_blank {t : Text} (h : Text.trim t = []) :
    checkLanguage (some t) = .error "Language cannot be null".toList := by
  simp only [checkLanguage, Option.map_some, h]

theorem checkLanguage_of_known {t : Text} {l : Language} (full : Text.trim t ≠ [])
    (known : Language.ofId? (Text.trim t) = some l) : checkLanguage (some t) = .ok l := by
  obtain ⟨c, rest, starts⟩ := List.exists_cons_of_ne_nil full
  rw [starts] at known
  simp only [checkLanguage, Option.map_some, starts, known]

theorem checkLanguage_of_unknown {t : Text} (full : Text.trim t ≠ [])
    (unknown : Language.ofId? (Text.trim t) = none) :
    checkLanguage (some t) = .error (Language.invalidMessage (Text.trim t)) := by
  obtain ⟨c, rest, starts⟩ := List.exists_cons_of_ne_nil full
  rw [starts] at unknown
  simp only [checkLanguage, Option.map_some, starts, unknown]

theorem checkLanguage_eq_ok_iff {language : Option Text} {l : Language} :
    checkLanguage language = .ok l ↔ ∃ t, language = some t ∧ l.IsNamedBy t := by
  constructor
  · intro h
    cases language with
    | none => cases h
    | some t =>
      refine ⟨t, rfl, ?_⟩
      by_cases blank : Text.trim t = []
      · rw [checkLanguage_of_blank blank] at h
        cases h
      · cases found : Language.ofId? (Text.trim t) with
        | none =>
          rw [checkLanguage_of_unknown blank found] at h
          cases h
        | some known =>
          rw [checkLanguage_of_known blank found] at h
          cases h
          exact Language.isNamedBy_trim.1 (Language.ofId?_eq_some_iff.1 found)
  · rintro ⟨t, rfl, named⟩
    apply checkLanguage_of_known named.trim_ne_nil
    exact Language.ofId?_eq_some_iff.2 (Language.isNamedBy_trim.2 named)

theorem checkLanguage_eq_error_iff {language : Option Text} {message : Text} :
    checkLanguage language = .error message ↔ LanguageFault language message := by
  constructor
  · intro h
    cases language with
    | none =>
      cases h
      exact .missing isMissing_none
    | some t =>
      by_cases blank : Text.trim t = []
      · rw [checkLanguage_of_blank blank] at h
        cases h
        exact .missing (isMissing_some_iff.2 blank)
      · cases found : Language.ofId? (Text.trim t) with
        | some known =>
          rw [checkLanguage_of_known blank found] at h
          cases h
        | none =>
          rw [checkLanguage_of_unknown blank found] at h
          cases h
          refine .unknown rfl (exists_not_blank_iff.2 blank) ?_
          intro l named
          rw [Language.ofId?_eq_some_iff.2 (Language.isNamedBy_trim.2 named)] at found
          cases found
  · intro h
    cases h with
    | missing missing =>
      cases language with
      | none => rfl
      | some t => exact checkLanguage_of_blank (isMissing_some_iff.1 missing)
    | @unknown t given full unnamed =>
      subst given
      have unknown : Language.ofId? (Text.trim t) = none := by
        apply Option.eq_none_iff_forall_ne_some.2
        intro l found
        exact unnamed l (Language.isNamedBy_trim.1 (Language.ofId?_eq_some_iff.1 found))
      exact checkLanguage_of_unknown (exists_not_blank_iff.1 full) unknown

/-! ## The errors of a request -/

theorem fault_iff {r : Request} {field message : Text} :
    r.Fault field message ↔
      (field = codeField ∧ checkCode r.code = .error message) ∨
        (field = languageField ∧ checkLanguage r.language = .error message) := by
  rw [checkCode_eq_error_iff, checkLanguage_eq_error_iff]
  constructor
  · intro h
    cases h with
    | code h => exact .inl ⟨rfl, h⟩
    | language h => exact .inr ⟨rfl, h⟩
  · rintro (⟨rfl, h⟩ | ⟨rfl, h⟩)
    · exact .code h
    · exact .language h

theorem get?_addFailure {α : Type} (field : Text) (check : Except Text α) (errors : FieldErrors)
    (name message : Text) (absent : errors.get? field = none) :
    (addFailure field check errors).get? name = some message ↔
      errors.get? name = some message ∨ (name = field ∧ check = .error message) := by
  cases check with
  | ok x => simp [addFailure]
  | error other =>
    rw [addFailure, Dictionary.get?_insert]
    by_cases same : name = field
    · subst same
      simp [absent]
    · simp [same]

theorem not_fault_of_ok {r : Request} {snippet : Snippet}
    (code : checkCode r.code = .ok snippet.code)
    (language : checkLanguage r.language = .ok snippet.language) (field message : Text) :
    ¬ r.Fault field message := by
  rw [fault_iff, code, language]
  rintro (⟨-, failed⟩ | ⟨-, failed⟩) <;> cases failed

/-- The errors of the fields that fail. -/
def failures (r : Request) : FieldErrors :=
  addFailure languageField (checkLanguage r.language)
    (addFailure codeField (checkCode r.code) .empty)

theorem get?_failures_eq_some_iff {r : Request} {field message : Text} :
    r.failures.get? field = some message ↔ r.Fault field message := by
  have nothing (name : Text) : (Dictionary.empty : FieldErrors).get? name = none := rfl
  have absent : (addFailure codeField (checkCode r.code) .empty).get? languageField = none := by
    apply Option.eq_none_iff_forall_ne_some.2
    intro other found
    rw [get?_addFailure _ _ _ _ _ (nothing _), nothing] at found
    rcases found with found | ⟨same, -⟩
    · cases found
    · exact absurd same (by decide)
  rw [failures, get?_addFailure _ _ _ _ _ absent, get?_addFailure _ _ _ _ _ (nothing _), nothing,
    fault_iff]
  simp

theorem validate_cases (r : Request) :
    (∃ snippet, r.validate = .ok snippet ∧ checkCode r.code = .ok snippet.code ∧
      checkLanguage r.language = .ok snippet.language) ∨
    (r.validate = .error r.failures ∧ ∃ field message, r.Fault field message) := by
  simp only [fault_iff, validate, failures]
  cases checkCode r.code with
  | error message => exact .inr ⟨rfl, codeField, message, .inl ⟨rfl, rfl⟩⟩
  | ok code =>
    cases checkLanguage r.language with
    | error message => exact .inr ⟨rfl, languageField, message, .inr ⟨rfl, rfl⟩⟩
    | ok language => exact .inl ⟨⟨code, language⟩, rfl, rfl, rfl⟩

theorem validate_eq_ok_iff {r : Request} {snippet : Snippet} :
    r.validate = .ok snippet ↔
      checkCode r.code = .ok snippet.code ∧ checkLanguage r.language = .ok snippet.language := by
  rcases r.validate_cases with ⟨other, valid, code, language⟩ | ⟨invalid, field, message, fault⟩
  · rw [valid, code, language]
    obtain ⟨code, language⟩ := snippet
    obtain ⟨code', language'⟩ := other
    simp
  · rw [invalid]
    constructor
    · intro h
      cases h
    · rintro ⟨code, language⟩
      exact absurd fault (not_fault_of_ok code language field message)

/-- A request has the errors of the fields that fail, if there are any. -/
theorem validate_eq_error_iff {r : Request} {errors : FieldErrors} :
    r.validate = .error errors ↔ errors = r.failures ∧ ∃ field message, r.Fault field message := by
  rcases r.validate_cases with ⟨snippet, valid, code, language⟩ | ⟨invalid, fault⟩
  · rw [valid]
    constructor
    · intro h
      cases h
    · rintro ⟨-, field, message, fault⟩
      exact absurd fault (not_fault_of_ok code language field message)
  · rw [invalid]
    simp [fault, eq_comm]

/-- **Validation is exact.**  A request passes exactly if its code has a character that is no
blank and its language goes by that name; the code is kept as it is.  Otherwise it has an
error for each field that fails, with the message that the field alone decides, and no
others.  Only letters of ASCII spell the name of a language. -/
theorem validate_exact (r : Request) :
    (∀ snippet, r.validate = .ok snippet ↔
      (r.code = some snippet.code ∧ ∃ c ∈ snippet.code, isBlank c = false) ∧
        ∃ t, r.language = some t ∧ snippet.language.IsNamedBy t) ∧
    (∀ errors, r.validate = .error errors ↔
      errors.entries ≠ [] ∧
        ∀ field message, errors.get? field = some message ↔ r.Fault field message) ∧
    ∀ (l : Language) (t : Text), l.IsNamedBy t → ∀ c ∈ Text.trim t, c.isAlpha = true := by
  refine ⟨?_, ?_, fun l t named => named.isAlpha⟩
  · intro snippet
    rw [validate_eq_ok_iff, checkCode_eq_ok_iff, checkLanguage_eq_ok_iff]
  · intro errors
    rw [validate_eq_error_iff]
    constructor
    · rintro ⟨rfl, field, message, fault⟩
      refine ⟨?_, fun field message => get?_failures_eq_some_iff⟩
      intro empty
      have found := Dictionary.mem_entries_of_get? (get?_failures_eq_some_iff.2 fault)
      rw [empty] at found
      cases found
    · rintro ⟨nonempty, found⟩
      have same : errors = r.failures := by
        apply Dictionary.ext_get?
        intro field
        apply Option.ext
        intro message
        rw [found, get?_failures_eq_some_iff]
      obtain ⟨⟨field, message⟩, mem⟩ := List.exists_mem_of_ne_nil _ nonempty
      have stands : errors.get? field = some message :=
        (lookup_eq_some_iff_mem errors.names_nodup).2 mem
      exact ⟨same, field, message, (found field message).1 stands⟩

/-- Both fields fail: an ideographic space is a blank, and the capital I with dot above is no
capital of `i`. -/
example : (match validate ⟨some "\u3000".toList, some " TYPESCR\u0130PT".toList⟩ with
    | .ok _ => []
    | .error errors => errors.entries) =
    [("code".toList, "Code cannot be blank".toList),
      ("language".toList, "Invalid language value: TYPESCR\u0130PT".toList)] := by
  decide

end Request
end Walkthrough
