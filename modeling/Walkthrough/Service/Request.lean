import Walkthrough.Dictionary
import Walkthrough.Json
import Walkthrough.Language

/-!
# Requests

A request as it arrives has neither field for certain.  `Request.validate` gives the
snippet of a good one and a message for each field of a bad one.
-/

namespace Walkthrough

structure Request where
  code : Option Text
  language : Option Text
  deriving DecidableEq

/-- A request that passed validation. -/
structure Snippet where
  code : Text
  language : Language
  deriving DecidableEq

/-- A message for each field that failed. -/
abbrev FieldErrors := Dictionary Text

def FieldErrors.message (errors : FieldErrors) : Text :=
  let parts := errors.entries.map fun (field, message) => field ++ ['='] ++ message
  "Validation failed: \x7b".toList ++ Text.join ", ".toList parts ++ ['\x7d']

namespace Request

def codeField : Text := "code".toList

def languageField : Text := "language".toList

def toJson (r : Request) : Json :=
  .object [(codeField, .ofOption r.code), (languageField, .ofOption r.language)]

/-- The code, as given, unless it is absent or blank. -/
def checkCode (code : Option Text) : Except Text Text :=
  match code with
  | some t => if (Text.trim t).isEmpty then .error "Code cannot be blank".toList else .ok t
  | none => .error "Code cannot be blank".toList

def checkLanguage (language : Option Text) : Except Text Language :=
  match language.map Text.trim with
  | none | some [] => .error "Language cannot be null".toList
  | some id =>
    match Language.ofId? id with
    | some l => .ok l
    | none => .error (Language.invalidMessage id)

/-- The errors with one for the field, if its check failed. -/
def addFailure {α : Type} (field : Text) (check : Except Text α) (errors : FieldErrors) :
    FieldErrors :=
  match check with
  | .ok _ => errors
  | .error message => errors.insert field message

def validate (r : Request) : Except FieldErrors Snippet :=
  match checkCode r.code, checkLanguage r.language with
  | .ok code, .ok language => .ok ⟨code, language⟩
  | code, language =>
    .error (addFailure languageField language (addFailure codeField code .empty))

end Request
end Walkthrough
