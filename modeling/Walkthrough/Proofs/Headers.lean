import Walkthrough.Line.Header
import Walkthrough.Proofs.Rosters
import Walkthrough.Proofs.Text.Fields

/-!
# Headers are read back

The name of a function and the names of its parameters are looked for independently of each
other: behind the first keyword, and between the first parentheses.  `Header.Written` is a
header as it may be written, with anything behind the names of the parameters that does not
end them (`Parameter.ending`) and anything behind the header, and `read_written` reads it back.
-/

namespace Walkthrough.Line.Header

/-! ## Parameters -/

/-- The name of a parameter ends at a colon or a blank. -/
def endsParameter (c : Char) : Bool := c = ':' || isBlank c

/-- A parameter as it is written: its name, with blanks before it, and behind it nothing or
a text that starts with a colon or a blank. -/
structure Parameter where
  blanks : Text
  name : Text
  ending : Text
  blanks_blank : ∀ c ∈ blanks, isBlank c = true
  name_ne_nil : name ≠ []
  name_inside : ∀ c ∈ name, endsParameter c = false
  ending_head : ∀ c ∈ ending.head?, endsParameter c = true
  name_free : ',' ∉ name ∧ ')' ∉ name
  ending_free : ',' ∉ ending ∧ ')' ∉ ending

namespace Parameter

def text (p : Parameter) : Text := p.blanks ++ (p.name ++ p.ending)

/-- More blanks before a parameter are a part of it. -/
def pad (p : Parameter) (more : Text) (h : ∀ c ∈ more, isBlank c = true) : Parameter :=
  { p with
    blanks := more ++ p.blanks
    blanks_blank := List.forall_mem_append.2 ⟨h, p.blanks_blank⟩ }

theorem text_pad (p : Parameter) {more : Text} (h : ∀ c ∈ more, isBlank c = true) :
    (p.pad more h).text = more ++ p.text :=
  List.append_assoc _ _ _

theorem not_mem_of_blanks {t : Text} (h : ∀ c ∈ t, isBlank c = true) : ',' ∉ t ∧ ')' ∉ t := by
  constructor
  · intro mem
    cases h _ mem
  · intro mem
    cases h _ mem

theorem text_free (p : Parameter) : ',' ∉ p.text ∧ ')' ∉ p.text := by
  obtain ⟨comma, closing⟩ := not_mem_of_blanks p.blanks_blank
  simp only [text, List.mem_append, not_or]
  exact ⟨⟨comma, p.name_free.1, p.ending_free.1⟩, ⟨closing, p.name_free.2, p.ending_free.2⟩⟩

theorem parameterName_trim (p : Parameter) : parameterName (Text.trim p.text) = p.name := by
  have blanks : ∀ c, isBlank c = true → endsParameter c = true := by
    intro c hc
    simp [endsParameter, hc]
  rw [text, Text.trim_blanks_append p.blanks_blank]
  exact Text.upTo_trim_append blanks p.name_ne_nil p.name_inside p.ending_head

theorem trim_text_ne_nil (p : Parameter) : Text.trim p.text ≠ [] := by
  intro empty
  apply p.name_ne_nil
  rw [← p.parameterName_trim, empty]
  rfl

/-- Parameters with commas between them come back in their order. -/
theorem names_join {parameters : List Parameter} (hne : parameters ≠ []) :
    ((((Text.join [','] (parameters.map text)).splitOn ',').map Text.trim).filter
      (!·.isEmpty)).map parameterName = parameters.map name := by
  have free : ∀ t ∈ parameters.map text, ',' ∉ t := by
    intro t ht inside
    obtain ⟨p, -, rfl⟩ := List.mem_map.1 ht
    exact p.text_free.1 inside
  have full : ∀ t ∈ parameters.map (Text.trim ∘ text), (!t.isEmpty) = true := by
    intro t ht
    obtain ⟨p, -, rfl⟩ := List.mem_map.1 ht
    simpa using p.trim_text_ne_nil
  rw [Text.join, List.splitOn_intercalate ',' free (mt List.map_eq_nil_iff.1 hne), List.map_map,
    List.filter_eq_self.2 full, List.map_map]
  apply List.map_congr_left
  intro p _
  exact p.parameterName_trim

end Parameter

/-! ## Headers -/

/-- The name of a function ends at an opening parenthesis or a blank. -/
def endsName (c : Char) : Bool := c = '(' || isBlank c

/-- A header as it is written, but for its keyword.  There may be blanks between the
parentheses also if there are no parameters. -/
structure Written where
  before : Text
  name : Text
  padding : Text
  parameters : List Parameter
  after : Text
  before_def : ¬ "def ".toList <:+: before
  before_function : ¬ "function ".toList <:+: before
  before_free : '(' ∉ before ∧ ')' ∉ before
  name_ne_nil : name ≠ []
  name_inside : ∀ c ∈ name, endsName c = false
  name_free : ')' ∉ name
  padding_blank : ∀ c ∈ padding, isBlank c = true

namespace Written

def inner (w : Written) : Text :=
  w.padding ++ Text.join [','] (w.parameters.map Parameter.text)

/-- What follows the keyword. -/
def behind (w : Written) : Text := w.name ++ '(' :: (w.inner ++ ')' :: w.after)

def line (w : Written) (keyword : String) : Text := w.before ++ keyword.toList ++ w.behind

theorem upTo_trim_behind (w : Written) : Text.upTo endsName (Text.trim w.behind) = w.name := by
  have blanks : ∀ c, isBlank c = true → endsName c = true := by
    intro c hc
    simp [endsName, hc]
  apply Text.upTo_trim_append blanks w.name_ne_nil w.name_inside
  intro c hc
  rw [← Option.some.inj hc]
  rfl

theorem inner_free (w : Written) : ')' ∉ w.inner := by
  intro inside
  rcases List.mem_append.1 inside with blank | parameter
  · exact (Parameter.not_mem_of_blanks w.padding_blank).2 blank
  · refine Text.not_mem_join (by decide) ?_ parameter
    intro t ht mem
    obtain ⟨p, -, rfl⟩ := List.mem_map.1 ht
    exact p.text_free.2 mem

section
variable (w : Written) {keyword : String}

/-- The parentheses that are found are those around the parameters. -/
theorem parameterText?_line (plain : '(' ∉ keyword.toList ∧ ')' ∉ keyword.toList) :
    parameterText? (w.line keyword) = some w.inner := by
  have no_opening : '(' ∉ w.before ++ keyword.toList ++ w.name := by
    simp only [List.mem_append, not_or]
    refine ⟨⟨w.before_free.1, plain.1⟩, ?_⟩
    intro mem
    cases w.name_inside _ mem
  have no_closing : ')' ∉ w.before ++ keyword.toList ++ w.name := by
    simp only [List.mem_append, not_or]
    exact ⟨⟨w.before_free.2, plain.2⟩, w.name_free⟩
  have split : w.line keyword =
      (w.before ++ keyword.toList ++ w.name) ++ '(' :: (w.inner ++ ')' :: w.after) := by
    rw [line, behind, List.append_assoc _ w.name]
  rw [parameterText?, split, Text.cut?_singleton _ _ no_opening]
  simp only [List.contains_eq_mem, no_closing, decide_false, Bool.false_eq_true, if_false,
    Text.cut?_singleton _ _ w.inner_free, Option.map_some]

theorem parameterNames_line (plain : '(' ∉ keyword.toList ∧ ')' ∉ keyword.toList) :
    parameterNames (w.line keyword) = w.parameters.map Parameter.name := by
  rw [parameterNames, w.parameterText?_line plain]
  cases written : w.parameters with
  | nil =>
    have blank : w.inner = w.padding := by
      rw [inner, written]
      exact List.append_nil _
    have no_comma : ∀ c ∈ w.inner, (c == ',') = false := by
      intro c hc
      rw [blank] at hc
      rw [beq_eq_false_iff_ne]
      exact ne_of_mem_of_not_mem hc (Parameter.not_mem_of_blanks w.padding_blank).1
    have nothing : Text.trim w.inner = [] := by
      rw [blank]
      exact Text.trim_eq_nil_iff.2 w.padding_blank
    simp [namesIn, List.splitOn_eq_splitOnP, List.splitOnP_eq_singleton no_comma, nothing]
  | cons p rest =>
    -- the padding goes to the blanks before the first parameter
    have padded : w.inner =
        Text.join [','] ((p.pad w.padding w.padding_blank :: rest).map Parameter.text) := by
      rw [inner, written, List.map_cons, List.map_cons, p.text_pad w.padding_blank,
        Text.append_join_cons]
    simp only [namesIn, padded, Parameter.names_join (List.cons_ne_nil _ _)]
    rfl

theorem nameAfter?_line {c : Char} {letters : Text} (split : keyword.toList = c :: letters)
    (once : c ∉ letters) (free : ¬ keyword.toList <:+: w.before) :
    nameAfter? keyword (w.line keyword) = some w.name := by
  rw [split] at free
  rw [nameAfter?, line, split, Text.cut?_append once free, Option.map_some]
  exact congrArg some w.upTo_trim_behind

end

/-- A header is read back: the name of the function, and the names of its parameters where
each occurs first, which have no values yet.  The keyword `def` is looked for before the
keyword `function`. -/
theorem read_written (w : Written) (keyword : String)
    (h : keyword = "def " ∨ keyword = "function " ∧ ¬ "def ".toList <:+: w.line keyword) :
    (read (w.line keyword)).name = w.name ∧
      (read (w.line keyword)).parameters.entries =
        (w.parameters.map Parameter.name).eraseDups.map fun name => (name, .placeholder) := by
  have plain : '(' ∉ keyword.toList ∧ ')' ∉ keyword.toList := by
    rcases h with rfl | ⟨rfl, -⟩ <;> decide
  constructor
  · rcases h with rfl | ⟨rfl, no_def⟩
    · have found : nameAfter? "def " (w.line "def ") = some w.name :=
        w.nameAfter?_line rfl (by decide) w.before_def
      rw [read, functionName, found]
      rfl
    · have missing : nameAfter? "def " (w.line "function ") = none := by
        rw [nameAfter?, Text.cut?_eq_none_iff.2 no_def, Option.map_none]
      have found : nameAfter? "function " (w.line "function ") = some w.name :=
        w.nameAfter?_line rfl (by decide) w.before_function
      rw [read, functionName, missing, found]
      rfl
  · rw [read, w.parameterNames_line plain, ofNames, Roster.entries_ofList_map]

/-- A header with a parenthesis in an annotation and with a name that occurs again. -/
def annotated : Written where
  before := "async ".toList
  name := ['f']
  padding := []
  parameters := [
    { blanks := [' '], name := ['a'], ending := ": Set(int".toList,
      blanks_blank := List.forall_mem_singleton.2 rfl, name_ne_nil := by decide,
      name_inside := List.forall_mem_singleton.2 rfl, ending_head := by rintro c ⟨⟩; rfl,
      name_free := by decide, ending_free := by decide },
    { blanks := [' '], name := ['b'], ending := [],
      blanks_blank := List.forall_mem_singleton.2 rfl, name_ne_nil := by decide,
      name_inside := List.forall_mem_singleton.2 rfl, ending_head := by rintro c ⟨⟩,
      name_free := by decide, ending_free := by decide },
    { blanks := [' '], name := ['a'], ending := " = 1".toList,
      blanks_blank := List.forall_mem_singleton.2 rfl, name_ne_nil := by decide,
      name_inside := List.forall_mem_singleton.2 rfl, ending_head := by rintro c ⟨⟩; rfl,
      name_free := by decide, ending_free := by decide }]
  after := " { f() }".toList
  before_def := Text.cut?_eq_none_iff.1 rfl
  before_function := Text.cut?_eq_none_iff.1 rfl
  before_free := by decide
  name_ne_nil := by decide
  name_inside := List.forall_mem_singleton.2 rfl
  name_free := by decide
  padding_blank := List.forall_mem_nil _

theorem read_written_annotated :
    ¬ "def ".toList <:+: annotated.line "function " ∧
      annotated.line "function " = "async function f( a: Set(int, b, a = 1) { f() }".toList ∧
      (read (annotated.line "function ")).name = ['f'] ∧
      (read (annotated.line "function ")).parameters.entries =
        [(['a'], .placeholder), (['b'], .placeholder)] := by
  have no_def : ¬ "def ".toList <:+: annotated.line "function " := Text.cut?_eq_none_iff.1 rfl
  have names : (annotated.parameters.map Parameter.name).eraseDups = [['a'], ['b']] := by
    decide
  obtain ⟨name, parameters⟩ := annotated.read_written "function " (.inr ⟨rfl, no_def⟩)
  rw [names] at parameters
  exact ⟨no_def, rfl, name, parameters⟩

end Written
end Walkthrough.Line.Header
