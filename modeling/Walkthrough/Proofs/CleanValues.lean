import Walkthrough.Proofs.Text.Fields
import Walkthrough.Proofs.Text.Trim
import Walkthrough.Proofs.Values

/-!
# Which values a walkthrough meets

The text of a value has gone through the cuts that were made before it is read: at line
feeds into lines, at equals signs into sides, less semicolons, and inside brackets at commas
and less quotation marks.  What these take out is in no value (`Value.IsClean`), and no list
is inside another.  A copy of a variable is as clean as what the variable had, so this holds
of every step: `synthesize_clean`.
-/

namespace Walkthrough

/-- What is left of a line once it is cut at its equals signs and has no semicolons. -/
def Text.IsClean (t : Text) : Prop := ∀ c ∈ t, c ≠ ';' ∧ c ≠ '=' ∧ c ≠ '\n'

namespace Text

theorem IsClean.mono {s t : Text} (h : t.IsClean) (sub : s ⊆ t) : s.IsClean :=
  fun c hc => h c (sub hc)

theorem without_subset (unwanted : Char → Bool) (t : Text) : without unwanted t ⊆ t :=
  List.filter_sublist.subset

theorem not_of_mem_without {unwanted : Char → Bool} {t : Text} {c : Char}
    (h : c ∈ without unwanted t) : unwanted c = false := by
  have kept := (List.mem_filter.1 h).2
  rwa [Bool.not_eq_true'] at kept

end Text

theorem DecimalLiteral.isNaN_toDouble (l : DecimalLiteral) : l.toDouble.isNaN = false := by
  have number {m : Nat} (h : m ≤ Double.infinityMagnitude) :
      (Double.ofMagnitude l.negative m).isNaN = false := by
    have small : Double.infinityMagnitude < Double.signBit := by decide
    rw [Double.isNaN, Double.magnitude_ofMagnitude (Nat.lt_of_le_of_lt h small)]
    exact decide_eq_false (Nat.not_lt.2 h)
  unfold toDouble
  dsimp only
  split
  · exact number (Nat.zero_le _)
  · split
    · exact number (Nat.le_refl _)
    · exact Double.isNaN_nearest ..

namespace Value

/-- An element of a list: a number or a text, and the text has lost its commas and its
quotation marks too.  A double is the one of some literal. -/
inductive IsElement : Value → Prop where
  | int (n : Int32) : IsElement (.int n)
  | double (l : DecimalLiteral) (number : l.toDouble.isNaN = false) : IsElement (.double l.toDouble)
  | text {t : Text} (clean : t.IsClean) (bare : ∀ c ∈ t, c ≠ ',' ∧ c ≠ '"' ∧ c ≠ '\'') :
      IsElement (.text t)

inductive IsClean : Value → Prop where
  | int (n : Int32) : IsClean (.int n)
  | double (l : DecimalLiteral) (number : l.toDouble.isNaN = false) : IsClean (.double l.toDouble)
  | text {t : Text} (clean : t.IsClean) : IsClean (.text t)
  | list {items : List Value} (elements : ∀ item ∈ items, item.IsElement) : IsClean (.list items)
  | placeholder : IsClean .placeholder

theorem IsElement.isClean {value : Value} (h : value.IsElement) : value.IsClean := by
  cases h with
  | int n => exact .int n
  | double l number => exact .double l number
  | text clean _ => exact .text clean

theorem isElement_of_readNumber? {t : Text} {value : Value} (h : readNumber? t = some value) :
    value.IsElement := by
  unfold readNumber? at h
  split at h
  · obtain ⟨x, read, rfl⟩ := Option.map_eq_some_iff.1 h
    obtain ⟨l, -, rfl⟩ := Option.map_eq_some_iff.1 read
    exact .double l l.isNaN_toDouble
  · obtain ⟨n, -, rfl⟩ := Option.map_eq_some_iff.1 h
    exact .int n

theorem isElement_ofElement {t : Text} (clean : t.IsClean) (no_comma : ',' ∉ t) :
    (ofElement t).IsElement := by
  unfold ofElement
  cases found : readNumber? t with
  | some value => exact isElement_of_readNumber? found
  | none =>
    refine .text (clean.mono (Text.without_subset ..)) fun c hc => ?_
    have unquoted := Text.not_of_mem_without hc
    rw [isQuote, Bool.or_eq_false_iff, decide_eq_false_iff_not, decide_eq_false_iff_not] at unquoted
    refine ⟨?_, unquoted⟩
    rintro rfl
    exact no_comma (Text.without_subset _ _ hc)

/-- What stands between the brackets is part of the text. -/
theorem content_subset {t before opened after content : Text}
    (opens : Text.cut? ['['] t = some (before, opened))
    (closes : Text.cut? [']'] opened.reverse = some (after, content)) : content.reverse ⊆ t := by
  intro c hc
  have inside : c ∈ opened := by
    rw [← List.mem_reverse, Text.cut?_eq_append closes]
    exact List.mem_append_right _ (List.mem_reverse.1 hc)
  rw [Text.cut?_eq_append opens]
  exact List.mem_append_right _ inside

theorem isElement_of_mem_readList? {t : Text} (clean : t.IsClean) {items : List Value}
    (h : readList? t = some items) : ∀ item ∈ items, item.IsElement := by
  unfold readList? at h
  split at h
  · cases h
    exact List.forall_mem_nil _
  · rename_i opens
    split at h
    · cases h
    · rename_i closes
      cases h
      refine List.forall_mem_map.2 fun field mem => ?_
      have of_field := Text.mem_of_mem_fields mem
      refine isElement_ofElement (clean.mono ?_) fun comma => ?_
      · intro c hc
        exact content_subset opens closes (of_field c (Text.trim_subset _ hc)).1
      · exact (of_field _ (Text.trim_subset _ comma)).2 rfl

theorem isClean_normalize {rhs : Text} (h : ∀ c ∈ rhs, c ≠ '=' ∧ c ≠ '\n') :
    (normalize rhs).IsClean := by
  intro c hc
  have kept := Text.trim_subset _ hc
  refine ⟨?_, h c (Text.trim_subset _ (Text.without_subset _ _ kept))⟩
  exact of_decide_eq_false (Text.not_of_mem_without kept)

theorem isClean_inferNormalized {t : Text} (clean : t.IsClean) {environment : Environment}
    (h : ∀ entry ∈ environment.entries, entry.2.IsClean) :
    (inferNormalized t environment).IsClean := by
  unfold inferNormalized
  split
  · exact (isElement_of_readNumber? ‹_›).isClean
  · split
    · refine .text (clean.mono ?_)
      exact List.Subset.trans (List.dropLast_subset _) (List.tail_sublist t).subset
    · split
      · rename_i found
        split at found
        · exact .list (isElement_of_mem_readList? clean found)
        · cases found
      · cases known : environment.get? t with
        | none => exact .placeholder
        | some value => exact h _ (Dictionary.mem_entries_of_get? known)

end Value

/-- The right-hand side of a line is one of the line's sides. -/
theorem Line.Assignment.rhs_mem_fields {line rhs : Text} (h : (read line).rhs = some rhs) :
    rhs ∈ Text.fields '=' line := by
  unfold read at h
  split at h
  · rename_i sides
    cases h
    rw [sides]
    exact List.mem_cons_of_mem _ List.mem_cons_self
  · cases h

theorem Sweep.isClean_valueOf {environment : Environment}
    (h : ∀ entry ∈ environment.entries, entry.2.IsClean) {line : Text} (whole : '\n' ∉ line) :
    (valueOf environment (Line.Assignment.read line).rhs).IsClean := by
  unfold valueOf
  split
  · exact .placeholder
  · rename_i rhs side
    refine Value.isClean_inferNormalized (Value.isClean_normalize fun c hc => ?_) h
    have of_side := Text.mem_of_mem_fields (Line.Assignment.rhs_mem_fields side) c hc
    refine ⟨of_side.2, ?_⟩
    rintro rfl
    exact whole of_side.1

/-! ## In a trace -/

/-- A list of elements, told to be a graph exactly if the first of them is the text of
something that opens with a bracket. -/
def DataStructure.IsClean (detected : DataStructure) : Prop :=
  ∃ items, detected.data = .list items ∧ (∀ item ∈ items, item.IsElement) ∧
    (detected.shape = .graph ↔ ∃ t rest, items = .text ('[' :: t) :: rest)

theorem DataStructure.IsClean.data {detected : DataStructure} (h : detected.IsClean) :
    detected.data.IsClean := by
  obtain ⟨items, data_eq, elements, -⟩ := h
  exact data_eq ▸ .list elements

theorem DataStructure.shapeOf_eq_graph_iff {items : List Value}
    (h : ∀ item ∈ items, item.IsElement) :
    shapeOf items = .graph ↔ ∃ t rest, items = .text ('[' :: t) :: rest := by
  have graph_iff : shapeOf items = .graph ↔ items.head?.any Value.isListShaped = true := by
    unfold shapeOf
    split <;> simp [*]
  rw [graph_iff]
  cases items with
  | nil => simp
  | cons first rest =>
    rw [List.head?_cons, Option.any_some]
    cases h first List.mem_cons_self with
    | int n => simp [Value.isListShaped]
    | double _ => simp [Value.isListShaped]
    | @text t _ _ => cases t <;> simp [Value.isListShaped]

theorem DataStructure.isClean_of_detect? {value : Value} {detected : DataStructure}
    (h : value.IsClean) (found : detect? value = some detected) : detected.IsClean := by
  obtain ⟨items, listed, rfl⟩ := Option.map_eq_some_iff.1 found
  cases h with
  | list elements =>
    cases listed
    exact ⟨_, rfl, elements, shapeOf_eq_graph_iff elements⟩
  | _ => cases listed

structure Step.IsClean (step : Step) : Prop where
  environment : ∀ entry ∈ step.environment.entries, entry.2.IsClean
  memory : ∀ object ∈ step.memory, object.value.IsClean
  structures : ∀ detected ∈ step.structures, detected.IsClean
  frames : ∀ frame ∈ step.frames, frame.IsFresh

namespace Trace

theorem lineFeed_not_mem_visited {code : Text} {item : Nat × Text} (h : item ∈ visited code) :
    '\n' ∉ item.2 := by
  obtain ⟨-, raw, found, line_eq, -⟩ := mem_visited.1 h
  intro feed
  rw [line_eq] at feed
  exact (Text.mem_of_mem_splitOn (List.mem_of_getElem? found) _ (Text.trim_subset _ feed)).2 rfl

theorem isClean_of_getElem? {run : Run} {code : Text} {language : Language} {k : Nat} {step : Step}
    (h : (synthesize run code language)[k]? = some step) : step.IsClean := by
  have pictures := pictures_stateAt h
  have values : (stateAt run code k).AllValues Value.IsClean :=
    allValues_stateAt (fun _ _ visits clean =>
      Sweep.isClean_valueOf clean (lineFeed_not_mem_visited visits)) run k
  constructor
  case environment => exact pictures.environment ▸ values.environment
  case memory => exact pictures.memory ▸ values.memory
  case structures =>
    intro detected mem
    rw [pictures.structures] at mem
    obtain ⟨value, clean, found⟩ := values.structures detected mem
    exact DataStructure.isClean_of_detect? clean found
  case frames => exact fun frame mem => (isFresh_of_mem_frames h mem).1

/-- **The values of a trace are flat and clean.**  In every step a variable and a memory
object have a number, a text, a list of numbers and texts, or the placeholder; no double is
not a number, and no text has a semicolon, an equals sign or a line feed, nor, inside a list,
a comma or a quotation mark.  A structure is a graph exactly if the first element of its list
is a text that starts with a bracket, and frames have placeholders for parameters and nothing
else. -/
theorem synthesize_clean (run : Run) (code : Text) (language : Language) (step : Step)
    (h : step ∈ synthesize run code language) : step.IsClean := by
  obtain ⟨k, found⟩ := List.mem_iff_getElem?.1 h
  exact isClean_of_getElem? found

/-- A list that is cut inside its inner brackets counts as a graph, and so does its copy. -/
theorem synthesize_clean_copied :
    ∃ step ∈ synthesize ⟨[], fun _ => 0, 0⟩
        "def f(a):\n  xs = [['b;', 2.5], 1]\n  ys = xs".toList .python,
      step.structures.map (·.shape) = [.graph, .graph] ∧ step.frames.length = 1 ∧
      step.IsClean := by
  have third := List.get_mem
    (synthesize ⟨[], fun _ => 0, 0⟩ "def f(a):\n  xs = [['b;', 2.5], 1]\n  ys = xs".toList .python)
    ⟨2, by decide⟩
  exact ⟨_, third, by decide, by decide, synthesize_clean _ _ _ _ third⟩

end Trace
end Walkthrough
