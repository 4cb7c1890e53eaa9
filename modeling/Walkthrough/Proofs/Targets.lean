import Walkthrough.Line.Assignment
import Walkthrough.Proofs.Text.Fields

/-!
# The target of an assignment

The modifiers are looked for everywhere before the equals sign, also inside a word, and
the blanks after one go with it.  So a word that ends in a modifier loses it and is glued
to the next word:

* `stem?_eq_some_iff`: what a modifier at the end of a word leaves of it;
* `withoutModifiers_spaced`: as far as the target goes, words with blanks between them are
  `glued`;
* `read_target`: the target of a line is read off its glued words, and it is a run of the
  left side as long as the first word that is no modifier does not end in one.
-/

namespace Walkthrough

namespace Line.Assignment

/-! ## Modifiers -/

theorem isWord_of_mem_modifiers {m : Text} (h : m ∈ modifiers) : Text.IsWord m := by
  have all : ∀ m ∈ modifiers, (!m.isEmpty && m.all fun c => !isBlank c) = true := by decide
  simp only [Bool.and_eq_true, Bool.not_eq_true', List.isEmpty_eq_false_iff,
    List.all_eq_true] at all
  exact ⟨(all m h).1, (all m h).2⟩

theorem eq_of_starts {m m' : Text} (h : m ∈ modifiers) (h' : m' ∈ modifiers) (pre : m <+: m') :
    m = m' := by
  have all : ∀ m ∈ modifiers, ∀ m' ∈ modifiers, m <+: m' → m = m' := by decide
  exact all m h m' h' pre

theorem eq_of_ends {m m' : Text} (h : m ∈ modifiers) (h' : m' ∈ modifiers) (suf : m <:+ m') :
    m = m' := by
  have all : ∀ m ∈ modifiers, ∀ m' ∈ modifiers, m <:+ m' → m = m' := by decide
  exact all m h m' h' suf

section
variable {word gap t : Text}

theorem modifierLength_eq_zero (h : ∀ m ∈ modifiers, ¬ m <+: t) : modifierLength t = 0 := by
  have missing : modifiers.find? (·.isPrefixOf t) = none := by
    apply List.find?_eq_none.2
    intro m mem starts
    exact h m mem (List.isPrefixOf_iff_prefix.1 starts)
  rw [modifierLength, missing]

/-- A modifier is found by itself, since none starts another one. -/
theorem modifierLength_append {m : Text} (mem : m ∈ modifiers) (t : Text) :
    modifierLength (m ++ t) =
      if (t.takeWhile isBlank).length = 0 then 0 else m.length + (t.takeWhile isBlank).length := by
  have found : modifiers.find? (·.isPrefixOf (m ++ t)) = some m := by
    cases first : modifiers.find? (·.isPrefixOf (m ++ t)) with
    | none =>
      have starts := List.find?_eq_none.1 first m mem
      rw [List.isPrefixOf_iff_prefix] at starts
      exact absurd (List.prefix_append m t) starts
    | some m' =>
      have mem' := List.mem_of_find?_eq_some first
      have starts := List.find?_some first
      rw [List.isPrefixOf_iff_prefix] at starts
      rcases List.prefix_or_prefix_of_prefix starts (List.prefix_append m t) with shorter | longer
      · rw [eq_of_starts mem' mem shorter]
      · rw [eq_of_starts mem mem' longer]
  simp only [modifierLength, found, List.drop_left]

/-- Of a text without blanks nothing is taken away. -/
theorem modifierLength_of_forall (h : ∀ c ∈ t, isBlank c = false) : modifierLength t = 0 := by
  by_cases starts : ∃ m ∈ modifiers, m <+: t
  · obtain ⟨m, mem, tail, rfl⟩ := starts
    have no_blanks : tail.takeWhile isBlank = [] := by
      cases tail with
      | nil => rfl
      | cons c rest => exact List.takeWhile_cons_of_neg (by simp [h c (by simp)])
    rw [modifierLength_append mem, no_blanks]
    rfl
  · apply modifierLength_eq_zero
    intro m mem pre
    exact starts ⟨m, mem, pre⟩

/-- In front of blanks a modifier is found exactly if it is all that stands before them, and
the blanks belong to it. -/
theorem modifierLength_word (solid : ∀ c ∈ word, isBlank c = false) (gap_ne : gap ≠ [])
    (blanks : ∀ c ∈ gap, isBlank c = true) (head : ∀ c, t.head? = some c → isBlank c = false) :
    modifierLength (word ++ gap ++ t) =
      if word ∈ modifiers then word.length + gap.length else 0 := by
  by_cases starts : ∃ m ∈ modifiers, m <+: word
  · obtain ⟨m, mem, tail, rfl⟩ := starts
    rw [List.append_assoc, List.append_assoc, modifierLength_append mem]
    cases tail with
    | nil =>
      have some_blank : gap.length ≠ 0 := mt List.length_eq_zero_iff.1 gap_ne
      rw [List.nil_append, Text.takeWhile_append_eq blanks head, List.append_nil,
        if_neg some_blank, if_pos mem]
    | cons c tail =>
      have not_modifier : m ++ c :: tail ∉ modifiers := by
        intro longer
        have same := eq_of_starts mem longer (List.prefix_append m (c :: tail))
        simp at same
      have inside : isBlank c = false := solid c (by simp)
      rw [if_neg not_modifier, List.cons_append, List.takeWhile_cons_of_neg (by simp [inside])]
      rfl
  · have not_modifier : word ∉ modifiers := fun mem => starts ⟨word, mem, List.prefix_rfl⟩
    rw [if_neg not_modifier]
    apply modifierLength_eq_zero
    intro m mem pre
    obtain ⟨space, spaces, rfl⟩ := List.exists_cons_of_ne_nil gap_ne
    have no_space : space ∉ m := by
      intro inside
      have blank := blanks space List.mem_cons_self
      rw [(isWord_of_mem_modifiers mem).solid space inside] at blank
      cases blank
    rw [List.append_assoc, List.cons_append] at pre
    exact starts ⟨m, mem, Text.prefix_of_append_cons no_space pre⟩

/-! ## Words and what is left of them -/

/-- What is left of a word that ends in a modifier. -/
def stem? : Text → Option Text
  | [] => none
  | c :: rest => if c :: rest ∈ modifiers then some [] else (stem? rest).map (c :: ·)

theorem stem?_of_mem (h : word ∈ modifiers) : stem? word = some [] := by
  cases word with
  | nil => exact absurd rfl (isWord_of_mem_modifiers h).ne_nil
  | cons c rest => rw [stem?, if_pos h]

theorem stem?_eq_some_iff {stem : Text} :
    stem? word = some stem ↔ ∃ m ∈ modifiers, stem ++ m = word := by
  induction word generalizing stem with
  | nil =>
    constructor
    · intro h
      cases h
    · rintro ⟨m, mem, empty⟩
      exact absurd (List.append_eq_nil_iff.1 empty).2 (isWord_of_mem_modifiers mem).ne_nil
  | cons c rest ih =>
    by_cases whole : c :: rest ∈ modifiers
    · rw [stem?_of_mem whole, Option.some_inj]
      constructor
      · rintro rfl
        exact ⟨c :: rest, whole, rfl⟩
      · rintro ⟨m, mem, split⟩
        have same := eq_of_ends mem whole ⟨stem, split⟩
        rw [same] at split
        exact (List.append_left_eq_self.1 split).symm
    · rw [stem?, if_neg whole, Option.map_eq_some_iff]
      constructor
      · rintro ⟨shorter, found, rfl⟩
        obtain ⟨m, mem, rfl⟩ := ih.1 found
        exact ⟨m, mem, rfl⟩
      · rintro ⟨m, mem, split⟩
        cases stem with
        | nil => exact absurd (split ▸ mem) whole
        | cons d shorter =>
          obtain ⟨rfl, rest_split⟩ := List.cons_eq_cons.1 split
          exact ⟨shorter, ih.2 ⟨m, mem, rest_split⟩, rfl⟩

/-- What is left of words when every modifier at the end of one is taken away, with the
blanks behind it; only the last word is always kept.  The first word that does not end in a
modifier is the last one that counts. -/
def glued : List Text → Text
  | [] => []
  | [last] => last
  | word :: next :: rest =>
    match stem? word with
    | some stem => stem ++ glued (next :: rest)
    | none => word

/-- The first word that is no modifier; the last word may be one. -/
def declared : List Text → Text
  | [] => []
  | [last] => last
  | word :: next :: rest => if word ∈ modifiers then declared (next :: rest) else word

/-- The first word that is no modifier does not end in one, or it does so behind a bracket. -/
def Intact : List Text → Prop
  | word :: next :: rest =>
    if word ∈ modifiers then Intact (next :: rest)
    else '[' ∈ word ∨ ∀ m ∈ modifiers, ¬ m <:+ word
  | _ => True

instance decidableIntact : (words : List Text) → Decidable (Intact words)
  | [] => .isTrue trivial
  | [_] => .isTrue trivial
  | word :: next :: rest =>
    have := decidableIntact (next :: rest)
    inferInstanceAs (Decidable (if word ∈ modifiers then Intact (next :: rest)
      else '[' ∈ word ∨ ∀ m ∈ modifiers, ¬ m <:+ word))

/-! ## Taking the modifiers away -/

theorem withoutModifiers_of_forall (h : ∀ c ∈ t, isBlank c = false) :
    withoutModifiers 0 t = t := by
  induction t with
  | nil => rfl
  | cons c rest ih =>
    rw [withoutModifiers, modifierLength_of_forall h]
    exact congrArg (List.cons c) (ih fun d hd => h d (List.mem_cons_of_mem c hd))

theorem withoutModifiers_length (skipped t : Text) :
    withoutModifiers skipped.length (skipped ++ t) = withoutModifiers 0 t := by
  induction skipped with
  | nil => rfl
  | cons c rest ih => exact ih

/-- A modifier at the start of a text is taken away with the blanks after it. -/
theorem withoutModifiers_append {modifier : Text} (hne : modifier ≠ [])
    (h : modifierLength (modifier ++ t) = modifier.length) :
    withoutModifiers 0 (modifier ++ t) = withoutModifiers 0 t := by
  cases modifier with
  | nil => exact absurd rfl hne
  | cons c rest =>
    rw [List.cons_append] at h ⊢
    rw [withoutModifiers, h, List.length_cons]
    exact withoutModifiers_length rest t

/-- Of a word with blanks behind it a modifier at its end is taken away together with them. -/
theorem withoutModifiers_word (solid : ∀ c ∈ word, isBlank c = false) (gap_ne : gap ≠ [])
    (blanks : ∀ c ∈ gap, isBlank c = true) (head : ∀ c, t.head? = some c → isBlank c = false) :
    withoutModifiers 0 (word ++ gap ++ t) =
      match stem? word with
      | some stem => stem ++ withoutModifiers 0 t
      | none => word ++ withoutModifiers 0 (gap ++ t) := by
  induction word with
  | nil => rfl
  | cons c rest ih =>
    have length := modifierLength_word solid gap_ne blanks head
    obtain ⟨-, solid_rest⟩ := List.forall_mem_cons.1 solid
    by_cases whole : c :: rest ∈ modifiers
    · rw [if_pos whole, ← List.length_append] at length
      rw [stem?_of_mem whole, withoutModifiers_append (by simp) length]
      rfl
    · rw [if_neg whole] at length
      have kept : withoutModifiers 0 (c :: rest ++ gap ++ t) =
          c :: withoutModifiers 0 (rest ++ gap ++ t) := by
        rw [List.cons_append, List.cons_append] at length ⊢
        rw [withoutModifiers, length]
      rw [kept, ih solid_rest, stem?, if_neg whole]
      cases stem? rest with
      | none => rfl
      | some stem => rfl

/-- No modifier starts with a blank. -/
theorem exists_withoutModifiers_cons {c : Char} (blanks : ∀ d ∈ c :: gap, isBlank d = true)
    (head : ∀ d, t.head? = some d → isBlank d = false) :
    ∃ rest, withoutModifiers 0 (c :: gap ++ t) = c :: rest := by
  have length : modifierLength ([] ++ (c :: gap) ++ t) = 0 := by
    rw [modifierLength_word (List.forall_mem_nil _) (List.cons_ne_nil c gap) blanks head]
    rfl
  rw [List.nil_append, List.cons_append] at length
  rw [List.cons_append, withoutModifiers, length]
  exact ⟨_, rfl⟩

/-- The target ends at a bracket or a blank. -/
def endsTarget (c : Char) : Bool := c = '[' || isBlank c

theorem endsTarget_of_isBlank {c : Char} (h : isBlank c = true) : endsTarget c = true := by
  simp [endsTarget, h]

/-- As far as the target goes, words with blanks between them are glued. -/
theorem withoutModifiers_spaced {words : List Text} (h : Text.Spaced words t) :
    Text.upTo endsTarget (withoutModifiers 0 t) = Text.upTo endsTarget (glued words) := by
  induction h with
  | last isWord => rw [withoutModifiers_of_forall isWord.solid, glued]
  | @cons word gap t next rest isWord gap_ne blanks behind ih =>
    rw [withoutModifiers_word isWord.solid gap_ne blanks behind.head, glued]
    cases stem? word with
    | some stem => exact Text.upTo_append_congr ih stem
    | none =>
      obtain ⟨space, spaces, rfl⟩ := List.exists_cons_of_ne_nil gap_ne
      obtain ⟨others, kept⟩ := exists_withoutModifiers_cons blanks behind.head
      have blank := blanks space List.mem_cons_self
      simp only [kept]
      exact Text.upTo_append_stop (endsTarget_of_isBlank blank) word others

/-! ## Words that are not glued -/

theorem glued_of_intact {words : List Text} (h : Intact words) :
    Text.upTo endsTarget (glued words) = Text.upTo endsTarget (declared words) := by
  induction words with
  | nil => rfl
  | cons word rest ih =>
    cases rest with
    | nil => rfl
    | cons next rest =>
      rw [glued, declared]
      rw [Intact] at h
      by_cases whole : word ∈ modifiers
      · rw [if_pos whole] at h ⊢
        rw [stem?_of_mem whole]
        exact ih h
      · rw [if_neg whole] at h ⊢
        cases found : stem? word with
        | none => rfl
        | some stem =>
          obtain ⟨m, mem, rfl⟩ := stem?_eq_some_iff.1 found
          rcases h with bracket | no_suffix
          · have in_stem : '[' ∈ stem := by
              have not_in : ∀ m ∈ modifiers, '[' ∉ m := by decide
              exact (List.mem_append.1 bracket).resolve_right (not_in m mem)
            rw [Text.upTo_append_of_mem in_stem rfl, Text.upTo_append_of_mem in_stem rfl]
          · exact absurd (List.suffix_append stem m) (no_suffix m mem)

theorem declared_mem (words : List Text) : declared words = [] ∨ declared words ∈ words := by
  induction words with
  | nil => exact .inl rfl
  | cons word rest ih =>
    cases rest with
    | nil => exact .inr List.mem_cons_self
    | cons next rest =>
      rw [declared]
      split
      · exact ih.imp_right (List.mem_cons_of_mem word)
      · exact .inr List.mem_cons_self

/-! ## The target of a line -/

/-- What stands before the first equals sign of a line. -/
def leftSide (line : Text) : Text := Text.upTo (· = '=') line

theorem target_of_rhs {line : Text} (h : (read line).rhs.isSome = true) :
    (read line).target = Text.upTo endsTarget (withoutModifiers 0 (Text.trim (leftSide line))) := by
  unfold read at h ⊢
  split
  · rename_i left rhs others cut
    rw [targetOf, Text.first_of_fields cut]
    rfl
  · rename_i short
    split at h
    · rename_i left rhs others cut
      exact absurd cut (short left rhs others)
    · cases h

theorem target_eq_glued {line : Text} (h : (read line).rhs.isSome = true) :
    (read line).target = Text.upTo endsTarget (glued (Text.words (leftSide line))) := by
  rw [target_of_rhs h, ← Text.words_trim]
  by_cases nothing : Text.trim (leftSide line) = []
  · rw [nothing]
    rfl
  · exact withoutModifiers_spaced (Text.spaced_words (Text.trimmed_trim _) nothing)

/-- The target of a line with a right-hand side is read off the glued words of the left side.
As long as the first word that is no modifier does not end in one, it is that word, up to a
bracket: a run of the left side or nothing. -/
theorem read_target {line : Text} (h : (read line).rhs.isSome = true) :
    (read line).target = Text.upTo endsTarget (glued (Text.words (leftSide line))) ∧
      (Intact (Text.words (leftSide line)) →
        (read line).target = Text.upTo endsTarget (declared (Text.words (leftSide line))) ∧
        ((read line).target = [] ∨ (read line).target ∈ Text.runs endsTarget (leftSide line))) := by
  refine ⟨target_eq_glued h, fun intact => ?_⟩
  have target := (target_eq_glued h).trans (glued_of_intact intact)
  refine ⟨target, ?_⟩
  rw [target]
  rcases declared_mem (Text.words (leftSide line)) with none_left | word
  · rw [none_left]
    exact .inl rfl
  · refine (Text.upTo_mem_runs endsTarget _).imp_right fun run => ?_
    rw [Text.runs_eq_flatMap_words fun _ => endsTarget_of_isBlank]
    exact List.mem_flatMap.2 ⟨_, word, run⟩

/-- A modifier at the start of a word stays. -/
theorem read_target_declaration :
    let line := "final double int_rate[0] = 0.5;".toList
    (read line).rhs.isSome = true ∧ Intact (Text.words (leftSide line)) ∧
      (read line).target = "int_rate".toList ∧
      "int_rate".toList ∈ Text.runs endsTarget (leftSide line) := by
  intro line
  have rhs : (read line).rhs.isSome = true := by decide +kernel
  have intact : Intact (Text.words (leftSide line)) := by decide +kernel
  have word : Text.upTo endsTarget (declared (Text.words (leftSide line))) =
      "int_rate".toList := by
    decide +kernel
  obtain ⟨target, run⟩ := (read_target rhs).2 intact
  rw [word] at target
  rw [target] at run
  exact ⟨rhs, intact, target, run.resolve_left (by simp)⟩

/-- A word that ends in a modifier is glued to the next one. -/
theorem read_target_hint :
    let line := "hint += 1".toList
    (read line).rhs = some " 1".toList ∧
      declared (Text.words (leftSide line)) = "hint".toList ∧
      (read line).target = "h+".toList ∧
      "h+".toList ∉ Text.runs endsTarget (leftSide line) := by
  decide +kernel

end
end Line.Assignment
end Walkthrough
