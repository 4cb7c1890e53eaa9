import Mathlib.Data.List.TakeWhile
import Walkthrough.Proofs.Text.Trim

/-!
# Words

The words of a text are the runs between its blanks; more generally, `Text.runs` are the
maximal runs of characters that are no stops.  Stops around a text make no difference to its
runs, and the text up to the first stop is one of them unless it is empty (`upTo_mem_runs`).
A trimmed text is its words with blanks between them (`spaced_words`), so its runs are those
of its words: `runs_eq_flatMap_words`.
-/

namespace Walkthrough.Text

/-! ## Runs -/

/-- The maximal runs of characters that `stop` does not accept, in their order. -/
def runs (stop : Char → Bool) (t : Text) : List Text := (t.splitOnP stop).filter (!·.isEmpty)

theorem words_eq_runs (t : Text) : words t = runs isBlank t := rfl

section
variable {stop : Char → Bool} {s t : Text}

theorem runs_append_cons {c : Char} (h : stop c = true) (s t : Text) :
    runs stop (s ++ c :: t) = runs stop s ++ runs stop t := by
  rw [runs, List.splitOnP_append_cons s t h, List.filter_append]
  rfl

theorem runs_cons {c : Char} (h : stop c = true) (t : Text) : runs stop (c :: t) = runs stop t :=
  runs_append_cons h [] t

theorem runs_of_forall (nonempty : t ≠ []) (h : ∀ c ∈ t, stop c = false) : runs stop t = [t] := by
  rw [runs, List.splitOnP_eq_singleton h]
  simp [nonempty]

theorem runs_append_left (h : ∀ c ∈ s, stop c = true) : runs stop (s ++ t) = runs stop t := by
  induction s with
  | nil => rfl
  | cons c s ih =>
    obtain ⟨first, others⟩ := List.forall_mem_cons.1 h
    rw [List.cons_append, runs_cons first, ih others]

theorem runs_eq_nil (h : ∀ c ∈ s, stop c = true) : runs stop s = [] := by
  rw [← List.append_nil s, runs_append_left h]
  rfl

theorem runs_append_right (h : ∀ c ∈ s, stop c = true) : runs stop (t ++ s) = runs stop t := by
  cases s with
  | nil => rw [List.append_nil]
  | cons c s =>
    obtain ⟨first, others⟩ := List.forall_mem_cons.1 h
    rw [runs_append_cons first, runs_eq_nil others, List.append_nil]

theorem runs_trim (h : ∀ c, isBlank c = true → stop c = true) (t : Text) :
    runs stop (trim t) = runs stop t := by
  obtain ⟨before, after, hb, ha, padded⟩ := exists_pad t
  rw [← congrArg (runs stop) padded, runs_append_right fun c hc => h c (ha c hc),
    runs_append_left fun c hc => h c (hb c hc)]

theorem words_trim (t : Text) : words (trim t) = words t := runs_trim (fun _ h => h) t

/-- A text is what stands before the first stop, and nothing or a stop comes after it. -/
theorem exists_upTo_append (stop : Char → Bool) (t : Text) :
    ∃ after, upTo stop t ++ after = t ∧ ∀ c, after.head? = some c → stop c = true := by
  refine ⟨t.dropWhile (fun c => !stop c), List.takeWhile_append_dropWhile, ?_⟩
  intro c hc
  have first := List.head?_dropWhile_not (fun c => !stop c) t
  rw [hc] at first
  simpa using first

theorem upTo_inside (stop : Char → Bool) (t : Text) : ∀ c ∈ upTo stop t, stop c = false := by
  intro c hc
  simpa using List.mem_takeWhile_imp hc

/-- What is cut at the stops starts with the text up to the first one. -/
theorem exists_splitOnP_eq_cons (stop : Char → Bool) (t : Text) :
    ∃ others, t.splitOnP stop = upTo stop t :: others := by
  obtain ⟨after, whole, stops⟩ := exists_upTo_append stop t
  have inside := upTo_inside stop t
  cases after with
  | nil =>
    rw [List.append_nil] at whole
    rw [whole] at inside
    exact ⟨[], by rw [whole, List.splitOnP_eq_singleton inside]⟩
  | cons c rest =>
    refine ⟨rest.splitOnP stop, ?_⟩
    calc t.splitOnP stop
      _ = (upTo stop t ++ c :: rest).splitOnP stop := by rw [whole]
      _ = upTo stop t :: rest.splitOnP stop :=
        List.splitOnP_append_cons_of_forall_mem inside c (stops c rfl) rest

/-- The text up to the first stop is a run unless it is empty. -/
theorem upTo_mem_runs (stop : Char → Bool) (t : Text) :
    upTo stop t = [] ∨ upTo stop t ∈ runs stop t := by
  by_cases empty : upTo stop t = []
  · exact .inl empty
  · obtain ⟨others, split⟩ := exists_splitOnP_eq_cons stop t
    refine .inr (List.mem_filter.2 ⟨?_, ?_⟩)
    · rw [split]
      exact List.mem_cons_self
    · simp [empty]

end

/-! ## A trimmed text and its words -/

structure IsWord (word : Text) : Prop where
  ne_nil : word ≠ []
  solid : ∀ c ∈ word, isBlank c = false

/-- The words of a list with blanks between any two of them. -/
inductive Spaced : List Text → Text → Prop
  | last {word : Text} (isWord : IsWord word) : Spaced [word] word
  | cons {word gap t next : Text} {rest : List Text} (isWord : IsWord word)
      (gap_ne : gap ≠ []) (blanks : ∀ c ∈ gap, isBlank c = true)
      (behind : Spaced (next :: rest) t) : Spaced (word :: next :: rest) (word ++ gap ++ t)

theorem IsWord.head {word : Text} (h : IsWord word) (t : Text) :
    ∀ c, (word ++ t).head? = some c → isBlank c = false := by
  intro c hc
  cases word with
  | nil => exact absurd rfl h.ne_nil
  | cons d word =>
    rw [← Option.some.inj hc]
    exact h.solid d List.mem_cons_self

theorem Spaced.head {words : List Text} {t : Text} (h : Spaced words t) :
    ∀ c, t.head? = some c → isBlank c = false := by
  cases h with
  | last isWord =>
    have first := isWord.head []
    rwa [List.append_nil] at first
  | cons isWord _ _ _ =>
    rw [List.append_assoc]
    exact isWord.head _

theorem Trimmed.isWord_upTo {t : Text} (trimmed : Trimmed t) (nonempty : t ≠ []) :
    IsWord (upTo isBlank t) where
  ne_nil := by
    cases t with
    | nil => exact absurd rfl nonempty
    | cons c t =>
      have first := trimmed.head c rfl
      simp [upTo, first]
  solid := upTo_inside isBlank t

theorem Trimmed.of_append {s t : Text} (trimmed : Trimmed (s ++ t))
    (head : ∀ c, t.head? = some c → isBlank c = false) : Trimmed t where
  head := head
  last c hc := by
    apply trimmed.last c
    rw [List.getLast?_append, hc, Option.some_or]

/-- A trimmed text with something in it is its words with blanks between them. -/
theorem spaced_words {t : Text} (trimmed : Trimmed t) (nonempty : t ≠ []) :
    Spaced (words t) t := by
  -- on the length of the text: one word and the blanks after it are taken off
  induction hn : t.length using Nat.strong_induction_on generalizing t with
  | _ n ih =>
  subst hn
  have isWord := trimmed.isWord_upTo nonempty
  obtain ⟨after, whole, stops⟩ := exists_upTo_append isBlank t
  generalize upTo isBlank t = word at isWord whole
  cases after with
  | nil =>
    rw [List.append_nil] at whole
    subst whole
    rw [words_eq_runs, runs_of_forall isWord.ne_nil isWord.solid]
    exact .last isWord
  | cons c rest =>
    have blank : isBlank c = true := stops c rfl
    have gap_blank : ∀ d ∈ c :: rest.takeWhile isBlank, isBlank d = true :=
      List.forall_mem_cons.2 ⟨blank, fun d hd => isBlank_of_mem_takeWhile hd⟩
    have behind_split : rest.takeWhile isBlank ++ rest.dropWhile isBlank = rest :=
      List.takeWhile_append_dropWhile
    have behind_head : ∀ d, (rest.dropWhile isBlank).head? = some d → isBlank d = false :=
      fun d hd => isBlank_eq_false_of_head?_dropWhile hd
    generalize rest.takeWhile isBlank = gap at gap_blank behind_split
    generalize rest.dropWhile isBlank = behind at behind_split behind_head
    subst behind_split
    have gathered : word ++ (c :: gap) ++ behind = t := by
      rw [← whole, List.append_assoc, List.cons_append]
    have behind_ne : behind ≠ [] := by
      rintro rfl
      -- a trimmed text does not end in the blanks after its first word
      have ending : t.getLast? = some ((c :: gap).getLast (List.cons_ne_nil c gap)) := by
        rw [← gathered, List.append_nil, List.getLast?_append,
          List.getLast?_eq_some_getLast (List.cons_ne_nil c gap), Option.some_or]
      have solid := trimmed.last _ ending
      rw [gap_blank _ (List.getLast_mem _)] at solid
      cases solid
    have behind_trimmed : Trimmed behind := .of_append (gathered ▸ trimmed) behind_head
    have shorter : behind.length < t.length := by
      rw [← gathered, List.length_append, List.length_append, List.length_cons]
      omega
    have words_eq : words t = word :: words behind := by
      rw [← whole, words_eq_runs, runs_append_cons blank,
        runs_of_forall isWord.ne_nil isWord.solid,
        runs_append_left (List.forall_mem_cons.1 gap_blank).2]
      rfl
    have spaced := ih behind.length shorter behind_trimmed behind_ne rfl
    cases later : words behind with
    | nil =>
      rw [later] at spaced
      cases spaced
    | cons next others =>
      rw [later] at spaced
      rw [words_eq, later, ← gathered]
      exact .cons isWord (List.cons_ne_nil c gap) gap_blank spaced

section
variable {stop : Char → Bool} {t : Text}

theorem Spaced.runs_eq {words : List Text} (h : ∀ c, isBlank c = true → stop c = true)
    (spaced : Spaced words t) : runs stop t = words.flatMap (runs stop) := by
  induction spaced with
  | last isWord => rw [List.flatMap_cons, List.flatMap_nil, List.append_nil]
  | @cons word gap t next rest isWord gap_ne blanks behind ih =>
    obtain ⟨space, spaces, rfl⟩ := List.exists_cons_of_ne_nil gap_ne
    obtain ⟨first, others⟩ := List.forall_mem_cons.1 blanks
    rw [List.flatMap_cons, ← ih, List.append_assoc, List.cons_append,
      runs_append_cons (h space first), runs_append_left fun c hc => h c (others c hc)]

/-- If blanks are stops, then the runs of a text are those of its words. -/
theorem runs_eq_flatMap_words (h : ∀ c, isBlank c = true → stop c = true) (t : Text) :
    runs stop t = (words t).flatMap (runs stop) := by
  rw [← runs_trim h, ← words_trim]
  by_cases nothing : trim t = []
  · rw [nothing]
    rfl
  · exact (spaced_words (trimmed_trim t) nothing).runs_eq h

end

end Walkthrough.Text
