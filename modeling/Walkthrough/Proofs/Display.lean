import Walkthrough.Proofs.CleanValues
import Walkthrough.Proofs.Json.Number
import Walkthrough.Proofs.Text.Digits

/-!
# The characters of displayed values

Numbers are displayed with the characters of literals only (`isLiteralChar_of_mem_write`).
A displayed value has a line feed only if one of its texts has, so the values of a trace are
displayed on one line: `Value.IsClean.lineFeed_not_mem_display`.
-/

namespace Walkthrough

open Json (isLiteralChar isLiteralChar_of_isDigit)

theorem isLiteralChar_of_mem_ofNat {n : Nat} {c : Char} (h : c ∈ Text.ofNat n) :
    isLiteralChar c = true :=
  isLiteralChar_of_isDigit (Text.isDigit_of_mem_ofNat h)

theorem isLiteralChar_of_mem_ofInt {n : Int} {c : Char} (h : c ∈ Text.ofInt n) :
    isLiteralChar c = true := by
  unfold Text.ofInt at h
  split at h
  · rcases List.mem_cons.1 h with rfl | digit
    · rfl
    · exact isLiteralChar_of_mem_ofNat digit
  · exact isLiteralChar_of_mem_ofNat h

namespace Double.Layout

section
variable {digits : Text} (hd : ∀ c ∈ digits, isLiteralChar c = true)
include hd

theorem isLiteralChar_of_mem_positional {point : Int} :
    ∀ c ∈ positional digits point, isLiteralChar c = true := by
  have zeros (n : Nat) : ∀ c ∈ List.replicate n '0', isLiteralChar c = true := by
    intro c hc
    rw [List.eq_of_mem_replicate hc]
    rfl
  have start : ∀ c ∈ "0.".toList, isLiteralChar c = true := List.all_eq_true.1 rfl
  have mark : ∀ c ∈ ['.'], isLiteralChar c = true := List.all_eq_true.1 rfl
  have zero : ∀ c ∈ ['0'], isLiteralChar c = true := List.all_eq_true.1 rfl
  have whole (n : Nat) : ∀ c ∈ digits.take n, isLiteralChar c = true :=
    fun c hc => hd c (List.mem_of_mem_take hc)
  have fraction (n : Nat) : ∀ c ∈ digits.drop n, isLiteralChar c = true :=
    fun c hc => hd c (List.mem_of_mem_drop hc)
  unfold positional
  by_cases small : point ≤ 0
  · rw [if_pos small]
    simp only [List.forall_mem_append]
    exact ⟨⟨start, zeros _⟩, hd⟩
  · rw [if_neg small]
    dsimp only
    simp only [List.forall_mem_append]
    refine ⟨⟨⟨whole _, zeros _⟩, mark⟩, ?_⟩
    split
    · exact zero
    · exact fraction _

theorem isLiteralChar_of_mem_scientific {plus : Bool} {exponent : Int} :
    ∀ c ∈ scientific plus digits exponent, isLiteralChar c = true := by
  unfold scientific
  dsimp only
  simp only [List.forall_mem_append]
  refine ⟨⟨⟨?_, List.all_eq_true.1 rfl⟩, ?_⟩, fun c hc => isLiteralChar_of_mem_ofInt hc⟩
  · split
    · exact List.forall_mem_nil _
    · exact hd
    · obtain ⟨first, others⟩ := List.forall_mem_cons.1 hd
      exact List.forall_mem_cons.2 ⟨first, List.forall_mem_cons.2 ⟨rfl, others⟩⟩
  · split
    · exact List.all_eq_true.1 rfl
    · exact List.forall_mem_nil _

end

/-- In whatever layout, a number has the characters of literals only. -/
theorem isLiteralChar_of_mem_write (l : Layout) (d : Double) :
    ∀ c ∈ l.write d, isLiteralChar c = true := by
  have sign : ∀ c ∈ (if d.isNegative then ['-'] else []), isLiteralChar c = true := by
    split
    · exact List.all_eq_true.1 rfl
    · exact List.forall_mem_nil _
  have kept (n : Nat) : ∀ c ∈ dropTrailingZeros (Text.ofNat n), isLiteralChar c = true := by
    intro c hc
    have within := (List.dropWhile_sublist _).subset (List.mem_reverse.1 hc)
    exact isLiteralChar_of_mem_ofNat (List.mem_reverse.1 within)
  refine List.forall_mem_append.2 ⟨sign, ?_⟩
  unfold writeMagnitude
  split
  · exact List.all_eq_true.1 rfl
  · dsimp only
    split
    · exact isLiteralChar_of_mem_positional (kept _)
    · exact isLiteralChar_of_mem_scientific (kept _)

end Double.Layout

namespace Value

theorem lineFeed_not_mem_displayDouble (x : Double) : '\n' ∉ displayDouble x := by
  unfold displayDouble
  split
  · intro feed
    cases Double.Layout.isLiteralChar_of_mem_write _ _ _ feed
  · split
    · decide
    · split <;> decide

theorem lineFeed_not_mem_ofInt (n : Int) : '\n' ∉ Text.ofInt n := by
  intro feed
  cases isLiteralChar_of_mem_ofInt feed

theorem lineFeed_not_mem_quoted {t : Text} (clean : t.IsClean) : '\n' ∉ (text t).display := by
  have inside : '\n' ∉ t := fun feed => (clean _ feed).2.2 rfl
  simp [display, inside]

theorem IsElement.lineFeed_not_mem_display {value : Value} (h : value.IsElement) :
    '\n' ∉ value.display := by
  cases h with
  | int n => exact lineFeed_not_mem_ofInt _
  | double l _ => exact lineFeed_not_mem_displayDouble _
  | text clean _ => exact lineFeed_not_mem_quoted clean

/-- A value that inference gives is displayed on one line. -/
theorem IsClean.lineFeed_not_mem_display {value : Value} (h : value.IsClean) :
    '\n' ∉ value.display := by
  cases h with
  | int n => exact lineFeed_not_mem_ofInt _
  | double l _ => exact lineFeed_not_mem_displayDouble _
  | text clean => exact lineFeed_not_mem_quoted clean
  | @list items elements =>
    have joined : '\n' ∉ Text.join ", ".toList (items.map display) := by
      apply Text.not_mem_join (by decide)
      intro part mem
      obtain ⟨item, hi, rfl⟩ := List.mem_map.1 mem
      exact (elements item hi).lineFeed_not_mem_display
    rw [display, displayAll_eq_map]
    simp only [List.mem_append, not_or]
    exact ⟨⟨by decide, joined⟩, by decide⟩
  | placeholder => decide

end Value
end Walkthrough
