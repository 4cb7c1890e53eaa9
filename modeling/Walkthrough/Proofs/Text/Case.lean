import Mathlib.Data.List.Forall2
import Walkthrough.Text.Case

/-!
# Lower case and ASCII words

Which texts have an ASCII word for their lower case.  Two characters beside the letters
themselves have ASCII letters in their lower case, the capital I with dot above and the
Kelvin sign, and neither helps: the dot is left over, and no word here has a `k`.  So a word
is met by its own spellings in capital and small letters and by no other text,
`lowered_eq_iff`.  It takes of lower-casing only what `IsLowering` says.
-/

namespace Walkthrough

/-- What may stand for a character in the lower case of a text.  Outside ASCII it may depend
on the characters around it, as it does for a final sigma. -/
structure IsLowering (c : Char) (lowered : Text) : Prop where
  ascii : c.toNat < 128 → lowered = [c.toLower]
  dottedI : c = '\u0130' → lowered = ['i', '\u0307']
  kelvin : c = '\u212A' → lowered = ['k']
  other : 128 ≤ c.toNat → c ≠ '\u0130' → c ≠ '\u212A' → lowered ≠ [] ∧ ∀ d ∈ lowered, 128 ≤ d.toNat

theorem toLower_of_le {c : Char} (h : 128 ≤ c.toNat) : c.toLower = c := by
  unfold Char.toLower
  split
  · rename_i capital
    have upper : c.toNat ≤ 'Z'.toNat := UInt32.le_iff_toNat_le.1 capital.2
    have last : 'Z'.toNat = 90 := rfl
    omega
  · rfl

theorem isLowering_lowerCase (c : Char) : IsLowering c (lowerCase c) := by
  constructor
  case ascii =>
    intro small
    have dotted : c ≠ '\u0130' := by rintro rfl; exact absurd small (by decide)
    have kelvin : c ≠ '\u212A' := by rintro rfl; exact absurd small (by decide)
    rw [lowerCase, if_neg dotted, if_neg kelvin]
  case dottedI => exact fun same => if_pos same
  case kelvin => rintro rfl; rfl
  case other =>
    intro large dotted kelvin
    rw [lowerCase, if_neg dotted, if_neg kelvin, toLower_of_le large]
    exact ⟨List.cons_ne_nil _ _, List.forall_mem_singleton.2 large⟩

theorem Text.forall₂_lowerCase (t : Text) :
    List.Forall₂ IsLowering t (t.map Walkthrough.lowerCase) := by
  rw [List.forall₂_map_right_iff, List.forall₂_same]
  exact fun c _ => isLowering_lowerCase c

/-- Outside ASCII, lower-casing leaves a character that no such word has. -/
theorem IsLowering.exists_foreign {c : Char} {lowered : Text} (h : IsLowering c lowered)
    (large : 128 ≤ c.toNat) : ∃ d ∈ lowered, d = 'k' ∨ 128 ≤ d.toNat := by
  by_cases dotted : c = '\u0130'
  · rw [h.dottedI dotted]
    exact ⟨'\u0307', by decide, .inr (by decide)⟩
  · by_cases kelvin : c = '\u212A'
    · rw [h.kelvin kelvin]
      exact ⟨'k', List.mem_cons_self, .inl rfl⟩
    · obtain ⟨nonempty, foreign⟩ := h.other large dotted kelvin
      obtain ⟨d, hd⟩ := List.exists_mem_of_ne_nil lowered nonempty
      exact ⟨d, hd, .inr (foreign d hd)⟩

/-- The lower case of a text is an ASCII word without a `k` exactly if the text has the
letters of the word, small or capital. -/
theorem lowered_eq_iff {t word : Text} {pieces : List Text}
    (lowers : List.Forall₂ IsLowering t pieces) (ascii : ∀ c ∈ word, c.toNat < 128)
    (no_k : 'k' ∉ word) : pieces.flatten = word ↔ t.map Char.toLower = word := by
  induction lowers generalizing word with
  | nil => rfl
  | @cons c piece t pieces lowering _ ih =>
    rw [List.flatten_cons, List.map_cons]
    by_cases small : c.toNat < 128
    · rw [lowering.ascii small, List.singleton_append]
      cases word with
      | nil => simp
      | cons d rest =>
        have tails := ih (List.forall_mem_cons.1 ascii).2 fun k => no_k (List.mem_cons_of_mem d k)
        rw [List.cons.injEq, List.cons.injEq, tails]
    · have large : 128 ≤ c.toNat := Nat.le_of_not_lt small
      constructor
      · intro same
        obtain ⟨d, hd, foreign⟩ := lowering.exists_foreign large
        have mem : d ∈ word := same ▸ List.mem_append_left _ hd
        rcases foreign with rfl | foreign
        · exact absurd mem no_k
        · exact absurd (ascii d mem) (Nat.not_lt.2 foreign)
      · intro same
        have mem : c ∈ word := by
          rw [← same, toLower_of_le large]
          exact List.mem_cons_self
        exact absurd (ascii c mem) small

end Walkthrough
