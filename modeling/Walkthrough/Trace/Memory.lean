import Walkthrough.Text.Hex
import Walkthrough.Value

/-!
# Memory objects

Each assignment records an object of its own under an address that no earlier object
has.  Addresses are drawn from a list of candidates, which stands for the source of
random ones; when it runs out, the lowest numbered address that is free is taken.
`Address.draw_not_mem` says that a drawn address is new.
-/

namespace Walkthrough

abbrev Address := Text

namespace Address

/-- The address of a number, in eight hexadecimal digits or as many as it needs. -/
def numbered (n : Nat) : Address := "0x".toList ++ Text.hex (max 8 (n.log2 / 4 + 1)) n

/-- Of the addresses numbered from `n` upward the first that is not in use. -/
def lowestFree (used : List Address) (n : Nat) : Address :=
  if numbered n ∈ used then lowestFree (used.erase (numbered n)) (n + 1) else numbered n
termination_by used.length
decreasing_by grind [List.length_erase_of_mem, List.length_pos_of_mem]

/-- The first candidate that is not in use, and the candidates after it. -/
def draw (used : List Address) : List Address → Address × List Address
  | [] => (lowestFree used 1, [])
  | candidate :: rest => if candidate ∈ used then draw used rest else (candidate, rest)

theorem lt_pow_sixteen (n : Nat) : n < Nat.pow 16 (max 8 (n.log2 / 4 + 1)) := by
  have small : n < 2 ^ (n.log2 + 1) := Nat.lt_log2_self
  have wide : 2 ^ (n.log2 + 1) ≤ 2 ^ (4 * max 8 (n.log2 / 4 + 1)) :=
    Nat.pow_le_pow_right (by decide) (by omega)
  calc n < 2 ^ (4 * max 8 (n.log2 / 4 + 1)) := Nat.lt_of_lt_of_le small wide
    _ = 16 ^ max 8 (n.log2 / 4 + 1) := by rw [Nat.pow_mul]

theorem numbered_injective {m n : Nat} (h : numbered m = numbered n) : m = n := by
  have digits := congrArg Text.readHex? (List.append_cancel_left h)
  simpa [Text.readHex?_hex, Nat.mod_eq_of_lt (lt_pow_sixteen _), -Nat.pow_eq] using digits

theorem lowestFree_eq_numbered (used : List Address) (n : Nat) :
    ∃ k, n ≤ k ∧ lowestFree used n = numbered k := by
  fun_induction lowestFree used n with
  | case1 used n _ ih =>
    obtain ⟨k, hk, h⟩ := ih
    exact ⟨k, by omega, h⟩
  | case2 used n _ => exact ⟨n, Nat.le_refl n, rfl⟩

theorem lowestFree_not_mem (used : List Address) (n : Nat) : lowestFree used n ∉ used := by
  fun_induction lowestFree used n with
  | case1 used n _ ih =>
    obtain ⟨k, hk, h⟩ := lowestFree_eq_numbered (used.erase (numbered n)) (n + 1)
    have differs : numbered k ≠ numbered n := fun same => by
      have := numbered_injective same
      omega
    rw [h] at ih ⊢
    exact fun mem => ih ((List.mem_erase_of_ne differs).2 mem)
  | case2 used n free => exact free

theorem draw_not_mem (used candidates : List Address) : (draw used candidates).1 ∉ used := by
  induction candidates with
  | nil => exact lowestFree_not_mem used 1
  | cons candidate rest ih =>
    simp only [draw]
    split
    · exact ih
    · assumption

end Address

structure MemoryObject where
  address : Address
  typeTag : Text
  value : Value
  /-- The variables that refer to the object. -/
  references : List Text

/-- The object that an assignment to the variable `name` records. -/
def MemoryObject.ofVariable (address : Address) (name : Text) (value : Value) : MemoryObject :=
  ⟨address, value.typeTag, value, [name]⟩

end Walkthrough
