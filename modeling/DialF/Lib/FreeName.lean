import Mathlib.Data.List.Nodup
import Mathlib.Data.List.Perm.Subperm
import DialF.Lib.Text

/-!
# Free names

A name that is taken is numbered, and numbered again until it is free. Numbered names are distinct,
and among more names than are taken one is free: the search ends at the first of them
(`firstFree_spec`).
-/

set_option autoImplicit false

namespace DialF.Lib

universe u

variable {α : Type u}

/-- The first number, from `n` on, whose name is not taken; so many names are tried at most. -/
def firstFree (taken : α → Bool) (name : Nat → α) : Nat → Nat → Nat
  | 0, n => n
  | fuel + 1, n => if taken (name n) then firstFree taken name fuel (n + 1) else n

section FirstFree

variable {taken : α → Bool} {name : Nat → α} {keys : List α}

/-- Every name that is passed is taken. -/
theorem taken_of_lt_firstFree {fuel n m : Nat} (hn : n ≤ m)
    (hm : m < firstFree taken name fuel n) : taken (name m) = true := by
  induction fuel generalizing n with
  | zero => exact absurd hm (Nat.not_lt_of_le hn)
  | succ fuel ih =>
      rw [firstFree] at hm
      split at hm
      · rename_i htaken
        rcases Nat.eq_or_lt_of_le hn with rfl | hlt
        · exact htaken
        · exact ih hlt hm
      · exact absurd hm (Nat.not_lt_of_le hn)

/-- The search ends at a free name, or after so many names. -/
theorem firstFree_free_or (fuel n : Nat) :
    taken (name (firstFree taken name fuel n)) = false ∨
      firstFree taken name fuel n = n + fuel := by
  induction fuel generalizing n with
  | zero => exact Or.inr rfl
  | succ fuel ih =>
      rw [firstFree]
      split
      · rcases ih (n + 1) with hfree | hend
        · exact Or.inl hfree
        · refine Or.inr ?_
          rw [hend]
          omega
      · rename_i hfree
        exact Or.inl (eq_false_of_ne_true hfree)

/-- **The first free name**, where as many names are tried as there are names that may be taken. -/
theorem firstFree_spec (taken : α → Bool) (hname : Function.Injective name)
    (hkeys : ∀ n, taken (name n) = true → name n ∈ keys) {fuel : Nat} (hfuel : keys.length ≤ fuel)
    (n : Nat) :
    taken (name (firstFree taken name fuel n)) = false ∧
      ∀ m, n ≤ m → m < firstFree taken name fuel n → taken (name m) = true := by
  refine ⟨?_, fun m hn hm => taken_of_lt_firstFree hn hm⟩
  by_contra htaken
  rw [Bool.not_eq_false] at htaken
  have hend : firstFree taken name fuel n = n + fuel :=
    (firstFree_free_or fuel n).resolve_left (by rw [htaken]; simp)
  -- the names that were tried and the last one are one more than there are keys
  have hall : (List.range' n (fuel + 1)).map name ⊆ keys := by
    intro k hk
    obtain ⟨m, hm, rfl⟩ := List.mem_map.1 hk
    rw [List.mem_range'_1] at hm
    apply hkeys
    by_cases hlast : m = n + fuel
    · rw [hlast, ← hend]
      exact htaken
    · exact taken_of_lt_firstFree hm.1 (by rw [hend]; omega)
  have hnodup : ((List.range' n (fuel + 1)).map name).Nodup :=
    List.Nodup.map hname List.nodup_range'
  have hlength := (hnodup.subperm hall).length_le
  rw [List.length_map, List.length_range'] at hlength
  omega

end FirstFree

/-! ## Numbered names -/

/-- A number in decimal. -/
def numeral (n : Nat) : Str := Nat.toDigits 10 n

theorem numeral_injective : Function.Injective numeral :=
  Function.LeftInverse.injective (g := fun s => Nat.ofDigitChars 10 s 0)
    fun _ => Nat.ofDigitChars_ten_toDigits

theorem isDigit_of_mem_numeral {c : Char} {n : Nat} (h : c ∈ numeral n) : c.isDigit = true :=
  Nat.isDigit_of_mem_toDigits (by decide) (by decide) h

end DialF.Lib
