import Mathlib.Data.List.Perm.Basic

/-!
# Lists as tables

Sockets, tasks and commands are lists of entries that are known by their positions: an entry is
replaced in place, and new ones come at the end. The lemmas say what is found at a position after
that (`getElem?_set_cases`, `getElem?_concat_cases`), which entries there still are, and what is
left of an absence of duplicates when entries are moved.
-/

set_option autoImplicit false

namespace DialF.Lib

universe u v

section Positions

variable {α : Type u} {l : List α} {i j : Nat} {x y : α}

/-- An entry of a table in which one has been replaced is that one, or stands where it stood. -/
theorem getElem?_set_cases (h : (l.set i x)[j]? = some y) :
    (j = i ∧ y = x) ∨ (j ≠ i ∧ l[j]? = some y) := by
  by_cases hij : i = j
  · subst hij
    have hlt : i < (l.set i x).length := (List.getElem?_eq_some_iff.1 h).1
    rw [List.getElem?_set_self (List.length_set ▸ hlt)] at h
    exact Or.inl ⟨rfl, (Option.some.inj h).symm⟩
  · rw [List.getElem?_set_ne hij] at h
    exact Or.inr ⟨Ne.symm hij, h⟩

theorem getElem?_set_self_of_some (h : l[i]? = some y) : (l.set i x)[i]? = some x :=
  List.getElem?_set_self (List.getElem?_eq_some_iff.1 h).1

/-- An entry of a table with a new one stands where it stood, or is the new one at the end. -/
theorem getElem?_concat_cases (h : (l ++ [x])[j]? = some y) :
    l[j]? = some y ∨ (j = l.length ∧ y = x) := by
  by_cases hlt : j < l.length
  · exact Or.inl ((List.getElem?_append_left hlt).symm.trans h)
  · have hge : l.length ≤ j := Nat.le_of_not_lt hlt
    rw [List.getElem?_append_right hge, List.getElem?_singleton] at h
    split at h
    · rename_i hzero
      exact Or.inr ⟨by omega, (Option.some.inj h).symm⟩
    · simp at h

theorem getElem?_concat_of_some (h : l[j]? = some y) : (l ++ [x])[j]? = some y :=
  (List.getElem?_append_left (List.getElem?_eq_some_iff.1 h).1).trans h

end Positions

section Entries

variable {α : Type u} {l : List α} {i : Nat} {x y : α} {p : α → Prop}

/-- The entry that is replaced was not the one with `p`. -/
theorem exists_mem_set_of_not (hi : l[i]? = some x) (hp : ¬ p x) (hex : ∃ z ∈ l, p z) :
    ∃ z ∈ l.set i y, p z := by
  obtain ⟨z, hz, hpz⟩ := hex
  obtain ⟨j, hj⟩ := List.getElem?_of_mem hz
  refine ⟨z, List.mem_of_getElem? (i := j) ?_, hpz⟩
  have hij : i ≠ j := by
    rintro rfl
    obtain rfl := Option.some.inj (hi.symm.trans hj)
    exact hp hpz
  rw [List.getElem?_set_ne hij]
  exact hj

theorem exists_mem_of_exists_set (hp : ¬ p y) (hex : ∃ z ∈ l.set i y, p z) : ∃ z ∈ l, p z := by
  obtain ⟨z, hz, hpz⟩ := hex
  rcases List.mem_or_eq_of_mem_set hz with hold | rfl
  · exact ⟨z, hold, hpz⟩
  · exact absurd hpz hp

theorem exists_mem_set_self (hi : l[i]? = some x) (hp : p y) : ∃ z ∈ l.set i y, p z := by
  obtain ⟨hlt, -⟩ := List.getElem?_eq_some_iff.1 hi
  exact ⟨y, List.mem_set hlt y, hp⟩

end Entries

section Duplicates

variable {α : Type u} {β : Type v} {l l' : List α}

/-- Part of a list, in any order, has no duplicates where the list has none. -/
theorem nodup_of_subperm (h : l.Subperm l') (hl : l'.Nodup) : l.Nodup := by
  obtain ⟨m, hperm, hsub⟩ := h
  exact hperm.nodup_iff.1 (hl.sublist hsub)

theorem subperm_map (f : α → β) (h : l.Subperm l') : (l.map f).Subperm (l'.map f) := by
  obtain ⟨m, hperm, hsub⟩ := h
  exact ⟨m.map f, hperm.map f, hsub.map f⟩

end Duplicates

end DialF.Lib
