import Mathlib.Data.List.Induction
import Mathlib.Logic.Basic

/-!
# Last write wins

A map that is written and removed from holds, for each key, what the last operation on the key has
left (`live`). `lastWhere` finds the last element of a list that meets a condition;
`lastWhere_eq_some_iff` says where it stands, `lastWhere_concat` what one more element changes.
-/

set_option autoImplicit false

namespace DialF.Lib

universe u v

/-! ## The last element that meets a condition -/

section Last

variable {α : Type u} {p : α → Bool} {l : List α} {a : α}

/-- The last element with the property. -/
def lastWhere (p : α → Bool) (l : List α) : Option α :=
  l.reverse.find? p

@[simp] theorem lastWhere_nil (p : α → Bool) : lastWhere p [] = none := rfl

theorem lastWhere_concat (p : α → Bool) (l : List α) (a : α) :
    lastWhere p (l ++ [a]) = if p a then some a else lastWhere p l := by
  rw [lastWhere, List.reverse_append, List.reverse_singleton, List.singleton_append,
    List.find?_cons]
  cases p a <;> rfl

/-- It meets the condition, and nothing behind it does. -/
theorem lastWhere_eq_some_iff :
    lastWhere p l = some a ↔
      p a = true ∧ ∃ before after, l = before ++ a :: after ∧ ∀ b ∈ after, p b = false := by
  rw [lastWhere, List.find?_eq_some_iff_append]
  refine and_congr_right fun _ => ?_
  constructor
  · rintro ⟨front, back, hl, hnot⟩
    refine ⟨back.reverse, front.reverse, ?_, ?_⟩
    · rw [← List.reverse_reverse l, hl]
      simp
    · intro b hb
      simpa using hnot b (List.mem_reverse.1 hb)
  · rintro ⟨before, after, rfl, hnot⟩
    refine ⟨after.reverse, before.reverse, by simp, ?_⟩
    intro b hb
    simpa using hnot b (List.mem_reverse.1 hb)

end Last

/-! ## Maps -/

/-- An operation on a map. -/
inductive MapOp (K : Type u) (V : Type v) where
  | write (key : K) (value : V)
  | remove (key : K)
  deriving DecidableEq

namespace MapOp

variable {K : Type u} {V : Type v}

/-- The key that the operation is about. -/
def key : MapOp K V → K
  | .write key _ => key
  | .remove key => key

/-- What it leaves at its key. -/
def value : MapOp K V → Option V
  | .write _ value => some value
  | .remove _ => none

theorem value_eq_some_iff {op : MapOp K V} {value : V} :
    op.value = some value ↔ op = .write op.key value := by
  cases op with
  | write key value' => simp [MapOp.value, MapOp.key]
  | remove key => simp [MapOp.value]

end MapOp

section Live

variable {K : Type u} {V : Type v} [DecidableEq K] {ops : List (MapOp K V)} {k : K} {v : V}

/-- What a map holds at a key after operations on it. -/
def live (ops : List (MapOp K V)) (k : K) : Option V :=
  (lastWhere (fun op => decide (op.key = k)) ops).bind MapOp.value

theorem live_eq_some_iff :
    live ops k = some v ↔
      ∃ before after, ops = before ++ .write k v :: after ∧ ∀ op ∈ after, op.key ≠ k := by
  rw [live, Option.bind_eq_some_iff]
  constructor
  · rintro ⟨op, hlast, hvalue⟩
    obtain ⟨hkey, before, after, hops, hnot⟩ := lastWhere_eq_some_iff.1 hlast
    rw [MapOp.value_eq_some_iff, of_decide_eq_true hkey] at hvalue
    exact ⟨before, after, hvalue ▸ hops, fun op hop => of_decide_eq_false (hnot op hop)⟩
  · rintro ⟨before, after, hops, hnot⟩
    refine ⟨.write k v, lastWhere_eq_some_iff.2 ⟨decide_eq_true rfl, before, after, hops, ?_⟩, rfl⟩
    intro op hop
    exact decide_eq_false (hnot op hop)

/-- A key that the map holds has been operated on. -/
theorem exists_mem_of_live (h : live ops k = some v) : ∃ op ∈ ops, op.key = k := by
  obtain ⟨before, after, rfl, -⟩ := live_eq_some_iff.1 h
  exact ⟨.write k v, by simp, rfl⟩

end Live

end DialF.Lib
