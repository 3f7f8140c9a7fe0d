import Mathlib.Data.List.Basic

/-!
# A notification cell

A cell on which tasks wait. `notifyWaiters` wakes the tasks that wait at that moment and leaves
nothing behind; `notifyOne` wakes the one that has waited longest, or leaves a permit for the next
one to come. A task that gives its wait up hands a notification meant for one task on.

A woken task is not done at once: it has its signal, and its wait completes when it runs again
(`complete`). A task is enrolled from the beginning of its wait to its end, waiting or woken; the
lemmas say what each operation does to the enrolled and to the woken tasks.
-/

set_option autoImplicit false

namespace DialF.Lib

universe u

/-- How a waiting task was woken. -/
inductive Signal where
  | one
  | all
  deriving DecidableEq

/-- A notification cell: its permit, the tasks that wait, the longest first, and those woken. -/
structure Notify (ι : Type u) where
  permit : Bool
  waiters : List ι
  woken : List (ι × Signal)
  deriving DecidableEq

namespace Notify

section Wake

variable {ι : Type u}

/-- A cell that nobody has used. -/
def new : Notify ι := ⟨false, [], []⟩

/-- A task begins to wait, where it finds no permit; the flag says whether it found one. -/
def wait (n : Notify ι) (i : ι) : Notify ι × Bool :=
  if n.permit then ({ n with permit := false }, true)
  else ({ n with waiters := n.waiters ++ [i] }, false)

/-- `notify_waiters`: all who wait are woken, and no permit is left. -/
def notifyWaiters (n : Notify ι) : Notify ι :=
  { n with waiters := [], woken := n.woken ++ n.waiters.map fun i => (i, .all) }

/-- `notify_one`: the first who waits is woken, or a permit is left. -/
def notifyOne (n : Notify ι) : Notify ι :=
  match n.waiters with
  | [] => { n with permit := true }
  | i :: rest => { n with waiters := rest, woken := n.woken ++ [(i, .one)] }

/-- The task has a signal that it has not taken yet. -/
def IsWoken (n : Notify ι) (i : ι) : Prop := i ∈ n.woken.map Prod.fst

/-- The task waits, or has been woken and not run since. -/
def Enrolled (n : Notify ι) (i : ι) : Prop := i ∈ n.waiters ∨ n.IsWoken i

variable {n : Notify ι} {i j : ι}

@[simp] theorem not_enrolled_new : ¬ (new : Notify ι).Enrolled i := by
  simp [new, Enrolled, IsWoken]

theorem wait_of_permit (h : n.permit = true) (i : ι) :
    n.wait i = ({ n with permit := false }, true) := by
  rw [wait, if_pos h]

theorem wait_of_not_permit (h : n.permit = false) (i : ι) :
    n.wait i = ({ n with waiters := n.waiters ++ [i] }, false) := by
  rw [wait, if_neg (by simp [h])]

theorem isWoken_wait : (n.wait i).1.IsWoken j ↔ n.IsWoken j := by
  cases h : n.permit with
  | true => rw [wait_of_permit h]; exact Iff.rfl
  | false => rw [wait_of_not_permit h]; exact Iff.rfl

theorem enrolled_wait : (n.wait i).1.Enrolled j ↔ n.Enrolled j ∨ (n.permit = false ∧ j = i) := by
  cases h : n.permit with
  | true =>
      rw [wait_of_permit h]
      simp [Enrolled, IsWoken]
  | false =>
      rw [wait_of_not_permit h]
      simp only [Enrolled, IsWoken, List.mem_append, List.mem_singleton, true_and]
      exact or_right_comm

/-- `notifyWaiters` leaves every enrolled task woken. -/
theorem isWoken_notifyWaiters : n.notifyWaiters.IsWoken j ↔ n.Enrolled j := by
  simp [notifyWaiters, IsWoken, Enrolled, Function.comp_def, or_comm]

theorem enrolled_notifyWaiters : n.notifyWaiters.Enrolled j ↔ n.Enrolled j := by
  rw [Enrolled, isWoken_notifyWaiters]
  simp [notifyWaiters]

theorem isWoken_notifyOne (h : n.IsWoken j) : n.notifyOne.IsWoken j := by
  unfold notifyOne
  cases hw : n.waiters with
  | nil => exact h
  | cons k rest =>
      simp only [IsWoken, List.map_append]
      exact List.mem_append_left _ h

theorem enrolled_notifyOne : n.notifyOne.Enrolled j ↔ n.Enrolled j := by
  unfold notifyOne
  cases hw : n.waiters with
  | nil => simp [Enrolled, IsWoken, hw]
  | cons k rest =>
      simp only [Enrolled, IsWoken, hw, List.map_append, List.map_cons, List.map_nil,
        List.mem_append, List.mem_cons, List.not_mem_nil, or_false]
      constructor
      · rintro (h | h | h)
        · exact Or.inl (Or.inr h)
        · exact Or.inr h
        · exact Or.inl (Or.inl h)
      · rintro ((h | h) | h)
        · exact Or.inr (Or.inr h)
        · exact Or.inl h
        · exact Or.inr (Or.inl h)

end Wake

section Leave

variable {ι : Type u} [DecidableEq ι] {n : Notify ι} {i j : ι}

instance (n : Notify ι) (i : ι) : Decidable (n.IsWoken i) := inferInstanceAs (Decidable (i ∈ _))

/-- The wait of a task is over. -/
def complete (n : Notify ι) (i : ι) : Notify ι :=
  { n with waiters := n.waiters.filter (· ≠ i), woken := n.woken.filter fun p => p.1 ≠ i }

/-- A task gives its wait up, woken or not. -/
def cancel (n : Notify ι) (i : ι) : Notify ι :=
  if (i, .one) ∈ n.woken then (n.complete i).notifyOne else n.complete i

theorem isWoken_complete : (n.complete i).IsWoken j ↔ n.IsWoken j ∧ j ≠ i := by
  simp only [complete, IsWoken, List.mem_map, List.mem_filter, decide_eq_true_eq]
  constructor
  · rintro ⟨p, ⟨hp, hne⟩, rfl⟩
    exact ⟨⟨p, hp, rfl⟩, hne⟩
  · rintro ⟨⟨p, hp, rfl⟩, hne⟩
    exact ⟨p, ⟨hp, hne⟩, rfl⟩

theorem enrolled_complete : (n.complete i).Enrolled j ↔ n.Enrolled j ∧ j ≠ i := by
  rw [Enrolled, Enrolled, isWoken_complete, or_and_right]
  simp [complete]

theorem isWoken_cancel (hne : j ≠ i) (h : n.IsWoken j) : (n.cancel i).IsWoken j := by
  have hcomplete : (n.complete i).IsWoken j := isWoken_complete.2 ⟨h, hne⟩
  unfold cancel
  split
  · exact isWoken_notifyOne hcomplete
  · exact hcomplete

theorem enrolled_cancel : (n.cancel i).Enrolled j ↔ n.Enrolled j ∧ j ≠ i := by
  unfold cancel
  split
  · rw [enrolled_notifyOne, enrolled_complete]
  · exact enrolled_complete

end Leave

end Notify

end DialF.Lib
