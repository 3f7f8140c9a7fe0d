import Mathlib.Order.Lattice
import Mathlib.Data.List.Basic
import Mathlib.Data.List.Induction

/-!
# The first of the best

A scan of a list that keeps what is strictly better than what it has ends with the first of the best
elements (`foldl_keepBetter_eq_some_iff`), as `IsBest` says it. `firsts` keeps the first element of
each key.
-/

set_option autoImplicit false

namespace DialF.Lib

universe u v w

variable {α : Type u} {β : Type v} {κ : Type w}

section Best

variable [LinearOrder β]

/-- One element of a scan for the best. -/
def keepBetter (f : α → β) (best : Option α) (a : α) : Option α :=
  match best with
  | none => some a
  | some b => if f b < f a then some a else some b

/-- The element is the first of the best of a list. -/
def IsBest (f : α → β) (l : List α) (a : α) : Prop :=
  ∃ before behind, l = before ++ a :: behind ∧ (∀ b ∈ before, f b < f a) ∧
    ∀ c ∈ behind, f c ≤ f a

variable {f : α → β} {l : List α} {a : α}

theorem IsBest.mem (h : IsBest f l a) : a ∈ l := by
  obtain ⟨before, behind, rfl, -, -⟩ := h
  simp

theorem IsBest.le (h : IsBest f l a) {b : α} (hb : b ∈ l) : f b ≤ f a := by
  obtain ⟨before, behind, rfl, hbefore, hbehind⟩ := h
  rcases List.mem_append.1 hb with hb | hb
  · exact le_of_lt (hbefore b hb)
  · rcases List.mem_cons.1 hb with rfl | hb
    · exact le_refl _
    · exact hbehind b hb

/-- Of two cuts of a list, the element at the first one stands before the second one. -/
theorem mem_of_cut_lt {before behind before' behind' : List α} {b : α}
    (h : before ++ a :: behind = before' ++ b :: behind') (hlt : before.length < before'.length) :
    a ∈ before' := by
  have htake := congrArg (List.take before'.length) h
  rw [List.take_left, List.take_append, List.take_of_length_le (Nat.le_of_lt hlt)] at htake
  rw [← htake, List.mem_append]
  right
  obtain ⟨n, hn⟩ := Nat.exists_eq_add_of_lt hlt
  rw [show before'.length - before.length = n + 1 by omega, List.take_succ_cons]
  exact List.mem_cons_self

/-- There is no other one. -/
theorem IsBest.unique {b : α} (ha : IsBest f l a) (hb : IsBest f l b) : a = b := by
  have hab := ha.le hb.mem
  have hba := hb.le ha.mem
  obtain ⟨before, behind, rfl, hbefore, -⟩ := ha
  obtain ⟨before', behind', heq, hbefore', -⟩ := hb
  rcases Nat.lt_trichotomy before.length before'.length with hlt | hsame | hlt
  · exact absurd (lt_of_le_of_lt hab (hbefore' a (mem_of_cut_lt heq hlt))) (lt_irrefl _)
  · exact (List.cons.inj (List.append_inj heq hsame).2).1
  · exact absurd (lt_of_le_of_lt hba (hbefore b (mem_of_cut_lt heq.symm hlt))) (lt_irrefl _)

theorem keepBetter_ne_none (f : α → β) (best : Option α) (a : α) : keepBetter f best a ≠ none := by
  cases best with
  | none => exact Option.some_ne_none a
  | some b =>
      rw [keepBetter]
      split
      · exact Option.some_ne_none a
      · exact Option.some_ne_none b

theorem foldl_keepBetter_eq_none_iff (f : α → β) (l : List α) :
    l.foldl (keepBetter f) none = none ↔ l = [] := by
  constructor
  · intro h
    rcases List.eq_nil_or_concat l with rfl | ⟨l', y, rfl⟩
    · rfl
    · rw [List.concat_eq_append, List.foldl_concat] at h
      exact absurd h (keepBetter_ne_none _ _ _)
  · rintro rfl
    rfl

/-- **The scan** ends with the first of the best. -/
theorem foldl_keepBetter_eq_some_iff (f : α → β) (l : List α) (a : α) :
    l.foldl (keepBetter f) none = some a ↔ IsBest f l a := by
  induction l using List.reverseRecOn generalizing a with
  | nil => exact iff_of_false (by simp) fun h => by cases h.mem
  | append_singleton l x ih =>
      rw [List.foldl_concat]
      cases hbest : l.foldl (keepBetter f) none with
      | none =>
          have hnil := (foldl_keepBetter_eq_none_iff f l).1 hbest
          subst hnil
          show some x = some a ↔ _
          constructor
          · rintro ⟨⟩
            exact ⟨[], [], rfl, by simp, by simp⟩
          · intro h
            rw [List.mem_singleton.1 h.mem]
      | some b =>
          have hb := (ih b).1 hbest
          have hstep : ∀ c, IsBest f (l ++ [x]) c ↔ (if f b < f x then x else b) = c := by
            have hone : IsBest f (l ++ [x]) (if f b < f x then x else b) := by
              split
              · rename_i hlt
                exact ⟨l, [], rfl, fun d hd => lt_of_le_of_lt (hb.le hd) hlt, by simp⟩
              · rename_i hnot
                obtain ⟨before, behind, rfl, hbefore, hbehind⟩ := hb
                refine ⟨before, behind ++ [x], by simp, hbefore, fun c hc => ?_⟩
                rcases List.mem_append.1 hc with hc | hc
                · exact hbehind c hc
                · rw [List.mem_singleton.1 hc]
                  exact not_lt.1 hnot
            intro c
            constructor
            · exact fun hc => hone.unique hc
            · rintro rfl
              exact hone
          rw [hstep, keepBetter]
          split
          · exact Option.some_inj
          · exact Option.some_inj

end Best

section Firsts

variable [DecidableEq κ]

/-- The elements whose key has not been seen, each key at its first element. -/
def firsts (key : α → κ) (seen : List κ) : List α → List α
  | [] => []
  | a :: l => if key a ∈ seen then firsts key seen l else a :: firsts key (key a :: seen) l

variable {key : α → κ}

theorem firsts_sublist (seen : List κ) (l : List α) : (firsts key seen l).Sublist l := by
  induction l generalizing seen with
  | nil => exact List.Sublist.refl []
  | cons a l ih =>
      rw [firsts]
      split
      · exact (ih seen).cons a
      · exact (ih _).cons_cons a

/-- No key comes twice, and none that has been seen. -/
theorem nodup_firsts (seen : List κ) (l : List α) :
    ((firsts key seen l).map key).Nodup ∧ ∀ a ∈ firsts key seen l, key a ∉ seen := by
  induction l generalizing seen with
  | nil => exact ⟨List.nodup_nil, by simp [firsts]⟩
  | cons a l ih =>
      rw [firsts]
      split
      · exact ih seen
      · rename_i hnew
        obtain ⟨hnodup, hseen⟩ := ih (key a :: seen)
        refine ⟨?_, ?_⟩
        · rw [List.map_cons, List.nodup_cons]
          refine ⟨?_, hnodup⟩
          intro hmem
          obtain ⟨b, hb, hkey⟩ := List.mem_map.1 hmem
          exact hseen b hb (hkey ▸ List.mem_cons_self)
        · intro b hb
          rcases List.mem_cons.1 hb with rfl | hb
          · exact hnew
          · exact fun hmem => hseen b hb (List.mem_cons_of_mem _ hmem)

/-- Every key that has not been seen is there. -/
theorem exists_mem_firsts {seen : List κ} {l : List α} {a : α} (ha : a ∈ l) (hnew : key a ∉ seen) :
    ∃ b ∈ firsts key seen l, key b = key a := by
  induction l generalizing seen with
  | nil => cases ha
  | cons c l ih =>
      rw [firsts]
      split
      · rename_i hseen
        rcases List.mem_cons.1 ha with rfl | ha
        · exact absurd hseen hnew
        · exact ih ha hnew
      · by_cases hkey : key c = key a
        · exact ⟨c, List.mem_cons_self, hkey⟩
        · rcases List.mem_cons.1 ha with rfl | ha
          · exact absurd rfl hkey
          · have hnew' : key a ∉ key c :: seen := by simpa [hnew] using Ne.symm hkey
            obtain ⟨b, hb, hsame⟩ := ih ha hnew'
            exact ⟨b, List.mem_cons_of_mem _ hb, hsame⟩

end Firsts

end DialF.Lib
