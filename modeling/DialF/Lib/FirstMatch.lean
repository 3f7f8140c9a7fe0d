import Mathlib.Data.Fintype.EquivFin
import Mathlib.Data.List.Basic

/-!
# First match decides

Rules in order, and a default: a packet gets the verdict of the first rule that it hits, or the
default. `firstMatch_eq_false_iff` says where a packet is turned away. A rule may be limited to one
interface; `forall_firstMatch_iff` says when packets are let in whatever interface they arrive on,
with no interface in the condition: there are more interfaces than rules, so that one is left which
no rule names.
-/

set_option autoImplicit false

namespace DialF.Lib

universe u v

variable {ρ : Type u} {ι : Type v}

/-- The verdict of the first rule that is hit, or the default. -/
def firstMatch (hits opens : ρ → Bool) (default : Bool) : List ρ → Bool
  | [] => default
  | r :: rs => if hits r then opens r else firstMatch hits opens default rs

/-- A packet is turned away by a rule that it hits behind ones that it does not hit, or by the
default. -/
theorem firstMatch_eq_false_iff {hits opens : ρ → Bool} {default : Bool} {rs : List ρ} :
    firstMatch hits opens default rs = false ↔
      (∃ before r after, rs = before ++ r :: after ∧ (∀ q ∈ before, hits q = false) ∧
        hits r = true ∧ opens r = false) ∨
      (default = false ∧ ∀ r ∈ rs, hits r = false) := by
  induction rs with
  | nil => simp [firstMatch]
  | cons q rs ih =>
      rw [firstMatch]
      by_cases hq : hits q = true
      · rw [if_pos hq]
        constructor
        · intro h
          exact Or.inl ⟨[], q, rs, rfl, by simp, hq, h⟩
        · rintro (⟨before, r, after, hsplit, hbefore, -, hopens⟩ | ⟨-, hall⟩)
          · cases before with
            | nil =>
                obtain ⟨rfl, -⟩ := List.cons.inj hsplit
                exact hopens
            | cons p before =>
                -- the rule would be behind the head, which is hit
                obtain ⟨rfl, -⟩ := List.cons.inj hsplit
                simp [hbefore q (by simp)] at hq
          · simp [hall q (by simp)] at hq
      · have hq' : hits q = false := by simpa using hq
        rw [if_neg hq, ih]
        constructor
        · rintro (⟨before, r, after, rfl, hbefore, hr⟩ | ⟨hdefault, hall⟩)
          · refine Or.inl ⟨q :: before, r, after, rfl, ?_, hr⟩
            simpa [hq'] using hbefore
          · exact Or.inr ⟨hdefault, by simpa [hq'] using hall⟩
        · rintro (⟨before, r, after, hsplit, hbefore, hr, hopens⟩ | ⟨hdefault, hall⟩)
          · cases before with
            | nil =>
                obtain ⟨rfl, -⟩ := List.cons.inj hsplit
                exact absurd hr hq
            | cons p before =>
                obtain ⟨rfl, rfl⟩ := List.cons.inj hsplit
                exact Or.inl ⟨before, r, after, rfl, fun q h => hbefore q (by simp [h]), hr, hopens⟩
          · exact Or.inr ⟨hdefault, fun r h => hall r (by simp [h])⟩

section Interfaces

variable [DecidableEq ι]

/-- The rule is for every interface, or for this one. -/
def reaches (only : ρ → Option ι) (i : ι) (r : ρ) : Bool :=
  only r == none || only r == some i

/-- No interface is let in by everything: a rule that does not open comes before those that could
have decided, or nothing decides for the other interfaces and the default is to turn away. -/
def Blocked (covers : ρ → Bool) (only : ρ → Option ι) (opens : ρ → Bool) (default : Bool)
    (rs : List ρ) : Prop :=
  (∃ before r after, rs = before ++ r :: after ∧ covers r = true ∧ opens r = false ∧
    ∀ q ∈ before, covers q = true → only q ≠ none ∧ only q ≠ only r) ∨
  (default = false ∧ ∀ r ∈ rs, covers r = true → only r ≠ none)

variable {covers opens : ρ → Bool} {only : ρ → Option ι} {default : Bool} {rs : List ρ}

theorem reaches_eq_true_iff {i : ι} {r : ρ} :
    reaches only i r = true ↔ only r = none ∨ only r = some i := by
  simp [reaches]

/-- An interface that no rule is limited to. -/
theorem exists_unnamed [Infinite ι] (only : ρ → Option ι) (rs : List ρ) :
    ∃ i : ι, ∀ r ∈ rs, only r ≠ some i := by
  obtain ⟨i, hi⟩ := Infinite.exists_notMem_finset (rs.filterMap only).toFinset
  refine ⟨i, ?_⟩
  intro r hr hsome
  apply hi
  rw [List.mem_toFinset, List.mem_filterMap]
  exact ⟨r, hr, hsome⟩

/-- **First match over every interface.** -/
theorem forall_firstMatch_iff [Infinite ι] :
    (∀ i, firstMatch (fun r => covers r && reaches only i r) opens default rs = true) ↔
      ¬ Blocked covers only opens default rs := by
  have hmiss : ∀ {i : ι} {q : ρ}, (covers q && reaches only i q) = false ↔
      (covers q = true → only q ≠ none ∧ only q ≠ some i) := by
    intro i q
    rw [Bool.and_eq_false_imp, ← Bool.not_eq_true (reaches only i q), reaches_eq_true_iff, not_or]
  rw [← not_iff_not, not_not, not_forall]
  simp only [Bool.not_eq_true, firstMatch_eq_false_iff, hmiss]
  constructor
  · rintro ⟨i, ⟨before, r, after, hsplit, hbefore, hr, hopens⟩ | ⟨hdefault, hall⟩⟩
    · obtain ⟨hcovers, hreaches⟩ := Bool.and_eq_true_iff.1 hr
      refine Or.inl ⟨before, r, after, hsplit, hcovers, hopens, ?_⟩
      intro q hq hcov
      obtain ⟨hnone, hsome⟩ := hbefore q hq hcov
      refine ⟨hnone, ?_⟩
      rcases reaches_eq_true_iff.1 hreaches with heq | heq
      · rwa [heq]
      · rwa [heq]
    · exact Or.inr ⟨hdefault, fun r hr hcov => (hall r hr hcov).1⟩
  · rintro (⟨before, r, after, hsplit, hcovers, hopens, hbefore⟩ | ⟨hdefault, hall⟩)
    · cases honly : only r with
      | some i =>
          refine ⟨i, Or.inl ⟨before, r, after, hsplit, ?_, ?_, hopens⟩⟩
          · intro q hq hcov
            exact honly ▸ hbefore q hq hcov
          · simp [hcovers, reaches, honly]
      | none =>
          -- on an interface that no rule names, the ones before are not hit
          obtain ⟨i, hi⟩ := exists_unnamed only rs
          refine ⟨i, Or.inl ⟨before, r, after, hsplit, ?_, ?_, hopens⟩⟩
          · intro q hq hcov
            exact ⟨(hbefore q hq hcov).1, hi q (by simp [hsplit, hq])⟩
          · simp [hcovers, reaches, honly]
    · obtain ⟨i, hi⟩ := exists_unnamed only rs
      exact ⟨i, Or.inr ⟨hdefault, fun r hr hcov => ⟨hall r hr hcov, hi r hr⟩⟩⟩

omit [DecidableEq ι] in
/-- Where no rule for every interface opens, and the default turns away, some interface is turned
away. -/
theorem blocked_of_not_opens
    (h : ∀ r ∈ rs, covers r = true → only r = none → opens r = false) :
    Blocked covers only opens false rs := by
  cases hfind : rs.find? fun r => covers r && (only r).isNone with
  | none =>
      refine Or.inr ⟨rfl, ?_⟩
      intro r hr hcovers hnone
      have hnot := List.find?_eq_none.1 hfind r hr
      simp [hcovers, hnone] at hnot
  | some r =>
      -- the first such rule turns away, and those before it are limited
      obtain ⟨hr, before, after, hsplit, hbefore⟩ := List.find?_eq_some_iff_append.1 hfind
      obtain ⟨hcovers, hnone⟩ := Bool.and_eq_true_iff.1 hr
      rw [Option.isNone_iff_eq_none] at hnone
      refine Or.inl ⟨before, r, after, hsplit, hcovers, h r (by simp [hsplit]) hcovers hnone, ?_⟩
      intro q hq hcov
      have hlimited : only q ≠ none := by
        simpa [hcov, Option.isSome_iff_ne_none] using hbefore q hq
      exact ⟨hlimited, hnone ▸ hlimited⟩

end Interfaces

end DialF.Lib
