import Mathlib.Data.List.Infix

/-!
# Cutting a list at a pattern

`splitOnce` cuts a list at the first place of a pattern and `splitText` at every place. The place of
a pattern is the first one where the pattern does not occur in what stands before it and all but
the last element of the pattern (`splitOnce_append`). A pattern whose head does not occur again in
it cannot overlap itself, so that there it is enough that it does not occur before.
-/

set_option autoImplicit false

namespace DialF.Lib

universe u

variable {α : Type u} [DecidableEq α]

/-- What stands before the first place of a pattern, and what stands behind it. -/
def splitOnce (pat : List α) : List α → Option (List α × List α)
  | [] => if pat = [] then some ([], []) else none
  | c :: s =>
      match pat.isPrefixOf? (c :: s) with
      | some rest => some ([], rest)
      | none => (splitOnce pat s).map fun cut => (c :: cut.1, cut.2)

/-- The pattern stands somewhere in the list. -/
def hasText (pat s : List α) : Bool := (splitOnce pat s).isSome

/-- The pieces between the places of a pattern that is not empty, `piece` read so far of the first
and `skip` elements of the pattern still to go. -/
def splitGo (pat : List α) : Nat → List α → List α → List (List α)
  | _, piece, [] => [piece]
  | skip + 1, piece, _ :: s => splitGo pat skip piece s
  | 0, piece, c :: s =>
      if (pat.isPrefixOf? (c :: s)).isSome then piece :: splitGo pat (pat.length - 1) [] s
      else splitGo pat 0 (piece ++ [c]) s

/-- Cut at each occurrence of the pattern, from the left. -/
def splitText (pat s : List α) : List (List α) := splitGo pat 0 [] s

/-! ## The first place -/

section First

variable {pat s a b : List α}

theorem isPrefixOf?_eq_none_iff : pat.isPrefixOf? s = none ↔ ¬ pat <+: s := by
  rw [Option.eq_none_iff_forall_ne_some, ← not_exists]
  apply not_congr
  constructor
  · rintro ⟨rest, h⟩
    exact ⟨rest, List.isPrefixOf?_eq_some_iff_append_eq.1 h⟩
  · rintro ⟨rest, h⟩
    exact ⟨rest, List.isPrefixOf?_eq_some_iff_append_eq.2 h⟩

theorem isPrefixOf?_append : pat.isPrefixOf? (pat ++ b) = some b :=
  List.isPrefixOf?_eq_some_iff_append_eq.2 rfl

theorem splitOnce_eq_none_iff : splitOnce pat s = none ↔ ¬ pat <:+: s := by
  induction s with
  | nil =>
      rw [splitOnce, List.infix_nil]
      by_cases hpat : pat = [] <;> simp [hpat]
  | cons c s ih =>
      rw [splitOnce, List.infix_cons_iff, not_or, ← ih, ← isPrefixOf?_eq_none_iff]
      cases hpre : pat.isPrefixOf? (c :: s) with
      | some rest => simp
      | none => simp

theorem hasText_iff : hasText pat s = true ↔ pat <:+: s := by
  rw [hasText, Option.isSome_iff_ne_none, ne_eq, splitOnce_eq_none_iff, not_not]

theorem eq_append_of_splitOnce (h : splitOnce pat s = some (a, b)) : s = a ++ pat ++ b := by
  induction s generalizing a with
  | nil =>
      rw [splitOnce] at h
      obtain ⟨rfl, h⟩ := Option.ite_none_right_eq_some.1 h
      obtain ⟨rfl, rfl⟩ := Prod.mk.inj (Option.some.inj h)
      rfl
  | cons c s ih =>
      rw [splitOnce] at h
      cases hpre : pat.isPrefixOf? (c :: s) with
      | some rest =>
          rw [hpre] at h
          obtain ⟨rfl, rfl⟩ := Prod.mk.inj (Option.some.inj h)
          rw [List.nil_append]
          exact (List.isPrefixOf?_eq_some_iff_append_eq.1 hpre).symm
      | none =>
          rw [hpre] at h
          obtain ⟨⟨x, y⟩, hcut, heq⟩ := Option.map_eq_some_iff.1 h
          obtain ⟨rfl, rfl⟩ := Prod.mk.inj heq
          rw [ih hcut]
          simp

/-- What stands before the first place has none. -/
theorem not_infix_of_splitOnce (hpat : pat ≠ []) (h : splitOnce pat s = some (a, b)) :
    ¬ pat <:+: a := by
  induction s generalizing a with
  | nil =>
      rw [splitOnce, if_neg hpat] at h
      cases h
  | cons c s ih =>
      rw [splitOnce] at h
      cases hpre : pat.isPrefixOf? (c :: s) with
      | some rest =>
          rw [hpre] at h
          obtain ⟨rfl, rfl⟩ := Prod.mk.inj (Option.some.inj h)
          rwa [List.infix_nil]
      | none =>
          rw [hpre] at h
          obtain ⟨⟨x, y⟩, hcut, heq⟩ := Option.map_eq_some_iff.1 h
          obtain ⟨rfl, rfl⟩ := Prod.mk.inj heq
          rw [List.infix_cons_iff, not_or]
          refine ⟨?_, ih hcut⟩
          intro hhead
          apply isPrefixOf?_eq_none_iff.1 hpre
          have hs : c :: s = c :: x ++ (pat ++ y) := by
            rw [eq_append_of_splitOnce hcut]
            simp
          exact hs ▸ hhead.trans (List.prefix_append _ _)

/-- A pattern that stands at a place and not before it is found there. -/
theorem splitOnce_append (h : ¬ pat <:+: a ++ pat.dropLast) (b : List α) :
    splitOnce pat (a ++ pat ++ b) = some (a, b) := by
  induction a with
  | nil =>
      rw [List.nil_append]
      cases hs : pat ++ b with
      | nil =>
          obtain ⟨rfl, rfl⟩ := List.append_eq_nil_iff.1 hs
          rfl
      | cons c s =>
          rw [splitOnce, ← hs, isPrefixOf?_append]
  | cons c a ih =>
      have hnot : ¬ pat <+: c :: (a ++ pat ++ b) := by
        intro hpre
        -- it would end before the last element of the pattern at its place
        apply h
        have hlen : pat.length ≤ (c :: a ++ pat.dropLast).length := by
          simp only [List.length_append, List.length_cons, List.length_dropLast]
          omega
        have hlong : c :: a ++ pat.dropLast <+: c :: (a ++ pat ++ b) := by
          simp only [List.cons_append, List.append_assoc, List.cons_prefix_cons, true_and,
            List.prefix_append_right_inj]
          exact (List.dropLast_prefix pat).trans (List.prefix_append pat b)
        exact (List.prefix_of_prefix_length_le hpre hlong hlen).isInfix
      have hrest : ¬ pat <:+: a ++ pat.dropLast :=
        fun hin => h (hin.trans (List.suffix_cons c _).isInfix)
      rw [List.cons_append, List.cons_append, splitOnce, isPrefixOf?_eq_none_iff.2 hnot, ih hrest]
      rfl

omit [DecidableEq α] in
/-- A pattern whose head occurs only there does not overlap itself. -/
theorem not_infix_append_dropLast {c : α} {p : List α} (hc : c ∉ p) (h : ¬ c :: p <:+: a) :
    ¬ c :: p <:+: a ++ (c :: p).dropLast := by
  rintro ⟨x, y, hxy⟩
  have hdrop : (c :: p).dropLast.length = p.length := by simp
  rw [List.append_assoc] at hxy
  rcases List.append_eq_append_iff.1 hxy with ⟨m, rfl, hm⟩ | ⟨m, rfl, hm⟩
  · cases m with
    | nil =>
        have hlen := congrArg List.length hm
        simp only [List.nil_append, List.length_append, List.length_cons, hdrop] at hlen
        omega
    | cons d m =>
        -- it begins in the part before; it ends there, or its head comes again
        obtain ⟨rfl, htail⟩ := List.cons.inj hm
        rcases List.append_eq_append_iff.1 htail with ⟨l, rfl, -⟩ | ⟨l, rfl, hl⟩
        · apply h
          exact ⟨x, l, by simp⟩
        · cases l with
          | nil =>
              apply h
              exact ⟨x, [], by simp⟩
          | cons e l =>
              cases hp : m ++ e :: l with
              | nil => simp at hp
              | cons f q =>
                  rw [hp, List.dropLast_cons_cons, List.cons_append] at hl
                  obtain ⟨rfl, -⟩ := List.cons.inj hl
                  exact hc (by simp)
  · have hlen := congrArg List.length hm
    simp only [List.length_append, List.length_cons, hdrop] at hlen
    omega

end First

/-! ## Lists in which no place begins -/

section Clear

variable {pat a u x b : List α}

/-- No place of the pattern begins in `x`, whatever stands behind it. -/
def Clear (pat x : List α) : Prop :=
  ∀ s, splitOnce pat (x ++ s) = (splitOnce pat s).map fun cut => (x ++ cut.1, cut.2)

theorem clear_nil (pat : List α) : Clear pat [] := by
  intro s
  simp

theorem Clear.append (hx : Clear pat x) (hu : Clear pat u) : Clear pat (x ++ u) := by
  intro s
  rw [List.append_assoc, hx, hu, Option.map_map]
  simp [Function.comp_def]

theorem clear_cons {c : α} (hc : ∀ s, ¬ pat <+: c :: (u ++ s)) (hu : Clear pat u) :
    Clear pat (c :: u) := by
  intro s
  rw [List.cons_append, splitOnce, isPrefixOf?_eq_none_iff.2 (hc s), hu, Option.map_map]
  rfl

/-- No end of the list goes on to the pattern, or the pattern to it. -/
def Apart (pat u : List α) : Prop := ∀ t ∈ u.tails, t ≠ [] → ¬ pat <+: t ∧ ¬ t <+: pat

instance (pat u : List α) : Decidable (Apart pat u) :=
  inferInstanceAs (Decidable (∀ t ∈ u.tails, t ≠ [] → ¬ pat <+: t ∧ ¬ t <+: pat))

/-- No end of the pattern but itself goes on to the list, or the list to it. -/
def EndsApart (pat u : List α) : Prop :=
  ∀ t ∈ pat.tails, t ≠ [] → t ≠ pat → ¬ t <+: u ∧ ¬ u <+: t

instance (pat u : List α) : Decidable (EndsApart pat u) :=
  inferInstanceAs (Decidable (∀ t ∈ pat.tails, t ≠ [] → t ≠ pat → ¬ t <+: u ∧ ¬ u <+: t))

theorem Apart.clear (h : Apart pat u) : Clear pat u := by
  induction u with
  | nil => exact clear_nil pat
  | cons c u ih =>
      obtain ⟨hpat, hlist⟩ := h (c :: u) (by simp) (by simp)
      apply clear_cons
      · intro s hpre
        rcases Nat.le_total pat.length (c :: u).length with hlen | hlen
        · exact hpat (List.prefix_of_prefix_length_le hpre (List.prefix_append (c :: u) s) hlen)
        · exact hlist (List.prefix_of_prefix_length_le (List.prefix_append (c :: u) s) hpre hlen)
      · apply ih
        intro t ht
        exact h t (by simp [ht])

/-- Behind a list without the pattern stands one with which no end of the pattern agrees. -/
theorem clear_append (ha : ¬ pat <:+: a) (hends : EndsApart pat u) (hu : Clear pat u) :
    Clear pat (a ++ u) := by
  induction a with
  | nil => exact hu
  | cons c a ih =>
      rw [List.cons_append]
      apply clear_cons
      · intro s hpre
        by_cases hlen : pat.length ≤ (c :: a).length
        · exact ha (List.prefix_of_prefix_length_le hpre ⟨u ++ s, by simp⟩ hlen).isInfix
        · -- an end of the pattern would stand behind
          have hhead : c :: a <+: pat :=
            List.prefix_of_prefix_length_le ⟨u ++ s, by simp⟩ hpre (Nat.le_of_not_le hlen)
          obtain ⟨t, rfl⟩ := hhead
          have ht : t <+: u ++ s := by
            have hcut : c :: a ++ t <+: c :: a ++ (u ++ s) := by simpa using hpre
            rwa [List.prefix_append_right_inj] at hcut
          have hne : t ≠ [] := by
            rintro rfl
            simp at hlen
          have hproper : t ≠ c :: a ++ t := by
            intro heq
            have := congrArg List.length heq
            simp only [List.length_append, List.length_cons] at this
            omega
          obtain ⟨htu, hut⟩ := hends t ((List.mem_tails _ _).2 (List.suffix_append _ _)) hne hproper
          rcases Nat.le_total t.length u.length with hle | hle
          · exact htu (List.prefix_of_prefix_length_le ht (List.prefix_append u s) hle)
          · exact hut (List.prefix_of_prefix_length_le (List.prefix_append u s) ht hle)
      · exact ih fun h => ha (h.trans (List.suffix_cons c a).isInfix)

/-- Without its head a pattern does not begin. -/
theorem clear_of_not_mem {c : α} {p : List α} (hc : c ∉ u) : Clear (c :: p) u := by
  apply Apart.clear
  intro t ht hne
  obtain ⟨d, t, rfl⟩ := List.exists_cons_of_ne_nil hne
  have hd : d ∈ u := ((List.mem_tails _ _).1 ht).subset (by simp)
  constructor
  · intro hpre
    obtain ⟨rfl, -⟩ := List.cons_prefix_cons.1 hpre
    exact hc hd
  · intro hpre
    obtain ⟨rfl, -⟩ := List.cons_prefix_cons.1 hpre
    exact hc hd

/-- What stands behind starts with an element that is not in the pattern. -/
theorem clear_append_cons {d : α} (hd : d ∉ pat) (ha : ¬ pat <:+: a) (hu : Clear pat (d :: u)) :
    Clear pat (a ++ d :: u) := by
  apply clear_append ha _ hu
  intro t ht hne hproper
  obtain ⟨e, t, rfl⟩ := List.exists_cons_of_ne_nil hne
  have he : e ∈ pat := ((List.mem_tails _ _).1 ht).subset (by simp)
  constructor
  · intro hpre
    obtain ⟨rfl, -⟩ := List.cons_prefix_cons.1 hpre
    exact hd he
  · intro hpre
    obtain ⟨rfl, -⟩ := List.cons_prefix_cons.1 hpre
    exact hd he

theorem Clear.splitOnce_append (hx : Clear pat x) (hpat : pat ≠ []) (b : List α) :
    splitOnce pat (x ++ (pat ++ b)) = some (x, b) := by
  obtain ⟨c, p, rfl⟩ := List.exists_cons_of_ne_nil hpat
  rw [hx, List.cons_append, splitOnce, ← List.cons_append, isPrefixOf?_append]
  simp

theorem Clear.not_isInfix (hx : Clear pat x) (hpat : pat ≠ []) : ¬ pat <:+: x := by
  rw [← splitOnce_eq_none_iff, ← List.append_nil x, hx, splitOnce, if_neg hpat]
  rfl

end Clear

/-! ## Every place -/

section Every

variable {pat s a b : List α}

theorem splitGo_skip (piece : List α) (skip : List α) :
    splitGo pat skip.length piece (skip ++ b) = splitGo pat 0 piece b := by
  induction skip with
  | nil => rfl
  | cons c skip ih =>
      rw [List.length_cons, List.cons_append, splitGo]
      exact ih

theorem splitGo_eq (hpat : pat ≠ []) (piece : List α) :
    splitGo pat 0 piece s =
      match splitOnce pat s with
      | none => [piece ++ s]
      | some (a, b) => (piece ++ a) :: splitText pat b := by
  induction s generalizing piece with
  | nil => simp [splitGo, splitOnce, hpat]
  | cons c s ih =>
      rw [splitGo, splitOnce]
      cases hpre : pat.isPrefixOf? (c :: s) with
      | some rest =>
          obtain ⟨d, p, rfl⟩ := List.exists_cons_of_ne_nil hpat
          have heq := List.isPrefixOf?_eq_some_iff_append_eq.1 hpre
          rw [List.cons_append] at heq
          obtain ⟨rfl, rfl⟩ := List.cons.inj heq
          simp only [Option.isSome_some, if_true, List.length_cons, Nat.add_sub_cancel,
            List.append_nil]
          rw [splitGo_skip, splitText]
      | none =>
          simp only [Option.isSome_none, Bool.false_eq_true, if_false]
          rw [ih]
          cases splitOnce pat s with
          | none => simp
          | some cut => simp

theorem splitText_eq_singleton (hpat : pat ≠ []) (h : ¬ pat <:+: s) : splitText pat s = [s] := by
  rw [splitText, splitGo_eq hpat, splitOnce_eq_none_iff.2 h]
  rfl

theorem splitText_of_clear {x : List α} (hpat : pat ≠ []) (hx : Clear pat x) (b : List α) :
    splitText pat (x ++ (pat ++ b)) = x :: splitText pat b := by
  rw [splitText, splitGo_eq hpat, hx.splitOnce_append hpat]
  rfl

theorem mem_splitText {x : List α} (hpat : pat ≠ []) (hx : x ∈ splitText pat s) :
    x <:+: s ∧ ¬ pat <:+: x := by
  generalize hn : s.length = n
  induction n using Nat.strong_induction_on generalizing s with
  | _ n ih =>
      rw [splitText, splitGo_eq hpat] at hx
      cases hcut : splitOnce pat s with
      | none =>
          rw [hcut] at hx
          obtain rfl := List.mem_singleton.1 hx
          exact ⟨List.infix_rfl, splitOnce_eq_none_iff.1 hcut⟩
      | some cut =>
          obtain ⟨a, b⟩ := cut
          rw [hcut] at hx
          have hs := eq_append_of_splitOnce hcut
          rcases List.mem_cons.1 hx with rfl | hx
          · exact ⟨⟨[], pat ++ b, by simp [hs]⟩, not_infix_of_splitOnce hpat hcut⟩
          · have hshort : b.length < n := by
              have hpos := List.length_pos_iff.2 hpat
              rw [← hn, hs]
              simp only [List.length_append]
              omega
            obtain ⟨hin, hnot⟩ := ih b.length hshort hx rfl
            exact ⟨hin.trans ⟨a ++ pat, [], by simp [hs]⟩, hnot⟩

/-- The first piece. -/
theorem head?_splitText (hpat : pat ≠ []) :
    (splitText pat s).head? = some (((splitOnce pat s).map Prod.fst).getD s) := by
  rw [splitText, splitGo_eq hpat]
  cases splitOnce pat s <;> rfl

end Every

end DialF.Lib
