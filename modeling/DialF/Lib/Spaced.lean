import DialF.Lib.Substring
import DialF.Lib.Text

/-!
# Words with single blanks between them

`spaced` writes words with a blank between any two of them. What a pattern finds in such a text it
finds in the words: a pattern without a blank in one of them (`infix_spaced_iff`), one with a blank
across two that stand side by side (`infix_pair_spaced_iff`), and one at the end in the last word
(`suffix_spaced_iff`). White space around the text makes no difference to a pattern that neither
starts nor ends with any (`infix_margins_iff`), and is trimmed off (`trim_margins`).
-/

set_option autoImplicit false

namespace DialF.Lib

/-- Words with a blank between any two of them. -/
def spaced : List Str → Str
  | [] => []
  | [w] => w
  | w :: w' :: ws => w ++ ' ' :: spaced (w' :: ws)

/-! ## Patterns around an element -/

section Patterns

variable {α : Type} {p q a b s : List α} {c : α}

/-- A pattern without an element stands on one side of it. -/
theorem infix_append_cons_iff (hc : c ∉ p) : p <:+: a ++ c :: b ↔ p <:+: a ∨ p <:+: b := by
  constructor
  · rintro ⟨x, y, hxy⟩
    rw [List.append_assoc] at hxy
    rcases List.append_eq_append_iff.1 hxy with ⟨m, rfl, hm⟩ | ⟨m, rfl, hm⟩
    · rcases List.append_eq_append_iff.1 hm with ⟨l, rfl, hl⟩ | ⟨l, rfl, hl⟩
      · exact Or.inl ⟨x, l, by simp⟩
      · cases l with
        | nil => exact Or.inl ⟨x, [], by simp⟩
        | cons d l =>
            obtain ⟨rfl, -⟩ := List.cons.inj hl
            exact absurd (by simp) hc
    · cases m with
      | nil =>
          cases p with
          | nil => exact Or.inl List.nil_infix
          | cons d p =>
              obtain ⟨rfl, -⟩ := List.cons.inj hm
              exact absurd (by simp) hc
      | cons d m =>
          obtain ⟨rfl, rfl⟩ := List.cons.inj hm
          exact Or.inr ⟨m, y, by simp⟩
  · rintro (h | h)
    · exact h.trans (List.prefix_append a _).isInfix
    · exact h.trans ⟨a ++ [c], [], by simp⟩

/-- A pattern with an element in it stands around the first place of the element, or behind it. -/
theorem infix_around_iff (hp : c ∉ p) (ha : c ∉ a) :
    p ++ c :: q <:+: a ++ c :: b ↔ (p <:+ a ∧ q <+: b) ∨ p ++ c :: q <:+: b := by
  constructor
  · rintro ⟨x, y, hxy⟩
    have heq : x ++ p ++ (c :: (q ++ y)) = a ++ c :: b := by simpa using hxy
    rcases List.append_eq_append_iff.1 heq with ⟨m, rfl, hm⟩ | ⟨m, hx, hm⟩
    · cases m with
      | nil =>
          obtain ⟨-, rfl⟩ := List.cons.inj hm
          exact Or.inl ⟨⟨x, by simp⟩, List.prefix_append q y⟩
      | cons d m =>
          obtain ⟨rfl, -⟩ := List.cons.inj hm
          exact absurd (by simp) ha
    · cases m with
      | nil =>
          obtain ⟨-, rfl⟩ := List.cons.inj hm
          exact Or.inl ⟨⟨x, by simpa using hx⟩, List.prefix_append q y⟩
      | cons d m =>
          -- the place in the text is in front of the pattern
          obtain ⟨rfl, rfl⟩ := List.cons.inj hm
          refine Or.inr ?_
          rcases List.append_eq_append_iff.1 hx with ⟨l, -, rfl⟩ | ⟨l, -, hl⟩
          · exact absurd (by simp) hp
          · cases l with
            | nil =>
                rw [List.nil_append] at hl
                exact absurd (hl ▸ List.mem_cons_self) hp
            | cons d l =>
                obtain ⟨-, rfl⟩ := List.cons.inj hl
                exact ⟨l, y, by simp⟩
  · rintro (⟨⟨x, rfl⟩, y, rfl⟩ | h)
    · exact ⟨x, y, by simp⟩
    · exact h.trans ⟨a ++ [c], [], by simp⟩

theorem prefix_append_cons_iff (hq : c ∉ q) : q <+: a ++ c :: b ↔ q <+: a := by
  constructor
  · intro h
    rcases Nat.le_total q.length a.length with hle | hle
    · exact List.prefix_of_prefix_length_le h (List.prefix_append a _) hle
    · -- what is longer goes on with the element
      obtain ⟨t, rfl⟩ := List.prefix_of_prefix_length_le (List.prefix_append a _) h hle
      rw [List.prefix_append_right_inj, List.prefix_cons_iff] at h
      rcases h with rfl | ⟨t, rfl, -⟩
      · simp
      · exact absurd (by simp) hq
  · exact fun h => h.trans (List.prefix_append a _)

/-- An end without an element but at its head begins behind the last place of the element, or
further on. -/
theorem suffix_append_cons_iff (hq : c ∉ q) : c :: q <:+ a ++ c :: b ↔ q = b ∨ c :: q <:+ b := by
  constructor
  · rintro ⟨x, hx⟩
    rcases List.append_eq_append_iff.1 hx with ⟨m, rfl, hm⟩ | ⟨m, rfl, hm⟩
    · cases m with
      | nil => exact Or.inl (List.cons.inj hm).2
      | cons d m =>
          obtain ⟨rfl, rfl⟩ := List.cons.inj hm
          exact absurd (by simp) hq
    · cases m with
      | nil => exact Or.inl (List.cons.inj hm).2.symm
      | cons d m =>
          obtain ⟨rfl, rfl⟩ := List.cons.inj hm
          exact Or.inr ⟨m, rfl⟩
  · rintro (rfl | h)
    · exact List.suffix_append a _
    · exact h.trans ⟨a ++ [c], by simp⟩

/-- What stands around a text makes no difference, if it has neither the first element of a pattern
in front nor the last one behind. -/
theorem infix_margins_iff (hp : p ≠ []) (hfirst : ∀ x ∈ a, p.head? ≠ some x)
    (hlast : ∀ x ∈ b, p.getLast? ≠ some x) : p <:+: a ++ s ++ b ↔ p <:+: s := by
  have hbehind : p <:+: a ++ s ++ b ↔ p <:+: a ++ s := by
    induction b using List.reverseRecOn with
    | nil => rw [List.append_nil]
    | append_singleton b x ih =>
        rw [← ih fun y hy => hlast y (by simp [hy]), ← List.append_assoc, List.infix_concat_iff]
        refine or_iff_right ?_
        rintro hsuffix
        rcases List.suffix_concat_iff.1 hsuffix with rfl | ⟨t, rfl, -⟩
        · exact hp rfl
        · exact hlast x (by simp) List.getLast?_concat
  rw [hbehind]
  clear hbehind hlast
  induction a with
  | nil => rw [List.nil_append]
  | cons x a ih =>
      have hrest : p <:+: a ++ s ↔ p <:+: s := ih fun y hy => hfirst y (List.mem_cons_of_mem x hy)
      rw [← hrest, List.cons_append, List.infix_cons_iff]
      refine or_iff_right ?_
      intro hprefix
      rcases List.prefix_cons_iff.1 hprefix with rfl | ⟨t, rfl, -⟩
      · exact hp rfl
      · exact hfirst x List.mem_cons_self rfl

/-- Two elements side by side are in one part, or the last of one and the first of the other. -/
theorem pair_infix_append {x y : α} (h : [x, y] <:+: a ++ b) :
    [x, y] <:+: a ∨ [x, y] <:+: b ∨ (a.getLast? = some x ∧ b.head? = some y) := by
  induction a with
  | nil => exact Or.inr (Or.inl h)
  | cons z a ih =>
      rcases List.infix_cons_iff.1 h with hprefix | hinfix
      · obtain ⟨rfl, hsecond⟩ := List.cons_prefix_cons.1 hprefix
        cases a with
        | nil =>
            obtain ⟨t, rfl⟩ := hsecond
            exact Or.inr (Or.inr ⟨rfl, rfl⟩)
        | cons z a =>
            obtain ⟨rfl, -⟩ := List.cons_prefix_cons.1 hsecond
            exact Or.inl (List.prefix_append [x, y] a).isInfix
      · rcases ih hinfix with hleft | hright | ⟨hlast, hhead⟩
        · exact Or.inl (hleft.trans (List.suffix_cons z a).isInfix)
        · exact Or.inr (Or.inl hright)
        · refine Or.inr (Or.inr ⟨?_, hhead⟩)
          rw [List.getLast?_cons, hlast]
          rfl

/-- The second of two elements that stand side by side is any but the first. -/
theorem exists_pair_infix_iff {P : α → Prop} :
    (∃ x y, [x, y] <:+: s ∧ P y) ↔ ∃ y ∈ s.tail, P y := by
  cases s with
  | nil => simp
  | cons x s =>
      constructor
      · rintro ⟨z, y, ⟨u, v, huv⟩, hy⟩
        refine ⟨y, ?_, hy⟩
        cases u with
        | nil =>
            obtain ⟨-, rfl⟩ := List.cons.inj huv
            simp
        | cons w u =>
            obtain ⟨-, rfl⟩ := List.cons.inj huv
            simp
      · rintro ⟨y, hmem, hy⟩
        obtain ⟨u, v, rfl⟩ := List.append_of_mem hmem
        rcases List.eq_nil_or_concat u with rfl | ⟨u, z, rfl⟩
        · exact ⟨x, y, ⟨[], v, rfl⟩, hy⟩
        · exact ⟨z, y, ⟨x :: u, v, by simp⟩, hy⟩

end Patterns

/-! ## Texts -/

section Spaced

variable {w : Str} {ws : List Str} {p q s a b : Str}

theorem spaced_cons (hws : ws ≠ []) : spaced (w :: ws) = w ++ ' ' :: spaced ws := by
  cases ws with
  | nil => exact absurd rfl hws
  | cons w' ws => rfl

/-- The words before one, and the words behind it. -/
theorem spaced_around (vs : List Str) (w : Str) (ws : List Str) :
    spaced (vs ++ w :: ws) = vs.flatMap (· ++ [' ']) ++ w ++ ws.flatMap (' ' :: ·) := by
  induction vs with
  | nil =>
      induction ws generalizing w with
      | nil => simp [spaced]
      | cons w' ws ih =>
          rw [List.nil_append, spaced_cons (List.cons_ne_nil w' ws), ← List.nil_append (w' :: ws),
            ih w']
          simp
  | cons v vs ih =>
      rw [List.cons_append, spaced_cons (by simp), ih]
      simp

theorem infix_spaced_iff (hp : p ≠ []) (hblank : ' ' ∉ p) :
    p <:+: spaced ws ↔ ∃ w ∈ ws, p <:+: w := by
  induction ws with
  | nil => simp [spaced, hp]
  | cons w ws ih =>
      by_cases hws : ws = []
      · simp [hws, spaced]
      · rw [spaced_cons hws, infix_append_cons_iff hblank, ih, List.exists_mem_cons_iff]

theorem mem_spaced {c : Char} (h : c ∈ spaced ws) : c = ' ' ∨ ∃ w ∈ ws, c ∈ w := by
  by_cases hc : c = ' '
  · exact Or.inl hc
  · rw [← List.singleton_infix_iff, infix_spaced_iff (by simp) (by simpa using Ne.symm hc)] at h
    obtain ⟨w, hw, h⟩ := h
    exact Or.inr ⟨w, hw, (List.singleton_infix_iff c w).1 h⟩

/-- What a text starts with, its first word starts with. -/
theorem prefix_spaced_cons_iff (hblank : ' ' ∉ q) : q <+: spaced (w :: ws) ↔ q <+: w := by
  by_cases hws : ws = []
  · rw [hws]
    rfl
  · rw [spaced_cons hws, prefix_append_cons_iff hblank]

/-- **A pattern with a blank** stands across two words side by side. -/
theorem infix_pair_spaced_iff (hws : ∀ w ∈ ws, ' ' ∉ w) (hp : ' ' ∉ p) (hq : ' ' ∉ q) :
    p ++ ' ' :: q <:+: spaced ws ↔ ∃ w w', [w, w'] <:+: ws ∧ p <:+ w ∧ q <+: w' := by
  induction ws with
  | nil => simp [spaced]
  | cons w ws ih =>
      have hw : ' ' ∉ w := hws w List.mem_cons_self
      cases ws with
      | nil =>
          refine iff_of_false (fun h => hw (h.subset (by simp))) ?_
          rintro ⟨v, v', h, -⟩
          simpa using h.length_le
      | cons w' ws =>
          rw [spaced_cons (List.cons_ne_nil w' ws), infix_around_iff hp hw,
            prefix_spaced_cons_iff hq, ih fun v hv => hws v (List.mem_cons_of_mem w hv)]
          constructor
          · rintro (⟨hpw, hqw⟩ | ⟨v, v', h, hpv, hqv⟩)
            · exact ⟨w, w', (List.prefix_append [w, w'] ws).isInfix, hpw, hqw⟩
            · exact ⟨v, v', h.trans (List.suffix_cons w _).isInfix, hpv, hqv⟩
          · rintro ⟨v, v', h, hpv, hqv⟩
            rcases List.infix_cons_iff.1 h with hprefix | hinfix
            · obtain ⟨rfl, hsecond⟩ := List.cons_prefix_cons.1 hprefix
              obtain ⟨rfl, -⟩ := List.cons_prefix_cons.1 hsecond
              exact Or.inl ⟨hpv, hqv⟩
            · exact Or.inr ⟨v, v', hinfix, hpv, hqv⟩

/-- What a text ends in behind a blank, or is, its last word is. -/
theorem suffix_spaced_iff (hws : ∀ w ∈ ws, ' ' ∉ w) (hq : ' ' ∉ q) (hne : q ≠ []) :
    (spaced ws = q ∨ ' ' :: q <:+ spaced ws) ↔ ws.getLast? = some q := by
  induction ws with
  | nil => simp [spaced, hne.symm]
  | cons w ws ih =>
      cases ws with
      | nil =>
          have hw : ' ' ∉ w := hws w List.mem_cons_self
          rw [List.getLast?_singleton, Option.some.injEq]
          exact or_iff_left fun h => hw (h.subset (by simp))
      | cons w' ws =>
          rw [spaced_cons (List.cons_ne_nil w' ws), suffix_append_cons_iff hq,
            List.getLast?_cons_cons, ← ih fun v hv => hws v (List.mem_cons_of_mem w hv),
            eq_comm (a := q)]
          exact or_iff_right fun h => hq (h ▸ by simp)

theorem spaced_eq_iff (hws : ∀ w ∈ ws, IsWord w) (hq : ' ' ∉ q) (hne : q ≠ []) :
    spaced ws = q ↔ ws = [q] := by
  cases ws with
  | nil => simp [spaced, hne.symm]
  | cons w ws =>
      cases ws with
      | nil => simp [spaced]
      | cons w' ws =>
          refine iff_of_false (fun h => hq ?_) (by simp)
          rw [← h, spaced_cons (List.cons_ne_nil w' ws)]
          simp

theorem IsWord.blank_not_mem (h : IsWord w) : ' ' ∉ w :=
  fun hmem => absurd (h.2 _ hmem) (by decide)

/-! ## Margins -/

/-- A text of words starts and ends with a character of one. -/
theorem ends_spaced (hws : ∀ w ∈ ws, IsWord w) :
    (∀ c, (spaced ws).head? = some c → isWhitespace c = false) ∧
      ∀ c, (spaced ws).getLast? = some c → isWhitespace c = false := by
  induction ws with
  | nil => simp [spaced]
  | cons w ws ih =>
      obtain ⟨hne, hw⟩ := hws w List.mem_cons_self
      by_cases hnil : ws = []
      · rw [hnil]
        exact ⟨fun c hc => hw c (List.mem_of_head? hc), fun c hc => hw c (List.mem_of_getLast? hc)⟩
      · obtain ⟨-, hlast⟩ := ih fun v hv => hws v (List.mem_cons_of_mem w hv)
        have hspaced : spaced ws ≠ [] := by
          obtain ⟨v, vs, rfl⟩ := List.exists_cons_of_ne_nil hnil
          intro h
          have hv := hws v (by simp)
          cases vs with
          | nil => exact hv.1 h
          | cons v' vs => exact absurd h (by simp [spaced])
        rw [spaced_cons hnil]
        refine ⟨fun c hc => hw c ?_, fun c hc => hlast c ?_⟩
        · rw [List.head?_append_of_ne_nil _ hne] at hc
          exact List.mem_of_head? hc
        · obtain ⟨d, s, hs⟩ := List.exists_cons_of_ne_nil hspaced
          rw [hs] at hc ⊢
          simpa using hc

/-- White space around a text that neither starts nor ends with any is trimmed off. -/
theorem trim_margins (ha : ∀ c ∈ a, isWhitespace c = true) (hb : ∀ c ∈ b, isWhitespace c = true)
    (hfirst : ∀ c, s.head? = some c → isWhitespace c = false)
    (hlast : ∀ c, s.getLast? = some c → isWhitespace c = false) : trim (a ++ s ++ b) = s := by
  have hbehind : (s ++ b).rdropWhile isWhitespace = s := by
    induction b using List.reverseRecOn with
    | nil =>
        rw [List.append_nil, List.rdropWhile_eq_self_iff]
        intro hne
        simp [hlast _ (List.getLast?_eq_some_getLast hne)]
    | append_singleton b c ih =>
        rw [← List.append_assoc, List.rdropWhile_concat_pos _ _ _ (hb c (by simp))]
        exact ih fun d hd => hb d (by simp [hd])
  rw [trim, List.append_assoc, List.dropWhile_append_of_pos ha]
  cases s with
  | nil =>
      rw [List.nil_append, List.dropWhile_eq_nil_iff.2 hb]
      rfl
  | cons c s =>
      rw [List.cons_append, List.dropWhile_cons_of_neg (by simp [hfirst c rfl]),
        ← List.cons_append, hbehind]

end Spaced

end DialF.Lib
