import DialF.Bundle.Extract
import DialF.Lib.Subtree

/-!
# Targets in a folder without links

With no links in the destination, a target has its place right at its path below it. It is there
unless a file is in its way, and whether the targets of an archive can be in their places is a
matter of each of them and the tree, and of each two of them: none may be above another one, and two
of one path have to have the same bytes (`lays_iff_clear`).
-/

set_option autoImplicit false

namespace DialF.Bundle

open DialF.Lib

/-- The location of a target, if no link is on its way. -/
def Planned.loc (dest : List Name) (p : Planned) : List Name := p.names.reverse ++ dest

/-- It has a name at its end, no file is above it in the destination, and nothing but its own bytes
is there. -/
structure Planned.Clear (dest : List Name) (nodes : Nodes Name Bytes) (p : Planned) : Prop where
  named : p.asDir = false
  above : ∀ l content, dest <:+ l → l <:+ p.loc dest → l ≠ p.loc dest →
    nodes l ≠ some (.file content)
  free : nodes (p.loc dest) = none ∨ nodes (p.loc dest) = some (.file p.bytes)

/-- Neither is above the other one, unless they are the same. -/
def Planned.Apart (p q : Planned) : Prop :=
  (p.names = q.names ∧ p.bytes = q.bytes) ∨ (¬ p.names <+: q.names ∧ ¬ q.names <+: p.names)

section Clear

variable {nodes : Nodes Name Bytes} {links : Nat} {dest loc : List Name} {p q : Planned}

theorem enter_of_dir {n : Name} (hn : nodes (n :: loc) = some .dir) :
    enter nodes links loc n = some (n :: loc, links) := by
  apply enter_eq_some_iff.2
  rw [find_into_dir hn, find_nil]
  exact ⟨rfl, hn⟩

theorem enter_of_file {n : Name} {content : Bytes} (hn : nodes (n :: loc) = some (.file content)) :
    enter nodes links loc n = none := by
  rw [enter, find_into_file hn]
  simp only [hn]

theorem landing_nil (hfree : LinkFreeBelow nodes loc) (n : Name) :
    landing nodes links loc [] n = some (n :: loc) := by
  rw [landing]
  cases hn : nodes (n :: loc) with
  | none => rw [find_into_none hn]
  | some node =>
      cases node with
      | dir => rw [find_into_dir hn, find_nil]
      | file content => rw [find_into_file hn]
      | link fromRoot target => exact absurd hn (hfree _ _ _ (List.suffix_cons n loc))

/-- What is between a location and one below it is the location, or it is below it too. -/
theorem eq_or_below_of_suffix {l path : List Name} {m : Name} (hl : loc <:+ l)
    (hl' : l <:+ path ++ m :: loc) : l = loc ∨ m :: loc <:+ l := by
  rcases List.suffix_or_suffix_of_suffix hl' (List.suffix_append _ (m :: loc)) with hin | hbelow
  · rcases List.suffix_cons_iff.1 hin with heq | hin
    · exact Or.inr (heq ▸ List.suffix_rfl)
    · exact Or.inl (hin.eq_of_length_le hl.length_le)
  · exact Or.inr hbelow

/-- Without links, a landing place is at its path, with no file above it. -/
theorem landing_eq_some_iff (hfree : LinkFreeBelow nodes loc) (h : nodes.Wf)
    (hloc : nodes loc = some .dir) (names : List Name) (n : Name) (place : List Name) :
    landing nodes links loc names n = some place ↔
      place = n :: (names.reverse ++ loc) ∧
        ∀ l content, loc <:+ l → l <:+ names.reverse ++ loc → nodes l ≠ some (.file content) := by
  induction names generalizing loc with
  | nil =>
      have habove : ∀ l content, loc <:+ l → l <:+ ([] : List Name).reverse ++ loc →
          nodes l ≠ some (.file content) := by
        intro l content hl hl' hfile
        have heq : l = loc := hl'.eq_of_length_le hl.length_le
        rw [heq, hloc] at hfile
        exact absurd hfile (by simp)
      rw [landing_nil hfree]
      constructor
      · intro heq
        exact ⟨(Option.some.inj heq).symm, habove⟩
      · rintro ⟨rfl, -⟩
        rfl
  | cons m names ih =>
      have hsplit : (m :: names).reverse ++ loc = names.reverse ++ m :: loc := by simp
      rw [hsplit, landing]
      cases hm : nodes (m :: loc) with
      | none =>
          simp only [Option.some.injEq]
          constructor
          · intro heq
            refine ⟨heq.symm, ?_⟩
            -- nothing is below a location where nothing is
            intro l content hl hl' hfile
            rcases eq_or_below_of_suffix hl hl' with rfl | hbelow
            · rw [hloc] at hfile
              exact absurd hfile (by simp)
            · by_cases heql : m :: loc = l
              · subst heql
                rw [hm] at hfile
                exact absurd hfile (by simp)
              · have hdir := h.above (by rw [hfile]; simp) hbelow heql
                rw [hm] at hdir
                exact absurd hdir (by simp)
          · rintro ⟨rfl, -⟩
            rfl
      | some node =>
          cases node with
          | link fromRoot target => exact absurd hm (hfree _ _ _ (List.suffix_cons m loc))
          | file content =>
              -- the way ends at the file, which is above the place
              rw [enter_of_file hm]
              refine iff_of_false (by simp) ?_
              rintro ⟨-, habove⟩
              exact habove (m :: loc) content (List.suffix_cons m loc) (List.suffix_append _ _) hm
          | dir =>
              rw [enter_of_dir hm]
              simp only
              rw [ih (hfree.mono (List.suffix_cons m loc)) hm]
              apply and_congr_right
              intro _
              constructor
              · intro habove l content hl hl' hfile
                rcases eq_or_below_of_suffix hl hl' with rfl | hbelow
                · rw [hloc] at hfile
                  exact absurd hfile (by simp)
                · exact habove l content hbelow hl' hfile
              · intro habove l content hl hl'
                exact habove l content ((List.suffix_cons m loc).trans hl) hl'

theorem suffix_of_suffix_tail {l : List Name} (h : l <:+ loc.tail) : l <:+ loc :=
  h.trans (List.tail_suffix loc)

theorem suffix_tail_of_ne {l : List Name} (h : l <:+ loc) (hne : l ≠ loc) : l <:+ loc.tail := by
  cases loc with
  | nil => exact h
  | cons n loc =>
      rcases List.suffix_cons_iff.1 h with heq | hin
      · exact absurd heq hne
      · exact hin

theorem Planned.dest_suffix_loc (dest : List Name) (p : Planned) : dest <:+ p.loc dest :=
  List.suffix_append _ _

theorem Planned.loc_suffix_iff : p.loc dest <:+ q.loc dest ↔ p.names <+: q.names := by
  rw [loc, loc, List.suffix_append_self_iff, List.reverse_suffix]

theorem Planned.loc_eq_iff : p.loc dest = q.loc dest ↔ p.names = q.names := by
  rw [loc, loc, List.append_cancel_right_eq, List.reverse_inj]

theorem Planned.Clear.ne_dir (h : p.Clear dest nodes) : nodes (p.loc dest) ≠ some .dir := by
  rcases h.free with hnone | hsame
  · simp [hnone]
  · simp [hsame]

/-- **A target that has its place** is clear, and the place is at its path. -/
theorem place_iff_clear (hfree : LinkFreeBelow nodes dest) (h : nodes.Wf)
    (hdest : nodes dest = some .dir) (links : Nat) (loc : List Name) :
    (p.asDir = false ∧ p.place links dest nodes = some loc ∧
      (nodes loc = none ∨ nodes loc = some (.file p.bytes))) ↔
        loc = p.loc dest ∧ p.Clear dest nodes := by
  by_cases hname : p.asDir = false
  · obtain ⟨n, hlast, -⟩ := Planned.exists_name hname
    -- the last name is the file, and the others are the way to it
    have hloc : p.loc dest = n :: (p.names.dropLast.reverse ++ dest) := by
      rw [Planned.loc]
      conv_lhs => rw [← List.dropLast_append_getLast? n hlast]
      rw [List.reverse_append]
      rfl
    have hplace : p.place links dest nodes = landing nodes links dest p.names.dropLast n := by
      rw [Planned.place, hlast]
      rfl
    rw [hplace, landing_eq_some_iff hfree h hdest, ← hloc]
    constructor
    · rintro ⟨-, ⟨rfl, habove⟩, hthere⟩
      refine ⟨rfl, hname, ?_, hthere⟩
      intro l content hl hl' hne
      have hin := suffix_tail_of_ne hl' hne
      rw [hloc] at hin
      exact habove l content hl hin
    · rintro ⟨rfl, hclear⟩
      refine ⟨hname, ⟨rfl, ?_⟩, hclear.free⟩
      intro l content hl hl'
      have hsuffix : l <:+ p.loc dest := by
        rw [hloc]
        exact hl'.trans (List.suffix_cons _ _)
      apply hclear.above l content hl hsuffix
      intro heq
      have hlength := hl'.length_le
      rw [heq, hloc, List.length_cons] at hlength
      exact Nat.not_succ_le_self _ hlength
  · constructor
    · rintro ⟨hnamed, -⟩
      exact absurd hnamed hname
    · rintro ⟨-, hclear⟩
      exact absurd hclear.named hname

/-- With one target in its place, another one is clear if it was, and is apart from it. -/
theorem clear_placed_iff (hp : p.Clear dest nodes) :
    q.Clear dest (placed nodes (p.loc dest) p.bytes) ↔ q.Clear dest nodes ∧ p.Apart q := by
  have hplaced := placed_self nodes (p.loc dest) p.bytes
  -- at the other locations, there may be a directory more
  have hother : ∀ l, l ≠ p.loc dest → placed nodes (p.loc dest) p.bytes l =
      if l <:+ (p.loc dest).tail ∧ nodes l = none then some .dir else nodes l := by
    intro l hne
    rw [placed, add_of_ne hne, withDirs]
  constructor
  · intro hq
    have hclear : q.Clear dest nodes := by
      refine ⟨hq.named, ?_, ?_⟩
      · intro l content hl hl' hne hfile
        by_cases heq : l = p.loc dest
        · exact hq.above l p.bytes hl hl' hne (heq ▸ hplaced)
        · exact hq.above l content hl hl' hne ((placed_eq_file_iff heq).2 hfile)
      · by_cases heq : q.loc dest = p.loc dest
        · have hbytes := hq.free
          rw [heq, hplaced] at hbytes
          rcases hbytes with hnone | hsame
          · exact absurd hnone (by simp)
          · rw [heq, ← hsame]
            exact hp.free
        · rcases hq.free with hnone | hsame
          · rw [hother _ heq] at hnone
            split at hnone
            · exact absurd hnone (by simp)
            · exact Or.inl hnone
          · exact Or.inr ((placed_eq_file_iff heq).1 hsame)
    refine ⟨hclear, ?_⟩
    by_cases heq : q.loc dest = p.loc dest
    · have hbytes := hq.free
      rw [heq, hplaced] at hbytes
      rcases hbytes with hnone | hsame
      · exact absurd hnone (by simp)
      · exact Or.inl ⟨Planned.loc_eq_iff.1 heq.symm, Node.file.inj (Option.some.inj hsame)⟩
    · refine Or.inr ⟨?_, ?_⟩
      · intro hpre
        exact hq.above _ p.bytes (p.dest_suffix_loc dest) (Planned.loc_suffix_iff.2 hpre)
          (Ne.symm heq) hplaced
      · intro hpre
        have hsuffix : q.loc dest <:+ p.loc dest := Planned.loc_suffix_iff.2 hpre
        rcases hclear.free with hnone | hsame
        · -- it would be a directory by now
          have hdir := hother _ heq
          rw [if_pos ⟨suffix_tail_of_ne hsuffix heq, hnone⟩] at hdir
          rcases hq.free with hnone' | hsame'
          · exact absurd (hdir.symm.trans hnone') (by simp)
          · exact absurd (hdir.symm.trans hsame') (by simp)
        · exact hp.above _ _ (q.dest_suffix_loc dest) hsuffix heq hsame
  · rintro ⟨hq, hapart⟩
    have hsame : p.loc dest <:+ q.loc dest ∨ q.loc dest <:+ p.loc dest →
        p.loc dest = q.loc dest ∧ p.bytes = q.bytes := by
      intro hsuffix
      rcases hapart with ⟨hnames, hbytes⟩ | ⟨hpq, hqp⟩
      · exact ⟨Planned.loc_eq_iff.2 hnames, hbytes⟩
      · rcases hsuffix with hsuffix | hsuffix
        · exact absurd (Planned.loc_suffix_iff.1 hsuffix) hpq
        · exact absurd (Planned.loc_suffix_iff.1 hsuffix) hqp
    refine ⟨hq.named, ?_, ?_⟩
    · intro l content hl hl' hne hfile
      by_cases heq : l = p.loc dest
      · subst heq
        exact hne (hsame (Or.inl hl')).1
      · exact hq.above l content hl hl' hne ((placed_eq_file_iff heq).1 hfile)
    · by_cases heq : q.loc dest = p.loc dest
      · obtain ⟨-, hbytes⟩ := hsame (Or.inr (heq ▸ List.suffix_rfl))
        rw [heq, hplaced, hbytes]
        exact Or.inr rfl
      · rw [hother _ heq, if_neg]
        · exact hq.free
        · rintro ⟨hsuffix, -⟩
          exact heq (hsame (Or.inr (suffix_of_suffix_tail hsuffix))).1.symm

theorem placed_linkFreeBelow (hfree : LinkFreeBelow nodes dest) (loc : List Name) (bytes : Bytes) :
    LinkFreeBelow (placed nodes loc bytes) dest := by
  intro l fromRoot target hl hlink
  by_cases heq : l = loc
  · subst heq
    rw [placed_self] at hlink
    exact absurd hlink (by simp)
  · rw [DialF.Lib.placed, add_of_ne heq, withDirs] at hlink
    split at hlink
    · exact absurd hlink (by simp)
    · exact hfree l fromRoot target hl hlink

/-- **With no links below the destination**, all targets can be in their places exactly if each of
them is clear, and each two are apart. -/
theorem lays_iff_clear (hfree : LinkFreeBelow nodes dest) (h : nodes.Wf)
    (hdest : nodes dest = some .dir) (plan : List Planned) :
    Lays links dest nodes plan ↔
      (∀ p ∈ plan, p.Clear dest nodes) ∧ plan.Pairwise Planned.Apart := by
  induction plan generalizing nodes with
  | nil => exact iff_of_true trivial ⟨by simp, List.Pairwise.nil⟩
  | cons p plan ih =>
      -- the others meet the tree with this target in its place
      have hstep : Lays links dest nodes (p :: plan) ↔
          p.Clear dest nodes ∧ Lays links dest (placed nodes (p.loc dest) p.bytes) plan := by
        constructor
        · rintro ⟨hname, loc, hplace, -, hthere, hrest⟩
          obtain ⟨rfl, hclear⟩ :=
            (place_iff_clear hfree h hdest links loc).1 ⟨hname, hplace, hthere⟩
          exact ⟨hclear, hrest⟩
        · rintro ⟨hclear, hrest⟩
          obtain ⟨hname, hplace, hthere⟩ :=
            (place_iff_clear hfree h hdest links _).2 ⟨rfl, hclear⟩
          exact ⟨hname, _, hplace, p.dest_suffix_loc dest, hthere, hrest⟩
      rw [hstep, List.pairwise_cons, List.forall_mem_cons]
      constructor
      · rintro ⟨hclear, hrest⟩
        obtain ⟨hname, hplace, -⟩ :=
          (place_iff_clear hfree h hdest links _).2 ⟨rfl, hclear⟩
        obtain ⟨-, hwf, hgrows, -⟩ :=
          Planned.write_of_place h hdest hname hplace hclear.ne_dir
        obtain ⟨hall, hpairs⟩ :=
          (ih (placed_linkFreeBelow hfree _ _) hwf (hgrows.dir hdest)).1 hrest
        refine ⟨⟨hclear, fun q hq => ((clear_placed_iff hclear).1 (hall q hq)).1⟩,
          fun q hq => ((clear_placed_iff hclear).1 (hall q hq)).2, hpairs⟩
      · rintro ⟨⟨hclear, hall⟩, hapart, hpairs⟩
        obtain ⟨hname, hplace, -⟩ :=
          (place_iff_clear hfree h hdest links _).2 ⟨rfl, hclear⟩
        obtain ⟨-, hwf, hgrows, -⟩ :=
          Planned.write_of_place h hdest hname hplace hclear.ne_dir
        refine ⟨hclear, (ih (placed_linkFreeBelow hfree _ _) hwf (hgrows.dir hdest)).2 ⟨?_, hpairs⟩⟩
        intro q hq
        exact (clear_placed_iff hclear).2 ⟨hall q hq, hapart q hq⟩

end Clear

end DialF.Bundle
