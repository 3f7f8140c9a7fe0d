import Mathlib.Data.List.Pairwise
import DialF.Lib.FilePlacing

/-!
# Trees inside trees

What is below a directory is a tree of its own (`subtree`). A path that stays in it, and meets no
link, leads in the whole tree to where it leads in the part (`find_of_within`).

A list of files with their paths is a tree, unless one of the paths goes on from another one
(`treeOf`, `PathsApart`). Putting the files one after the other into an empty directory makes that
tree (`subtree_placeAll`).
-/

set_option autoImplicit false

namespace DialF.Lib

universe u v

variable {ν : Type u} {β : Type v}

/-- The tree below a place. -/
def subtree (nodes : Nodes ν β) (root : List ν) : Nodes ν β := fun l => nodes (l ++ root)

/-- No links at or below a location. -/
def LinkFreeBelow (nodes : Nodes ν β) (root : List ν) : Prop :=
  ∀ loc fromRoot target, root <:+ loc → nodes loc ≠ some (.link fromRoot target)

theorem LinkFreeBelow.mono {nodes : Nodes ν β} {root loc : List ν} (h : LinkFreeBelow nodes root)
    (hloc : root <:+ loc) : LinkFreeBelow nodes loc :=
  fun l fromRoot target hl => h l fromRoot target (hloc.trans hl)

/-- Without links, names lead to the location that they name, if there is anything. -/
theorem find_of_linkFreeBelow {nodes : Nodes ν β} (h : nodes.Wf) {links : Nat} {loc : List ν}
    (hfree : LinkFreeBelow nodes loc) (hloc : nodes loc = some .dir) (names : List ν)
    {target : List ν} {k : Nat} :
    find nodes links loc (names.map .into) = .found target k ↔
      k = links ∧ target = names.reverse ++ loc ∧ nodes (names.reverse ++ loc) ≠ none := by
  induction names generalizing loc with
  | nil =>
      rw [List.map_nil, find_nil, Place.found.injEq]
      constructor
      · rintro ⟨rfl, rfl⟩
        exact ⟨rfl, rfl, by rw [List.reverse_nil, List.nil_append, hloc]; simp⟩
      · rintro ⟨rfl, rfl, -⟩
        exact ⟨rfl, rfl⟩
  | cons n names ih =>
      have hsplit : (n :: names).reverse ++ loc = names.reverse ++ n :: loc := by simp
      rw [List.map_cons, hsplit]
      -- what is below a file, or below nothing, is nothing
      have hbelow : nodes (n :: loc) ≠ some .dir → names ≠ [] →
          nodes (names.reverse ++ n :: loc) = none := by
        intro hdir hne
        by_contra hsome
        refine hdir (h.above hsome (List.suffix_append _ _) ?_)
        intro heq
        exact hne (by simpa using congrArg List.length heq)
      cases hn : nodes (n :: loc) with
      | none =>
          cases names with
          | nil => simp [find_into_none hn, hn]
          | cons m names =>
              have hnone := hbelow (by rw [hn]; simp) (by simp)
              rw [List.map_cons, find_into_none_cons hn, hnone]
              simp
      | some node =>
          cases node with
          | link fromRoot target => exact absurd hn (hfree _ _ _ (List.suffix_cons n loc))
          | file content =>
              cases names with
              | nil =>
                  rw [List.map_nil, find_into_file hn, Place.found.injEq]
                  constructor
                  · rintro ⟨rfl, rfl⟩
                    exact ⟨rfl, rfl, by simp [hn]⟩
                  · rintro ⟨rfl, rfl, -⟩
                    exact ⟨rfl, rfl⟩
              | cons m names =>
                  have hnone := hbelow (by rw [hn]; simp) (by simp)
                  rw [List.map_cons, find_into_file_cons hn, hnone]
                  simp
          | dir =>
              rw [find_into_dir hn]
              exact ih (hfree.mono (List.suffix_cons n loc)) hn

/-- Where a path leads to that stays in the tree and meets no link. -/
def within (nodes : Nodes ν β) : List ν → List (Move ν) → Option (List ν)
  | loc, [] => some loc
  | loc, .stay :: path => within nodes loc path
  | [], .up :: _ => none
  | _ :: loc, .up :: path => within nodes loc path
  | loc, .into n :: path =>
      match nodes (n :: loc) with
      | some .dir => within nodes (n :: loc) path
      | some (.file _) =>
          match path with
          | [] => some (n :: loc)
          | _ :: _ => none
      | _ => none

section Within

attribute [local simp] within

variable {nodes nodes' : Nodes ν β} {links : Nat} {root loc loc' : List ν} {n : ν}
  {path more : List (Move ν)} {names : List ν}

@[simp] theorem within_nil : within nodes loc [] = some loc := by
  cases loc <;> rfl

@[simp] theorem within_stay : within nodes loc (.stay :: path) = within nodes loc path := by
  cases loc <;> rfl

@[simp] theorem within_up_cons : within nodes (n :: loc) (.up :: path) = within nodes loc path :=
  rfl

theorem within_into_dir (h : nodes (n :: loc) = some .dir) :
    within nodes loc (.into n :: path) = within nodes (n :: loc) path := by
  cases loc <;> simp [h]

theorem within_into_file {content : β} (h : nodes (n :: loc) = some (.file content)) :
    within nodes loc [.into n] = some (n :: loc) := by
  cases loc <;> simp [h]

/-- One name further: into a directory, or to a file at the end. -/
theorem within_into (h : within nodes loc (.into n :: path) = some loc') :
    (nodes (n :: loc) = some .dir ∧ within nodes (n :: loc) path = some loc') ∨
      (path = [] ∧ loc' = n :: loc ∧ ∃ content, nodes (n :: loc) = some (.file content)) := by
  cases hn : nodes (n :: loc) with
  | none => cases loc <;> simp [hn] at h
  | some node =>
      cases node with
      | dir =>
          rw [within_into_dir hn] at h
          exact Or.inl ⟨rfl, h⟩
      | file content =>
          cases path with
          | nil =>
              rw [within_into_file hn] at h
              exact Or.inr ⟨rfl, (Option.some.inj h).symm, content, rfl⟩
          | cons m path => cases loc <;> simp [hn] at h
      | link fromRoot target => cases loc <;> simp [hn] at h

/-- **A path that stays inside** leads to the same place in the whole tree. -/
theorem find_of_within (links : Nat) (h : within (subtree nodes root) loc path = some loc') :
    find nodes links (loc ++ root) path = .found (loc' ++ root) links := by
  induction path generalizing loc with
  | nil =>
      rw [within_nil] at h
      obtain rfl := Option.some.inj h
      rw [find_nil]
  | cons m path ih =>
      cases m with
      | stay =>
          rw [within_stay] at h
          rw [find_stay]
          exact ih h
      | up =>
          cases loc with
          | nil => simp at h
          | cons n loc =>
              rw [within_up_cons] at h
              rw [find_up]
              exact ih h
      | into n =>
          rcases within_into h with ⟨hdir, h⟩ | ⟨rfl, rfl, content, hfile⟩
          · have hdir' : nodes (n :: (loc ++ root)) = some .dir := hdir
            rw [find_into_dir hdir']
            exact ih h
          · exact find_into_file hfile

/-- Names, through directories, and what comes behind them. -/
theorem find_dirs_append (hdirs : ∀ l, l <:+ names.reverse ++ loc → nodes l = some .dir)
    (path : List (Move ν)) :
    find nodes links loc (names.map .into ++ path) =
      find nodes links (names.reverse ++ loc) path := by
  induction names generalizing loc with
  | nil => rfl
  | cons n names ih =>
      have hsplit : (n :: names).reverse ++ loc = names.reverse ++ n :: loc := by simp
      rw [hsplit] at hdirs ⊢
      rw [List.map_cons, List.cons_append, find_into_dir (hdirs _ (List.suffix_append _ _))]
      exact ih hdirs

theorem within_dirs (hdirs : ∀ l, l <:+ names.reverse ++ loc → loc <:+ l → l ≠ loc →
      nodes l = some .dir) (path : List (Move ν)) :
    within nodes loc (names.map .into ++ path) = within nodes (names.reverse ++ loc) path := by
  induction names generalizing loc with
  | nil => rfl
  | cons n names ih =>
      have hsplit : (n :: names).reverse ++ loc = names.reverse ++ n :: loc := by simp
      rw [hsplit] at hdirs ⊢
      rw [List.map_cons, List.cons_append, within_into_dir]
      · apply ih
        intro l hl hbelow hne
        apply hdirs l hl ((List.suffix_cons n loc).trans hbelow)
        rintro rfl
        have hlength := hbelow.length_le
        rw [List.length_cons] at hlength
        exact Nat.not_succ_le_self _ hlength
      · exact hdirs _ (List.suffix_append _ _) (List.suffix_cons n loc) (List.cons_ne_self n loc)

/-- So many steps up. -/
theorem within_replicate_up {k : Nat} (hk : k ≤ loc.length) (path : List (Move ν)) :
    within nodes loc (List.replicate k .up ++ path) = within nodes (loc.drop k) path := by
  induction k generalizing loc with
  | zero => rfl
  | succ k ih =>
      cases loc with
      | nil => simp at hk
      | cons n loc =>
          rw [List.replicate_succ, List.cons_append, within_up_cons, List.drop_succ_cons]
          exact ih (Nat.le_of_succ_le_succ hk)

/-- A path that stays inside stays inside in a tree that has more in it. -/
theorem within_mono {γ : Type v} {more : Nodes ν γ}
    (hdir : ∀ l, nodes l = some .dir → more l = some .dir)
    (hfile : ∀ l content, nodes l = some (.file content) →
      ∃ content', more l = some (.file content'))
    (h : within nodes loc path = some loc') : within more loc path = some loc' := by
  induction path generalizing loc with
  | nil =>
      rw [within_nil] at h ⊢
      exact h
  | cons m path ih =>
      cases m with
      | stay =>
          rw [within_stay] at h ⊢
          exact ih h
      | up =>
          cases loc with
          | nil => simp at h
          | cons n loc =>
              rw [within_up_cons] at h ⊢
              exact ih h
      | into n =>
          rcases within_into h with ⟨hn, h⟩ | ⟨rfl, rfl, content, hn⟩
          · rw [within_into_dir (hdir _ hn)]
            exact ih h
          · obtain ⟨content', hn'⟩ := hfile _ _ hn
            exact within_into_file hn'

end Within

/-! ## The tree of a list of files -/

/-- No path goes on from another one. -/
def PathsApart (files : List (List ν × β)) : Prop :=
  files.Pairwise fun f g => ¬ f.1 <+: g.1 ∧ ¬ g.1 <+: f.1

theorem PathsApart.of_mem {files : List (List ν × β)} (h : PathsApart files) {f g : List ν × β}
    (hf : f ∈ files) (hg : g ∈ files) (hpre : f.1 <+: g.1) : f = g := by
  by_contra hne
  have hsymm : Std.Symm fun f g : List ν × β => ¬ f.1 <+: g.1 ∧ ¬ g.1 <+: f.1 :=
    ⟨fun _ _ => And.symm⟩
  exact (List.Pairwise.forall h hf hg hne).1 hpre

theorem pathsApart_concat_iff {files : List (List ν × β)} {f : List ν × β} :
    PathsApart (files ++ [f]) ↔
      PathsApart files ∧ ∀ g ∈ files, ¬ g.1 <+: f.1 ∧ ¬ f.1 <+: g.1 := by
  rw [PathsApart, List.pairwise_append]
  constructor
  · rintro ⟨hfiles, -, h⟩
    exact ⟨hfiles, fun g hg => h g hg f (List.mem_singleton_self f)⟩
  · rintro ⟨hfiles, h⟩
    refine ⟨hfiles, List.pairwise_singleton _ _, ?_⟩
    intro g hg f' hf'
    rw [List.mem_singleton.1 hf']
    exact h g hg

variable [DecidableEq ν]

instance (files : List (List ν × β)) : Decidable (PathsApart files) :=
  inferInstanceAs (Decidable (List.Pairwise _ _))

/-- The files at their paths, and the directories above them. -/
def treeOf (files : List (List ν × β)) : Nodes ν β := fun l =>
  match files.find? fun f => f.1.reverse = l with
  | some f => some (.file f.2)
  | none => if l = [] ∨ ∃ f ∈ files, l <:+ f.1.reverse then some .dir else none

section TreeOf

variable {nodes : Nodes ν β} {dest l : List ν} {files : List (List ν × β)} {f : List ν × β}

theorem find?_eq_some_iff (h : PathsApart files) :
    (files.find? fun f => f.1.reverse = l) = some f ↔ f ∈ files ∧ f.1.reverse = l := by
  constructor
  · intro hfind
    exact ⟨List.mem_of_find?_eq_some hfind, by simpa using List.find?_some hfind⟩
  · rintro ⟨hf, rfl⟩
    cases hfind : files.find? fun g => g.1.reverse = f.1.reverse with
    | none =>
        have hnot := List.find?_eq_none.1 hfind f hf
        simp at hnot
    | some g =>
        have heq : g.1 = f.1 := by simpa using List.find?_some hfind
        rw [h.of_mem (List.mem_of_find?_eq_some hfind) hf (heq ▸ List.prefix_rfl)]

theorem treeOf_eq_file_iff (h : PathsApart files) {content : β} :
    treeOf files l = some (.file content) ↔ (l.reverse, content) ∈ files := by
  rw [treeOf]
  constructor
  · intro hfile
    split at hfile
    · rename_i f hfind
      obtain ⟨hf, rfl⟩ := (find?_eq_some_iff h).1 hfind
      obtain rfl := Node.file.inj (Option.some.inj hfile)
      rw [List.reverse_reverse]
      exact hf
    · split at hfile <;> simp at hfile
  · intro hf
    rw [(find?_eq_some_iff h).2 ⟨hf, List.reverse_reverse l⟩]

theorem treeOf_of_mem (h : PathsApart files) (hf : f ∈ files) :
    treeOf files f.1.reverse = some (.file f.2) := by
  rw [treeOf_eq_file_iff h, List.reverse_reverse]
  exact hf

theorem treeOf_eq_dir_iff (h : PathsApart files) (hne : ∀ f ∈ files, f.1 ≠ []) :
    treeOf files l = some .dir ↔ l = [] ∨ ∃ f ∈ files, l <:+ f.1.reverse ∧ l ≠ f.1.reverse := by
  rw [treeOf]
  constructor
  · intro hdir
    split at hdir
    · simp at hdir
    · rename_i hnone
      split at hdir
      · rename_i hcase
        apply hcase.imp_right
        rintro ⟨f, hf, hsuffix⟩
        refine ⟨f, hf, hsuffix, ?_⟩
        intro heq
        exact absurd heq.symm (by simpa using List.find?_eq_none.1 hnone f hf)
      · simp at hdir
  · intro hcase
    have hnone : (files.find? fun f => f.1.reverse = l) = none := by
      rw [List.find?_eq_none]
      intro g hg hgl
      have hgl : g.1.reverse = l := by simpa using hgl
      rcases hcase with rfl | ⟨f, hf, hsuffix, hnot⟩
      · exact hne g hg (by simpa using hgl)
      · rw [← hgl, List.reverse_suffix] at hsuffix
        rw [h.of_mem hg hf hsuffix] at hgl
        exact hnot hgl.symm
    rw [hnone]
    simp only
    rw [if_pos (hcase.imp_right fun ⟨f, hf, hsuffix, _⟩ => ⟨f, hf, hsuffix⟩)]

theorem treeOf_ne_link (files : List (List ν × β)) (l : List ν) (fromRoot : Bool)
    (target : List (Move ν)) : treeOf files l ≠ some (.link fromRoot target) := by
  rw [treeOf]
  split
  · simp
  · split <;> simp

/-- Where there is no file, there is nothing or a directory. -/
theorem treeOf_none_or_dir (h : PathsApart files) {path : List ν} (hnew : path ∉ files.map (·.1)) :
    treeOf files path.reverse = none ∨ treeOf files path.reverse = some .dir := by
  cases htree : treeOf files path.reverse with
  | none => exact Or.inl rfl
  | some node =>
      cases node with
      | dir => exact Or.inr rfl
      | file content =>
          rw [treeOf_eq_file_iff h, List.reverse_reverse] at htree
          exact absurd (List.mem_map_of_mem htree) hnew
      | link fromRoot target => exact absurd htree (treeOf_ne_link _ _ _ _)

/-- A file that is put into a directory changes nothing outside it. -/
theorem placed_of_outside (h : nodes.Wf) (hdest : nodes dest = some .dir) (hl : ¬ dest <:+ l)
    (path : List ν) (content : β) : placed nodes (path ++ dest) content l = nodes l := by
  rw [placed, add_of_ne, withDirs, if_neg]
  · rintro ⟨hsuffix, hnone⟩
    have hin : l <:+ path ++ dest := hsuffix.trans (List.tail_suffix _)
    -- what is above the directory is there already
    rcases List.suffix_or_suffix_of_suffix hin (List.suffix_append path dest) with hup | hdown
    · by_cases heq : l = dest
      · exact hl (heq ▸ List.suffix_rfl)
      · rw [h.above (by rw [hdest]; simp) hup heq] at hnone
        exact absurd hnone (by simp)
    · exact hl hdown
  · rintro rfl
    exact hl (List.suffix_append _ _)

/-- **One more file**, put into a tree that files have made. -/
theorem subtree_placed (hsub : subtree nodes dest = treeOf files) (h : PathsApart (files ++ [f]))
    (hne : f.1 ≠ []) :
    subtree (placed nodes (f.1.reverse ++ dest) f.2) dest = treeOf (files ++ [f]) := by
  obtain ⟨n, r, hr⟩ : ∃ n r, f.1.reverse = n :: r :=
    List.exists_cons_of_ne_nil (by simpa using hne)
  have hbefore : ∀ l, nodes (l ++ dest) = treeOf files l := fun l => congrFun hsub l
  funext l
  by_cases heq : l = f.1.reverse
  · subst heq
    rw [treeOf_of_mem h (List.mem_append_right _ (List.mem_singleton_self f))]
    exact placed_self _ _ _
  · have hloc : l ++ dest ≠ f.1.reverse ++ dest := fun hsame => heq (List.append_cancel_right hsame)
    have htail : l ++ dest <:+ (f.1.reverse ++ dest).tail ↔ l <:+ f.1.reverse := by
      rw [hr, List.cons_append, List.tail_cons, List.suffix_append_self_iff]
      constructor
      · intro hsuffix
        exact hsuffix.trans (List.suffix_cons n r)
      · intro hsuffix
        rcases List.suffix_cons_iff.1 hsuffix with hsame | hsuffix
        · exact absurd (hsame.trans hr.symm) heq
        · exact hsuffix
    have hleft : subtree (placed nodes (f.1.reverse ++ dest) f.2) dest l =
        if l <:+ f.1.reverse ∧ treeOf files l = none then some .dir else treeOf files l := by
      simp only [subtree, placed, add_of_ne hloc, withDirs, hbefore, htail]
    have hright : (files ++ [f]).find? (fun g => g.1.reverse = l) =
        files.find? fun g => g.1.reverse = l := by
      rw [List.find?_append, List.find?_singleton, if_neg (by simpa using Ne.symm heq),
        Option.or_none]
    rw [hleft, treeOf, treeOf, hright]
    cases files.find? fun g => g.1.reverse = l with
    | some g => simp
    | none =>
        have hor : (l = [] ∨ ∃ g ∈ files ++ [f], l <:+ g.1.reverse) ↔
            (l = [] ∨ ∃ g ∈ files, l <:+ g.1.reverse) ∨ l <:+ f.1.reverse := by
          simp [or_and_right, exists_or, or_assoc]
        by_cases hin : l = [] ∨ ∃ g ∈ files, l <:+ g.1.reverse
        · rw [if_pos hin, if_pos (hor.2 (Or.inl hin)), if_neg (by simp)]
        · by_cases hbelow : l <:+ f.1.reverse
          · rw [if_neg hin, if_pos (hor.2 (Or.inr hbelow)), if_pos ⟨hbelow, rfl⟩]
          · rw [if_neg hin, if_neg fun h => hin ((hor.1 h).resolve_right hbelow),
              if_neg fun h => hbelow h.1]

end TreeOf

end DialF.Lib
