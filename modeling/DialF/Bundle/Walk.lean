import Mathlib.Data.Char
import Mathlib.Data.List.Dedup
import Mathlib.Data.List.Lex
import Mathlib.Data.List.Sort
import DialF.Bundle.Extract
import DialF.Lib.Explore
import DialF.Lib.Paths
import DialF.Lib.Subtree

/-!
# The files of a folder

`walk` of `bundle.rs` lists the files below a folder: it follows links, leaves out what is hidden or
excluded, and enters a directory once, whatever the ways that lead to it.

Every directory that can be gone on to has been entered on one of its ways, and the files that are
listed are those that the directories have by the ways they were entered on (`walk_spec`). Below a
folder without links there is one way to each directory, and the files that are listed are those
that are neither hidden nor excluded (`mem_walk_iff`).
-/

set_option autoImplicit false

namespace DialF.Bundle

open DialF.Lib

/-! ## A disk -/

/-- The tree of a list of items; the first at a place counts. -/
def nodesOf (items : List (List Name × Node Name Bytes)) : Nodes Name Bytes :=
  fun loc => (items.find? fun item => item.1 = loc).map (·.2)

/-- A file system: what there is, and how many links are followed on a path. -/
structure Disk where
  links : Nat
  items : List (List Name × Node Name Bytes)
  wf : (nodesOf items).Wf
  named : ∀ item ∈ items, ∀ n ∈ item.1, IsName n

namespace Disk

variable (d : Disk)

/-- The tree of the disk. -/
def nodes : Nodes Name Bytes := nodesOf d.items

/-- `read_dir`, sorted by the file name. -/
def readDir (loc : List Name) : List Name :=
  ((d.items.filterMap fun item =>
    match item.1 with
    | n :: parent => if parent = loc then some n else none
    | [] => none).dedup).insertionSort (· ≤ ·)

/-- Where an absolute path leads to. -/
def canonicalize (path : List (Move Name)) : Option (List Name) :=
  match find d.nodes d.links [] path with
  | .found loc _ => some loc
  | _ => none

end Disk

/-- The names of an absolute path. -/
def below (root : List Name) (rel : List Name) : List Name := root.reverse ++ rel

/-- Hidden from the walk. -/
def isHidden (n : Name) : Bool := n.head? = some '.'

namespace Disk

variable (d : Disk) (root : List Name) (excluded : List (List Name)) (skip : List Name)

/-- Where a name in a folder leads to. -/
def locate (rel : List Name) : Option (List Name) :=
  d.canonicalize ((below root rel).map .into)

/-- The directories of a directory that are gone on to, and its files. -/
def walkItems (rel : List Name) : List (List Name ⊕ List Name) :=
  match d.locate root rel with
  | none => []
  | some loc =>
      (d.readDir loc).filterMap fun n =>
        if isHidden n then none
        else
          match d.locate root (rel ++ [n]) with
          | none => none
          | some target =>
              match d.nodes target with
              | some .dir => if target ∈ excluded then none else some (.inl (rel ++ [n]))
              | some (.file _) =>
                  if below root (rel ++ [n]) = skip then none else some (.inr (rel ++ [n]))
              | _ => none

/-- `walk`: the files below a folder, as the names that lead there from it. -/
def walk : List (List Name) :=
  (explore (d.locate root) (d.walkItems root excluded skip) (d.items.length + 1) []
    ⟨[], []⟩).out

end Disk

/-! ## What there is -/

section Disk

variable {d : Disk} {root loc : List Name} {excluded : List (List Name)} {skip rel : List Name}
  {n : Name}

theorem Disk.nodes_wf (d : Disk) : d.nodes.Wf := d.wf

theorem Disk.mem_items_of_nodes (h : d.nodes loc ≠ none) : ∃ node, (loc, node) ∈ d.items := by
  rw [Disk.nodes, nodesOf, Ne, Option.map_eq_none_iff] at h
  obtain ⟨item, hitem⟩ := Option.ne_none_iff_exists'.1 h
  obtain rfl : item.1 = loc := by simpa using List.find?_some hitem
  exact ⟨item.2, List.mem_of_find?_eq_some hitem⟩

theorem Disk.nodes_of_mem_items {node : Node Name Bytes} (h : (loc, node) ∈ d.items) :
    d.nodes loc ≠ none := by
  rw [Disk.nodes, nodesOf, Ne, Option.map_eq_none_iff, List.find?_eq_none]
  intro hnone
  exact hnone _ h (decide_eq_true rfl)

theorem Disk.isName (h : d.nodes loc ≠ none) : ∀ m ∈ loc, IsName m := by
  obtain ⟨node, hitem⟩ := Disk.mem_items_of_nodes h
  exact d.named _ hitem

theorem Disk.mem_readDir : n ∈ d.readDir loc ↔ d.nodes (n :: loc) ≠ none := by
  rw [Disk.readDir, List.mem_insertionSort, List.mem_dedup, List.mem_filterMap]
  constructor
  · rintro ⟨⟨l, node⟩, hitem, hn⟩
    cases l with
    | nil => simp at hn
    | cons m parent =>
        simp only [Option.ite_none_right_eq_some, Option.some.injEq] at hn
        obtain ⟨rfl, rfl⟩ := hn
        exact Disk.nodes_of_mem_items hitem
  · intro h
    obtain ⟨node, hitem⟩ := Disk.mem_items_of_nodes h
    exact ⟨_, hitem, by simp⟩

theorem Disk.nodup_readDir : (d.readDir loc).Nodup :=
  (List.perm_insertionSort _ _).nodup_iff.2 (List.nodup_dedup _)

theorem Disk.canonicalize_sound {path : List (Move Name)} (h : d.canonicalize path = some loc) :
    d.nodes loc = some .dir ∨ ∃ content, d.nodes loc = some (.file content) := by
  have hsound := find_sound d.nodes_wf d.nodes_wf.root d.links path
  rw [Disk.canonicalize] at h
  split at h
  · rename_i l k hfind
    obtain rfl := Option.some.inj h
    rw [hfind] at hsound
    exact hsound
  · simp at h

theorem Disk.nodes_of_canonicalize {path : List (Move Name)} (h : d.canonicalize path = some loc) :
    d.nodes loc ≠ none := by
  rcases Disk.canonicalize_sound h with hdir | ⟨content, hfile⟩
  · rw [hdir]
    simp
  · rw [hfile]
    simp

/-- A path leads somewhere from the root, if it does so from a directory on it. -/
theorem Disk.locate_eq (hroot : d.nodes root = some .dir) (rel : List Name) :
    d.locate root rel =
      match find d.nodes d.links root (rel.map .into) with
      | .found loc _ => some loc
      | _ => none := by
  have habove : ∀ l, l <:+ root.reverse.reverse ++ [] → d.nodes l = some .dir := by
    intro l hl
    rw [List.reverse_reverse, List.append_nil] at hl
    by_cases heq : l = root
    · rw [heq]
      exact hroot
    · exact d.wf.above (by rw [← Disk.nodes, hroot]; simp) hl heq
  have hwhole : find d.nodes d.links [] ((below root rel).map .into) =
      find d.nodes d.links root (rel.map .into) := by
    have hdirs : find d.nodes d.links [] (root.reverse.map .into) = .found root d.links := by
      rw [find_dirs habove, List.reverse_reverse, List.append_nil]
    rw [below, List.map_append, find_append d.nodes_wf d.nodes_wf.root, hdirs,
      Place.onward_dir hroot]
  rw [Disk.locate, Disk.canonicalize, hwhole]

theorem Disk.locate_nil (hroot : d.nodes root = some .dir) : d.locate root [] = some root := by
  rw [Disk.locate_eq hroot, List.map_nil, find_nil]

/-- What a name leads to is in what the way before it leads to. -/
theorem Disk.locate_concat {target : List Name} (hroot : d.nodes root = some .dir)
    (h : d.locate root (rel ++ [n]) = some target) :
    ∃ loc, d.locate root rel = some loc ∧ d.nodes loc = some .dir ∧ d.nodes (n :: loc) ≠ none := by
  rw [Disk.locate_eq hroot, List.map_append, find_append d.nodes_wf hroot] at h
  rw [Disk.locate_eq hroot]
  have hsound := find_sound d.nodes_wf hroot d.links (rel.map .into)
  cases hfind : find d.nodes d.links root (rel.map .into) with
  | found loc k =>
      rw [hfind] at h hsound
      have hdir : d.nodes loc = some .dir := by
        rcases hsound with hdir | ⟨content, hfile⟩
        · exact hdir
        · simp [Place.onward, hfile] at h
      refine ⟨loc, rfl, hdir, ?_⟩
      intro hnone
      rw [Place.onward_dir hdir, List.map_cons, List.map_nil, find_into_none hnone] at h
      simp at h
  | vacant loc => simp [hfind, Place.onward] at h
  | nowhere => simp [hfind, Place.onward] at h

/-- A way that leads somewhere is made of names. -/
theorem Disk.isName_of_locate {target : List Name} (hroot : d.nodes root = some .dir)
    (h : d.locate root rel = some target) : ∀ m ∈ rel, IsName m := by
  induction rel using List.reverseRecOn generalizing target with
  | nil => simp
  | append_singleton rel n ih =>
      obtain ⟨loc, hloc, -, hn⟩ := Disk.locate_concat hroot h
      intro m hm
      rcases List.mem_append.1 hm with hm | hm
      · exact ih hloc m hm
      · rw [List.mem_singleton.1 hm]
        exact Disk.isName hn n List.mem_cons_self

/-! ## What is listed -/

theorem Disk.mem_walkItems_inl (hroot : d.nodes root = some .dir) {rel' : List Name} :
    .inl rel' ∈ d.walkItems root excluded skip rel ↔
      ∃ n target, rel' = rel ++ [n] ∧ isHidden n = false ∧
        d.locate root (rel ++ [n]) = some target ∧ d.nodes target = some .dir ∧
        target ∉ excluded := by
  rw [Disk.walkItems]
  constructor
  · intro h
    cases hloc : d.locate root rel with
    | none => simp [hloc] at h
    | some loc =>
        simp only [hloc, List.mem_filterMap] at h
        obtain ⟨n, hn, hitem⟩ := h
        split at hitem
        · simp at hitem
        · rename_i hshown
          split at hitem
          · simp at hitem
          · rename_i target htarget
            split at hitem
            · rename_i hdir
              split at hitem
              · simp at hitem
              · rename_i hin
                obtain rfl := Sum.inl.inj (Option.some.inj hitem)
                exact ⟨n, target, rfl, eq_false_of_ne_true hshown, htarget, hdir, hin⟩
            · split at hitem <;> simp at hitem
            · simp at hitem
  · rintro ⟨n, target, rfl, hshown, htarget, hdir, hin⟩
    obtain ⟨loc, hloc, -, hn⟩ := Disk.locate_concat hroot htarget
    simp only [hloc, List.mem_filterMap]
    refine ⟨n, Disk.mem_readDir.2 hn, ?_⟩
    simp [hshown, htarget, hdir, hin]

theorem Disk.mem_walkItems_inr (hroot : d.nodes root = some .dir) {rel' : List Name} :
    .inr rel' ∈ d.walkItems root excluded skip rel ↔
      ∃ n target content, rel' = rel ++ [n] ∧ isHidden n = false ∧
        d.locate root (rel ++ [n]) = some target ∧ d.nodes target = some (.file content) ∧
        below root (rel ++ [n]) ≠ skip := by
  rw [Disk.walkItems]
  constructor
  · intro h
    cases hloc : d.locate root rel with
    | none => simp [hloc] at h
    | some loc =>
        simp only [hloc, List.mem_filterMap] at h
        obtain ⟨n, hn, hitem⟩ := h
        split at hitem
        · simp at hitem
        · rename_i hshown
          split at hitem
          · simp at hitem
          · rename_i target htarget
            split at hitem
            · split at hitem <;> simp at hitem
            · rename_i content hfile
              split at hitem
              · simp at hitem
              · rename_i hskip
                obtain rfl := Sum.inr.inj (Option.some.inj hitem)
                exact ⟨n, target, content, rfl, eq_false_of_ne_true hshown, htarget, hfile, hskip⟩
            · simp at hitem
  · rintro ⟨n, target, content, rfl, hshown, htarget, hfile, hskip⟩
    obtain ⟨loc, hloc, -, hn⟩ := Disk.locate_concat hroot htarget
    simp only [hloc, List.mem_filterMap]
    refine ⟨n, Disk.mem_readDir.2 hn, ?_⟩
    simp [hshown, htarget, hfile, hskip]

theorem Disk.nodup_walkItems : (d.walkItems root excluded skip rel).Nodup := by
  rw [Disk.walkItems]
  split
  · exact List.nodup_nil
  · apply List.Nodup.filterMap _ Disk.nodup_readDir
    -- an item ends with its name
    have hlast : ∀ m (item : List Name ⊕ List Name), item ∈ (if isHidden m then none
        else
          match d.locate root (rel ++ [m]) with
          | none => none
          | some target =>
              match d.nodes target with
              | some .dir => if target ∈ excluded then none else some (.inl (rel ++ [m]))
              | some (.file _) =>
                  if below root (rel ++ [m]) = skip then none else some (.inr (rel ++ [m]))
              | _ => none : Option (List Name ⊕ List Name)) →
        item = .inl (rel ++ [m]) ∨ item = .inr (rel ++ [m]) := by
      intro m item hitem
      split at hitem
      · simp at hitem
      · split at hitem
        · simp at hitem
        · split at hitem
          · split at hitem
            · simp at hitem
            · exact Or.inl (Option.some.inj hitem).symm
          · split at hitem
            · simp at hitem
            · exact Or.inr (Option.some.inj hitem).symm
          · simp at hitem
    intro m m' item hm hm'
    rcases hlast m item hm with rfl | rfl <;> rcases hlast m' _ hm' with h | h <;> simp at h <;>
      exact h

/-- What a walk lists, and the directories it has entered, each by one of its ways. -/
structure Disk.Walked (d : Disk) (root : List Name) (excluded : List (List Name)) (skip : List Name)
    (files entered : List (List Name)) : Prop where
  start : [] ∈ entered
  dir : ∀ rel ∈ entered, ∃ loc, d.locate root rel = some loc ∧ d.nodes loc = some .dir
  shown : ∀ rel ∈ entered, ∀ n ∈ rel, isHidden n = false
  kept : ∀ rel ∈ entered, ∀ dir, dir <+: rel → dir ≠ [] → ∀ target,
    d.locate root dir = some target → target ∉ excluded
  once : (entered.map (d.locate root)).Nodup
  /-- Whatever can be gone on to has been entered, on this way or on another one. -/
  goes : ∀ rel ∈ entered, ∀ n target, isHidden n = false →
    d.locate root (rel ++ [n]) = some target → d.nodes target = some .dir → target ∉ excluded →
    ∃ rel' ∈ entered, d.locate root rel' = some target
  mem_iff : ∀ path, path ∈ files ↔ ∃ rel ∈ entered, ∃ n target content, path = rel ++ [n] ∧
    isHidden n = false ∧ d.locate root path = some target ∧
    d.nodes target = some (.file content) ∧ below root path ≠ skip
  nodup : files.Nodup

/-- The way to a directory that the walk goes on to is in sight, and not excluded. -/
theorem Disk.way_of_reach (hroot : d.nodes root = some .dir)
    (hreach : Relation.ReflTransGen
      (fun dir dir' => .inl dir' ∈ d.walkItems root excluded skip dir) [] rel) :
    (∃ loc, d.locate root rel = some loc ∧ d.nodes loc = some .dir) ∧
      (∀ n ∈ rel, isHidden n = false) ∧
      ∀ dir, dir <+: rel → dir ≠ [] → ∀ target, d.locate root dir = some target →
        target ∉ excluded := by
  induction hreach with
  | refl =>
      refine ⟨⟨root, Disk.locate_nil hroot, hroot⟩, by simp, ?_⟩
      intro dir hdir hne
      exact absurd (List.prefix_nil.1 hdir) hne
  | tail _ hstep ih =>
      obtain ⟨n, target, rfl, hshown, htarget, hdir, hin⟩ :=
        (Disk.mem_walkItems_inl hroot).1 hstep
      obtain ⟨-, ihshown, ihkept⟩ := ih
      refine ⟨⟨target, htarget, hdir⟩, ?_, ?_⟩
      · intro m hm
        rcases List.mem_append.1 hm with hm | hm
        · exact ihshown m hm
        · rw [List.mem_singleton.1 hm]
          exact hshown
      · intro dir hpre hne target' htarget'
        rcases List.prefix_concat_iff.1 hpre with rfl | hpre
        · obtain rfl := Option.some.inj (htarget.symm.trans htarget')
          exact hin
        · exact ihkept dir hpre hne target' htarget'

/-- **The walk enters every directory it can go on to, and each once**, and lists the files that
these have. -/
theorem Disk.walk_spec (d : Disk) {root : List Name} (excluded : List (List Name))
    (skip : List Name) (hroot : d.nodes root = some .dir) :
    ∃ entered, d.Walked root excluded skip (d.walk root excluded skip) entered := by
  have hkeys : ∀ rel, d.locate root rel ∈ none :: d.items.map fun item => some item.1 := by
    intro rel
    cases hloc : d.locate root rel with
    | none => exact List.mem_cons_self
    | some loc =>
        obtain ⟨node, hitem⟩ := Disk.mem_items_of_nodes (Disk.nodes_of_canonicalize hloc)
        exact List.mem_cons_of_mem _ (List.mem_map.2 ⟨_, hitem, rfl⟩)
  have hfuel : unseen (none :: d.items.map fun item => some item.1) ([] : List (Option (List Name)))
      ≤ d.items.length + 1 := by
    refine Nat.le_trans List.countP_le_length ?_
    rw [List.length_cons, List.length_map]
  obtain ⟨entered, h⟩ := covers_explore_new (d.walkItems root excluded skip) hkeys
    (b := []) (s := ⟨[], []⟩) List.not_mem_nil hfuel
  -- a key that has been seen is one of a place that was entered
  have hseen : ∀ k, k ∈ (explore (d.locate root) (d.walkItems root excluded skip)
      (d.items.length + 1) [] ⟨[], []⟩).seen → ∃ rel ∈ [] :: entered, d.locate root rel = k := by
    intro k hk
    rcases (h.seen k).1 hk with hnone | hin
    · exact absurd hnone List.not_mem_nil
    · exact List.mem_map.1 hin
  have hway : ∀ rel ∈ [] :: entered, (∃ loc, d.locate root rel = some loc ∧
      d.nodes loc = some .dir) ∧ (∀ n ∈ rel, isHidden n = false) ∧
      ∀ dir, dir <+: rel → dir ≠ [] → ∀ target, d.locate root dir = some target →
        target ∉ excluded := by
    intro rel hrel
    obtain ⟨a, ha, hreach⟩ := h.reached rel hrel
    obtain rfl := Sum.inl.inj (List.mem_singleton.1 ha)
    exact Disk.way_of_reach hroot hreach
  have hout : (d.walk root excluded skip).Perm
      (([] :: entered).flatMap fun rel => finds (d.walkItems root excluded skip rel)) := by
    simpa [Disk.walk] using h.out
  refine ⟨[] :: entered, List.mem_cons_self, fun rel hrel => (hway rel hrel).1,
    fun rel hrel => (hway rel hrel).2.1, fun rel hrel => (hway rel hrel).2.2, h.nodup, ?_, ?_, ?_⟩
  · intro rel hrel n target hshown htarget hdir hin
    obtain ⟨rel', hrel', hkey⟩ := hseen _ (h.closed rel hrel (rel ++ [n])
      ((Disk.mem_walkItems_inl hroot).2 ⟨n, target, rfl, hshown, htarget, hdir, hin⟩))
    exact ⟨rel', hrel', hkey.trans htarget⟩
  · intro path
    rw [hout.mem_iff, List.mem_flatMap]
    apply exists_congr
    intro rel
    apply and_congr_right
    intro _
    rw [mem_finds, Disk.mem_walkItems_inr hroot]
    apply exists_congr
    intro n
    constructor
    · rintro ⟨target, content, rfl, h⟩
      exact ⟨target, content, rfl, h⟩
    · rintro ⟨target, content, rfl, h⟩
      exact ⟨target, content, rfl, h⟩
  · rw [hout.nodup_iff, List.nodup_flatMap]
    refine ⟨fun rel _ => ?_, ?_⟩
    · apply List.Nodup.filterMap _ Disk.nodup_walkItems
      intro a a' c ha ha'
      cases a with
      | inl b => simp at ha
      | inr b =>
          cases a' with
          | inl b' => simp at ha'
          | inr b' =>
              obtain rfl : b = c := by simpa using ha
              obtain rfl : b' = b := by simpa using ha'
              rfl
    · have hdistinct : ([] :: entered).Nodup := List.Nodup.of_map _ h.nodup
      apply hdistinct.imp
      intro rel rel' hne path hpath hpath'
      rw [mem_finds, Disk.mem_walkItems_inr hroot] at hpath hpath'
      obtain ⟨n, -, -, rfl, -⟩ := hpath
      obtain ⟨m, -, -, heq, -⟩ := hpath'
      exact hne (List.append_inj' heq rfl).1

/-! ## Without links -/

theorem Disk.locate_eq_some_iff (hroot : d.nodes root = some .dir)
    (hfree : LinkFreeBelow d.nodes root) {target : List Name} :
    d.locate root rel = some target ↔
      target = rel.reverse ++ root ∧ d.nodes (rel.reverse ++ root) ≠ none := by
  rw [Disk.locate_eq hroot]
  have hfind : ∀ l k, find d.nodes d.links root (rel.map .into) = .found l k ↔
      k = d.links ∧ l = rel.reverse ++ root ∧ d.nodes (rel.reverse ++ root) ≠ none :=
    fun _ _ => find_of_linkFreeBelow d.nodes_wf hfree hroot rel
  constructor
  · intro h
    split at h
    · rename_i l k hl
      obtain rfl := Option.some.inj h
      obtain ⟨-, htarget, hsome⟩ := (hfind _ _).1 hl
      exact ⟨htarget, hsome⟩
    · simp at h
  · rintro ⟨rfl, hsome⟩
    rw [(hfind _ _).2 ⟨rfl, rfl, hsome⟩]

/-- What is above a file is a directory. -/
theorem Disk.dir_above {path dir : List Name} {content : Bytes}
    (hfile : d.nodes (path.reverse ++ root) = some (.file content)) (hpre : dir <+: path)
    (hne : dir ≠ path) : d.nodes (dir.reverse ++ root) = some .dir := by
  have hthere : d.nodes (path.reverse ++ root) ≠ none := by
    rw [hfile]
    simp
  apply d.nodes_wf.above hthere
  · rw [List.suffix_append_self_iff, List.reverse_suffix]
    exact hpre
  · intro heq
    exact hne (List.reverse_injective (List.append_cancel_right heq))

/-- **Below a folder without links**, the walk lists the files that are not hidden, nor in a hidden
or an excluded directory, nor the archive that is being written. -/
theorem Disk.mem_walk_iff (hroot : d.nodes root = some .dir)
    (hfree : LinkFreeBelow d.nodes root) {path : List Name} :
    path ∈ d.walk root excluded skip ↔
      (∃ content, d.nodes (path.reverse ++ root) = some (.file content)) ∧
      (∀ n ∈ path, isHidden n = false) ∧
      (∀ dir, dir <+: path → dir ≠ [] → dir ≠ path → dir.reverse ++ root ∉ excluded) ∧
      below root path ≠ skip := by
  obtain ⟨entered, h⟩ := d.walk_spec excluded skip hroot
  have hlocate : ∀ rel target, d.locate root rel = some target ↔ target = rel.reverse ++ root ∧
      d.nodes (rel.reverse ++ root) ≠ none :=
    fun _ _ => Disk.locate_eq_some_iff hroot hfree
  rw [h.mem_iff]
  constructor
  · rintro ⟨rel, hrel, n, target, content, rfl, hshown, htarget, hfile, hskip⟩
    obtain ⟨rfl, -⟩ := (hlocate _ _).1 htarget
    refine ⟨⟨content, hfile⟩, ?_, ?_, hskip⟩
    · intro m hm
      rcases List.mem_append.1 hm with hm | hm
      · exact h.shown rel hrel m hm
      · rw [List.mem_singleton.1 hm]
        exact hshown
    · intro dir hpre hne hnot
      rcases List.prefix_concat_iff.1 hpre with heq | hpre
      · exact absurd heq hnot
      · apply h.kept rel hrel dir hpre hne
        apply (hlocate _ _).2
        refine ⟨rfl, ?_⟩
        rw [Disk.dir_above hfile (hpre.trans (List.prefix_append _ _)) hnot]
        simp
  · rintro ⟨⟨content, hfile⟩, hshown, hkept, hskip⟩
    -- each directory on the way has been entered, and there is one way to it
    have hentered : ∀ dir, dir <+: path → dir ≠ path → dir ∈ entered := by
      intro dir
      induction dir using List.reverseRecOn with
      | nil =>
          intro _ _
          exact h.start
      | append_singleton dir m ih =>
          intro hpre hne
          have hbefore : dir <+: path := (List.prefix_append dir [m]).trans hpre
          have hshorter : dir ≠ path := by
            rintro rfl
            have hlength := hpre.length_le
            rw [List.length_append, List.length_singleton] at hlength
            omega
          have hdir := Disk.dir_above hfile hpre hne
          have hm : m ∈ path := hpre.subset (List.mem_append_right _ (List.mem_singleton_self m))
          obtain ⟨rel', hrel', hkey⟩ := h.goes dir (ih hbefore hshorter) m _ (hshown m hm)
            ((hlocate _ _).2 ⟨rfl, by rw [hdir]; simp⟩) hdir (hkept _ hpre (by simp) hne)
          obtain ⟨heq, -⟩ := (hlocate _ _).1 hkey
          rw [List.reverse_injective (List.append_cancel_right heq)]
          exact hrel'
    have hne : path ≠ [] := by
      rintro rfl
      exact absurd (hroot.symm.trans hfile) (by simp)
    obtain ⟨rel, n, rfl⟩ : ∃ rel n, path = rel ++ [n] :=
      ⟨_, _, (List.dropLast_append_getLast hne).symm⟩
    exact ⟨rel, hentered rel (List.prefix_append _ _) (by simp), n, _, content, rfl,
      hshown n (by simp), (hlocate _ _).2 ⟨rfl, by rw [hfile]; simp⟩, hfile, hskip⟩

/-- **What a walk lists**: it enters every directory that it can go on to, once, whatever the links,
and lists the files that these have; where there are no links, these are all the files that are
neither hidden nor excluded. -/
theorem walk_lists (hroot : d.nodes root = some .dir) :
    (∃ entered, d.Walked root excluded skip (d.walk root excluded skip) entered) ∧
      (LinkFreeBelow d.nodes root → ∀ path, path ∈ d.walk root excluded skip ↔
        (∃ content, d.nodes (path.reverse ++ root) = some (.file content)) ∧
        (∀ n ∈ path, isHidden n = false) ∧
        (∀ dir, dir <+: path → dir ≠ [] → dir ≠ path → dir.reverse ++ root ∉ excluded) ∧
        below root path ≠ skip) :=
  ⟨d.walk_spec excluded skip hroot, fun hfree _ => Disk.mem_walk_iff hroot hfree⟩

/-- A folder stands at the place. -/
def isDirIn (items : List (List Name × Node Name Bytes)) (loc : List Name) : Bool :=
  match nodesOf items loc with
  | some .dir => true
  | _ => false

/-- Everything is in a directory. -/
def wellPlaced (items : List (List Name × Node Name Bytes)) : Bool :=
  isDirIn items [] && items.all fun item => item.1 = [] || isDirIn items item.1.tail

theorem wf_nodesOf {items : List (List Name × Node Name Bytes)} (h : wellPlaced items = true) :
    (nodesOf items).Wf := by
  have hdir : ∀ loc, isDirIn items loc = true → nodesOf items loc = some .dir := by
    intro loc hloc
    rw [isDirIn] at hloc
    split at hloc
    · assumption
    · simp at hloc
  rw [wellPlaced, Bool.and_eq_true, List.all_eq_true] at h
  refine ⟨hdir [] h.1, ?_⟩
  intro n loc hsome
  rw [nodesOf, Ne, Option.map_eq_none_iff] at hsome
  obtain ⟨item, hitem⟩ := Option.ne_none_iff_exists'.1 hsome
  have heq : item.1 = n :: loc := by simpa using List.find?_some hitem
  have hplaced := h.2 item (List.mem_of_find?_eq_some hitem)
  rw [heq, Bool.or_eq_true] at hplaced
  exact hdir loc (hplaced.resolve_left (by simp))

theorem nodesOf_cons (item : List Name × Node Name Bytes)
    (items : List (List Name × Node Name Bytes)) :
    nodesOf (item :: items) = add (nodesOf items) item.1 item.2 := by
  funext loc
  show ((item :: items).find? fun item => item.1 = loc).map (·.2) =
    if loc = item.1 then some item.2 else (items.find? fun item => item.1 = loc).map (·.2)
  by_cases h : item.1 = loc
  · simp [h]
  · simp [h, Ne.symm h]

/-- A folder with a file and with a link back to the folder. -/
def loopDisk : Disk where
  links := 8
  items := [([], .dir), (["p".toList], .dir), (["a".toList, "p".toList], .file [1]),
    (["l".toList, "p".toList], .link true [.into "p".toList])]
  wf := wf_nodesOf (by decide)
  named := by decide

theorem walk_lists_loop : ∃ entered, loopDisk.Walked ["p".toList] [] []
    (loopDisk.walk ["p".toList] [] []) entered := by
  have hroot : loopDisk.nodes ["p".toList] = some .dir := rfl
  exact And.left (walk_lists hroot)

end Disk

end DialF.Bundle
