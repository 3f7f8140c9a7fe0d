import DialF.Daemon.Inbound
import DialF.Lib.FilePlacing

/-!
# Extracting a bundle

`extract_bundle_zip` of `bundle.rs`. A first pass over the entries of the archive looks for the
folder of the shallowest `config.yaml`, a second one plans a target for each entry below it and
refuses the archive if a target is there already, and only then is anything written: the directories
of a target, and a file at it.

That a target is not there does not mean that it can be written, nor that it is in the destination.
`extractBundleZip_meets_iff` says for which archives and trees extraction is atomic and confined.
-/

set_option autoImplicit false

namespace DialF.Bundle

open DialF.Lib
open DialF.Daemon (pathComponents isRelativePath)

/-- One part of a path. -/
abbrev Name := List Char

/-- The content of a file. -/
abbrev Bytes := List UInt8

/-- An entry of an archive. -/
structure ZipEntry where
  name : List Char
  encrypted : Bool
  /-- What `is_dir` says of it. -/
  isDir : Bool
  bytes : Bytes

/-- What stops an extraction, with the texts. -/
inductive ExtractError where
  /-- "{} is password-protected — dialf can't decrypt zips" -/
  | encrypted
  /-- "not a valid dialf bundle: no config.yaml in {}" -/
  | noConfig
  /-- "refusing zip entry with an unsafe path: {name}" -/
  | unsafePath (name : List Char)
  /-- "won't overwrite {} existing file(s) in {} (first: {})" -/
  | overwrite (conflicts : List (List Char))
  /-- A directory that cannot be made, or "write {}". -/
  | write (rel : List Char)
  deriving DecidableEq

/-! ## What is planned -/

/-- Behind the last separator. -/
def zipBase (name : List Char) : List Char := (name.reverse.takeWhile (· ≠ '/')).reverse

/-- Up to the last separator. -/
def zipParent (name : List Char) : List Char := (name.reverse.dropWhile (· ≠ '/')).reverse

/-- `is_zip_junk`: what archivers leave behind. -/
def isZipJunk (name : List Char) : Bool :=
  "__MACOSX/".toList.isPrefixOf name || zipBase name = ".DS_Store".toList ||
    zipBase name = "Thumbs.db".toList

/-- The parent of the shallowest `config.yaml`, and of the first of them. -/
def bundleFolder (best : Option (List Char)) :
    List ZipEntry → Except ExtractError (Option (List Char))
  | [] => .ok best
  | entry :: entries =>
      if entry.encrypted then .error .encrypted
      else if isZipJunk entry.name then bundleFolder best entries
      else if zipBase entry.name = "config.yaml".toList ∧
          best.all fun b => (zipParent entry.name).count '/' < b.count '/' then
        bundleFolder (some (zipParent entry.name)) entries
      else bundleFolder best entries

/-- A path that is to be refused: an absolute one, or one with more than names in it. -/
def isUnsafePath (rel : List Char) : Bool :=
  !isRelativePath rel || (pathComponents rel).any fun c => c = ['.'] || c = ['.', '.']

/-- What is to be written, and where to, below the destination. -/
structure Planned where
  rel : List Char
  bytes : Bytes
  safe : isUnsafePath rel = false
  deriving DecidableEq

/-- What is below the folder, and is not a directory or junk. -/
def planBelow (folder : List Char) : List ZipEntry → Except ExtractError (List Planned)
  | [] => .ok []
  | entry :: entries =>
      if entry.isDir || isZipJunk entry.name then planBelow folder entries
      else if folder.isPrefixOf entry.name then
        if h : isUnsafePath (entry.name.drop folder.length) then .error (.unsafePath entry.name)
        else
          (planBelow folder entries).map
            (⟨entry.name.drop folder.length, entry.bytes, eq_false_of_ne_true h⟩ :: ·)
      else planBelow folder entries

/-- What is to be written: every entry below the bundle's folder, with its target. -/
def planOf (entries : List ZipEntry) : Except ExtractError (List Planned) :=
  match bundleFolder none entries with
  | .error e => .error e
  | .ok none => .error .noConfig
  | .ok (some folder) => planBelow folder entries

/-! ## Targets -/

namespace Planned

/-- Nothing between separators, or a `.`: no step further. -/
def isStay (part : List Char) : Bool := part = [] || part = ['.']

/-- The names of the target, `Path::components`. -/
def names (p : Planned) : List Name := pathComponents p.rel

/-- The path of the target, part by part. -/
def moves (p : Planned) : List (Move Name) :=
  (p.rel.splitOn '/').map fun part => if isStay part then .stay else .into part

/-- A path with no name at its end, which a file cannot have. -/
def asDir (p : Planned) : Bool := (p.rel.splitOn '/').getLast?.all isStay

/-- `target.exists()`. -/
def targetExists (links : Nat) (dest : List Name) (nodes : Nodes Name Bytes) (p : Planned) : Bool :=
  match find nodes links dest p.moves with
  | .found _ _ => true
  | _ => false

/-- Make the directories of the target, and write the file. -/
def write (links : Nat) (dest : List Name) (nodes : Nodes Name Bytes) (p : Planned) :
    Nodes Name Bytes × Bool :=
  match createDirAll nodes links dest p.names.dropLast with
  | none => (nodes, false)
  | some made =>
      match createFile made p.bytes (find made links dest p.moves) with
      | none => (made, false)
      | some written => (written, true)

end Planned

/-- Write one after the other, up to the first that cannot be written. -/
def writeAll (links : Nat) (dest : List Name) (nodes : Nodes Name Bytes) :
    List Planned → Nodes Name Bytes × Option (List Char)
  | [] => (nodes, none)
  | p :: plan =>
      if (p.write links dest nodes).2 then writeAll links dest (p.write links dest nodes).1 plan
      else ((p.write links dest nodes).1, some p.rel)

/-- Extract an archive into a tree, at the location `dest`: the tree afterwards, and how many files
have been written. -/
def extractBundleZip (links : Nat) (dest : List Name) (nodes : Nodes Name Bytes)
    (entries : List ZipEntry) : Nodes Name Bytes × Except ExtractError Nat :=
  match planOf entries with
  | .error e => (nodes, .error e)
  | .ok plan =>
      if (plan.filter (·.targetExists links dest nodes)) ≠ [] then
        (nodes, .error (.overwrite ((plan.filter (·.targetExists links dest nodes)).map (·.rel))))
      else
        ((writeAll links dest nodes plan).1,
          match (writeAll links dest nodes plan).2 with
          | none => .ok plan.length
          | some rel => .error (.write rel))

/-! ## Atomic and confined -/

/-- A directory to extract into, and the tree it is in. -/
structure Workspace where
  /-- How many links the system follows on a path. -/
  links : Nat
  nodes : Nodes Name Bytes
  dest : List Name
  wf : nodes.Wf
  dest_dir : nodes dest = some .dir

/-- What a path from the destination leads to. -/
def look (links : Nat) (dest : List Name) (nodes : Nodes Name Bytes) (path : List (Move Name)) :
    Option (Node Name Bytes) :=
  match find nodes links dest path with
  | .found loc _ => nodes loc
  | _ => none

/-- An unsafe path, or a conflict: with a file or a directory of the tree, or among the entries. -/
def ExtractError.IsConflict : ExtractError → Prop
  | .encrypted | .noConfig => False
  | .unsafePath _ | .overwrite _ | .write _ => True

/-- **Extraction is atomic and confined**: for a conflict, every path from the destination leads to
what it has led to; otherwise no file has changed, and every planned entry has been written inside
the destination. -/
structure Workspace.Meets (ws : Workspace) (entries : List ZipEntry) : Prop where
  spared : ∀ e, (extractBundleZip ws.links ws.dest ws.nodes entries).2 = .error e → e.IsConflict →
    look ws.links ws.dest (extractBundleZip ws.links ws.dest ws.nodes entries).1 =
      look ws.links ws.dest ws.nodes
  kept : ∀ n, (extractBundleZip ws.links ws.dest ws.nodes entries).2 = .ok n →
    ∀ loc content, ws.nodes loc = some (.file content) →
      (extractBundleZip ws.links ws.dest ws.nodes entries).1 loc = some (.file content)
  written : ∀ n, (extractBundleZip ws.links ws.dest ws.nodes entries).2 = .ok n →
    ∀ plan, planOf entries = .ok plan → ∀ p ∈ plan, ∃ loc k,
      find (extractBundleZip ws.links ws.dest ws.nodes entries).1 ws.links ws.dest p.moves =
        .found loc k ∧
      ws.dest <:+ loc ∧
      (extractBundleZip ws.links ws.dest ws.nodes entries).1 loc = some (.file p.bytes)

/-- Where a target would be put. -/
def Planned.place (links : Nat) (dest : List Name) (nodes : Nodes Name Bytes) (p : Planned) :
    Option (List Name) :=
  p.names.getLast?.bind fun n => landing nodes links dest p.names.dropLast n

/-- Nothing is made for a target: it has no place; or its path has no name at its end, and all of
its directories are there. -/
def Planned.Barred (links : Nat) (dest : List Name) (nodes : Nodes Name Bytes) (p : Planned) : Prop :=
  p.place links dest nodes = none ∨
    p.asDir = true ∧ ∃ loc k, find nodes links dest (p.names.dropLast.map .into) = .found loc k ∧
      nodes loc = some .dir

/-- One after the other, with the ones before it in place, each target has its place inside the
destination, where there is nothing, or just what is to be written. -/
def Lays (links : Nat) (dest : List Name) : Nodes Name Bytes → List Planned → Prop
  | _, [] => True
  | nodes, p :: plan =>
      p.asDir = false ∧ ∃ loc, p.place links dest nodes = some loc ∧ dest <:+ loc ∧
        (nodes loc = none ∨ nodes loc = some (.file p.bytes)) ∧
        Lays links dest (placed nodes loc p.bytes) plan

/-- An archive that the first passes refuse, or whose first target nothing is made for, or all of
whose targets have their places. -/
def Workspace.Extractable (ws : Workspace) (entries : List ZipEntry) : Prop :=
  ∀ plan, planOf entries = .ok plan →
    (∃ p ∈ plan, p.targetExists ws.links ws.dest ws.nodes = true) ∨
      (∃ p rest, plan = p :: rest ∧ p.Barred ws.links ws.dest ws.nodes) ∨
      Lays ws.links ws.dest ws.nodes plan

/-! ### Paths of targets -/

section Moves

variable {nodes : Nodes Name Bytes} {links : Nat} {dest : List Name}

theorem onward_stay_onward (place : Place Name) {path : List (Move Name)} (hne : path ≠ []) :
    (place.onward nodes [.stay]).onward nodes path = place.onward nodes path := by
  cases place with
  | found loc k =>
      cases hnode : nodes loc with
      | none => simp [Place.onward, hnode, hne]
      | some node =>
          cases node with
          | dir => rw [Place.onward_dir hnode, find_stay, find_nil]
          | file content => simp [Place.onward, hnode, hne]
          | link fromRoot target => simp [Place.onward, hnode, hne]
  | vacant loc => simp [Place.onward, hne]
  | nowhere => rfl

/-- A `.` or nothing between separators makes no difference, but at the end. -/
theorem find_parts (h : nodes.Wf) (hdest : nodes dest = some .dir) (parts : List (List Char)) :
    find nodes links dest
        (parts.map fun part => if Planned.isStay part then .stay else .into part) =
      if parts.getLast?.all Planned.isStay then
        (find nodes links dest ((parts.filter (!Planned.isStay ·)).map .into)).onward nodes [.stay]
      else find nodes links dest ((parts.filter (!Planned.isStay ·)).map .into) := by
  induction parts using List.reverseRecOn with
  | nil => simp [Place.onward_dir hdest]
  | append_singleton parts part ih =>
      rw [List.map_append, find_append h hdest, ih, List.getLast?_append, List.filter_append]
      by_cases hstay : Planned.isStay part = true
      · simp only [List.map_cons, List.map_nil, hstay, if_true, List.getLast?_singleton,
          Option.some_or, Option.all_some, List.filter_cons, Bool.not_true, Bool.false_eq_true,
          if_false, List.filter_nil, List.append_nil]
        split
        · exact onward_stay_onward _ (by simp)
        · rfl
      · rw [Bool.not_eq_true] at hstay
        simp only [List.map_cons, List.map_nil, hstay, Bool.false_eq_true, if_false,
          List.getLast?_singleton, Option.some_or, Option.all_some, List.filter_cons, Bool.not_false,
          if_true, List.filter_nil, List.map_append]
        rw [find_append h hdest]
        split
        · exact onward_stay_onward _ (by simp)
        · rfl

namespace Planned

variable {p : Planned}

/-- The names are what is left of the parts. -/
theorem names_eq (p : Planned) : p.names = (p.rel.splitOn '/').filter (!isStay ·) := by
  have hsafe := p.safe
  rw [isUnsafePath, Bool.or_eq_false_iff] at hsafe
  obtain ⟨-, hnormal⟩ := hsafe
  rw [names, pathComponents] at *
  cases hparts : p.rel.splitOn '/' with
  | nil => rfl
  | cons head rest =>
      rw [hparts] at hnormal
      simp only at hnormal ⊢
      by_cases hdot : head = ['.']
      · simp [hdot] at hnormal
      · have hrest : (rest.filter fun part => part ≠ [] && part ≠ ['.']) =
            rest.filter (!isStay ·) := by
          apply List.filter_congr
          intro part _
          simp [isStay]
        rw [if_neg hdot, hrest, List.filter_cons]
        by_cases hnil : head = []
        · simp [isStay, hnil]
        · simp [isStay, hnil, hdot]

theorem find_moves (h : nodes.Wf) (hdest : nodes dest = some .dir) (p : Planned) :
    find nodes links dest p.moves =
      if p.asDir then (find nodes links dest (p.names.map .into)).onward nodes [.stay]
      else find nodes links dest (p.names.map .into) := by
  rw [moves, find_parts h hdest, ← names_eq]
  rfl

/-- A path with a name at its end. -/
theorem exists_name (h : p.asDir = false) :
    ∃ n, p.names.getLast? = some n ∧
      p.names.map Move.into = p.names.dropLast.map Move.into ++ [Move.into n] := by
  have hlast : ∃ n, p.names.getLast? = some n := by
    rw [asDir] at h
    rw [names_eq]
    cases hparts : (p.rel.splitOn '/').getLast? with
    | none => simp [hparts] at h
    | some part =>
        rw [hparts, Option.all_some] at h
        refine ⟨part, ?_⟩
        rw [← List.dropLast_append_getLast? part hparts, List.filter_append, List.getLast?_append]
        simp [h]
  obtain ⟨n, hn⟩ := hlast
  refine ⟨n, hn, ?_⟩
  conv_lhs => rw [← List.dropLast_append_getLast? n hn]
  rw [List.map_append]
  rfl

end Planned

end Moves

/-! ### One target -/

namespace Planned

variable {nodes : Nodes Name Bytes} {links : Nat} {dest loc : List Name} {p : Planned}

/-- **A target is put in its place**, if there is no directory. -/
theorem write_of_place (h : nodes.Wf) (hdest : nodes dest = some .dir) (hname : p.asDir = false)
    (hplace : p.place links dest nodes = some loc) (hloc : nodes loc ≠ some .dir) :
    p.write links dest nodes = (placed nodes loc p.bytes, true) ∧
      (placed nodes loc p.bytes).Wf ∧ Grows nodes (placed nodes loc p.bytes) ∧
      ∃ k, find (placed nodes loc p.bytes) links dest p.moves = .found loc k := by
  obtain ⟨n, hlast, hnames⟩ := exists_name hname
  rw [place, hlast] at hplace
  obtain ⟨made, hmade, hwritten, hwf, hgrows, k, hfound⟩ :=
    createFile_of_landing h hdest hplace hloc p.bytes
  obtain ⟨hmadewf, hmadegrows⟩ := wf_createDirAll h hdest hmade
  refine ⟨?_, hwf, hgrows, k, ?_⟩
  · rw [write, hmade]
    simp only
    rw [find_moves hmadewf (hmadegrows.dir hdest), if_neg (by simp [hname]), hnames, hwritten]
  · rw [find_moves hwf (hgrows.dir hdest), if_neg (by simp [hname]), hnames]
    exact hfound

/-- A path with no name at its end cannot be written. -/
theorem write_of_asDir (h : nodes.Wf) (hdest : nodes dest = some .dir) (hname : p.asDir = true) :
    p.write links dest nodes =
      ((createDirAll nodes links dest p.names.dropLast).getD nodes, false) := by
  rw [write]
  cases hmade : createDirAll nodes links dest p.names.dropLast with
  | none => rfl
  | some made =>
      obtain ⟨hwf, hgrows⟩ := wf_createDirAll h hdest hmade
      simp only
      rw [find_moves hwf (hgrows.dir hdest), if_pos hname, createFile_onward_stay]
      rfl

/-- Without a place, or with a directory at it, nothing is done. -/
theorem write_of_no_place (h : nodes.Wf) (hdest : nodes dest = some .dir)
    (hplace : ∀ loc, p.place links dest nodes = some loc → nodes loc = some .dir) :
    p.write links dest nodes = (nodes, false) := by
  cases hlast : p.names.getLast? with
  | none =>
      have hnil : p.names = [] := List.getLast?_eq_none_iff.1 hlast
      have hname : p.asDir = true := by
        by_contra hname
        obtain ⟨n, hn, -⟩ := exists_name (eq_false_of_ne_true hname)
        rw [hlast] at hn
        exact absurd hn (by simp)
      rw [write_of_asDir h hdest hname, hnil]
      rfl
  | some n =>
      have hlanding : ∀ loc, landing nodes links dest p.names.dropLast n = some loc →
          nodes loc = some .dir := by
        intro loc hloc
        apply hplace
        rw [place, hlast]
        exact hloc
      rw [write]
      cases hmade : createDirAll nodes links dest p.names.dropLast with
      | none => rfl
      | some made =>
          obtain ⟨rfl, hfails⟩ := createFile_of_no_landing h hdest hlanding hmade p.bytes
          have hnone : createFile made p.bytes (find made links dest p.moves) = none := by
            rw [find_moves h hdest]
            split
            · exact createFile_onward_stay _ _ _
            · rename_i hname
              obtain ⟨m, hm, hnames⟩ := exists_name (eq_false_of_ne_true hname)
              obtain rfl := Option.some.inj (hlast.symm.trans hm)
              rw [hnames]
              exact hfails
          simp only
          rw [hnone]

/-- **What can be written.** -/
theorem write_snd_iff (h : nodes.Wf) (hdest : nodes dest = some .dir) :
    (p.write links dest nodes).2 = true ↔
      p.asDir = false ∧ ∃ loc, p.place links dest nodes = some loc ∧ nodes loc ≠ some .dir := by
  constructor
  · intro hwritten
    have hname : p.asDir = false := by
      by_contra hname
      rw [write_of_asDir h hdest (eq_true_of_ne_false hname)] at hwritten
      exact absurd hwritten (by simp)
    refine ⟨hname, ?_⟩
    by_contra hnone
    rw [write_of_no_place h hdest] at hwritten
    · exact absurd hwritten (by simp)
    · intro loc hloc
      by_contra hdir
      exact hnone ⟨loc, hloc, hdir⟩
  · rintro ⟨hname, loc, hplace, hloc⟩
    rw [(write_of_place h hdest hname hplace hloc).1]

theorem grows_write (h : nodes.Wf) (hdest : nodes dest = some .dir) (p : Planned) :
    (p.write links dest nodes).1.Wf ∧ Grows nodes (p.write links dest nodes).1 := by
  by_cases hname : p.asDir = true
  · rw [write_of_asDir h hdest hname]
    cases hmade : createDirAll nodes links dest p.names.dropLast with
    | none => exact ⟨h, Grows.refl nodes⟩
    | some made => exact wf_createDirAll h hdest hmade
  · by_cases hplace : ∃ loc, p.place links dest nodes = some loc ∧ nodes loc ≠ some .dir
    · obtain ⟨loc, hloc, hdir⟩ := hplace
      obtain ⟨heq, hwf, hgrows, -⟩ :=
        write_of_place h hdest (eq_false_of_ne_true hname) hloc hdir
      rw [heq]
      exact ⟨hwf, hgrows⟩
    · rw [write_of_no_place h hdest]
      · exact ⟨h, Grows.refl nodes⟩
      · intro loc hloc
        by_contra hdir
        exact hplace ⟨loc, hloc, hdir⟩

end Planned

/-! ### All of them -/

section All

variable {nodes : Nodes Name Bytes} {links : Nat} {dest : List Name} {plan : List Planned}

theorem grows_writeAll (h : nodes.Wf) (hdest : nodes dest = some .dir) (plan : List Planned) :
    Grows nodes (writeAll links dest nodes plan).1 := by
  induction plan generalizing nodes with
  | nil => exact Grows.refl nodes
  | cons p plan ih =>
      obtain ⟨hwf, hgrows⟩ : (p.write links dest nodes).1.Wf ∧
          Grows nodes (p.write links dest nodes).1 := p.grows_write h hdest
      rw [writeAll]
      split
      · exact hgrows.trans (ih hwf (hgrows.dir hdest))
      · exact hgrows

/-- A file that has been put in its place is found there at the end. -/
theorem found_after {p : Planned} (h : nodes.Wf) (hdest : nodes dest = some .dir)
    (hname : p.asDir = false) {loc : List Name} (hplace : p.place links dest nodes = some loc)
    (hloc : nodes loc ≠ some .dir) (plan : List Planned) :
    ∃ k content,
      find (writeAll links dest (placed nodes loc p.bytes) plan).1 links dest p.moves =
        .found loc k ∧
      (writeAll links dest (placed nodes loc p.bytes) plan).1 loc = some (.file content) := by
  obtain ⟨-, hwf, hgrows, k, hfound⟩ := Planned.write_of_place h hdest hname hplace hloc
  have hrest : Grows (placed nodes loc p.bytes)
      (writeAll links dest (placed nodes loc p.bytes) plan).1 :=
    grows_writeAll hwf (hgrows.dir hdest) plan
  obtain ⟨content, hcontent⟩ := hrest.file (placed_self nodes loc p.bytes)
  exact ⟨k, content, find_of_grows hrest hfound, hcontent⟩

/-- **Where all has been written**: no file has changed and everything is where it should be, with its
bytes, exactly if each target had its place. -/
theorem kept_written_iff (h : nodes.Wf) (hdest : nodes dest = some .dir)
    (hall : (writeAll links dest nodes plan).2 = none) :
    ((∀ loc content, nodes loc = some (.file content) →
        (writeAll links dest nodes plan).1 loc = some (.file content)) ∧
      ∀ p ∈ plan, ∃ loc k,
        find (writeAll links dest nodes plan).1 links dest p.moves = .found loc k ∧ dest <:+ loc ∧
        (writeAll links dest nodes plan).1 loc = some (.file p.bytes)) ↔
      Lays links dest nodes plan := by
  induction plan generalizing nodes with
  | nil => exact iff_of_true ⟨fun _ _ hfile => hfile, by simp⟩ trivial
  | cons p plan ih =>
      rw [writeAll] at hall ⊢
      split at hall
      · rename_i hwritten
        obtain ⟨hname, loc, hplace, hloc⟩ := (Planned.write_snd_iff h hdest).1 hwritten
        obtain ⟨heq, hwf, hgrows, -⟩ := Planned.write_of_place h hdest hname hplace hloc
        obtain ⟨k, content, hfound, hcontent⟩ := found_after h hdest hname hplace hloc plan
        rw [if_pos hwritten]
        rw [heq] at hall ⊢
        simp only at hall ⊢
        have hrest := ih hwf (hgrows.dir hdest) hall
        generalize writeAll links dest (placed nodes loc p.bytes) plan = after at *
        constructor
        · rintro ⟨hkept, hthere⟩
          -- it is found in its place, so that what it says of its bytes is about that place
          obtain ⟨loc', k', hfound', hinside, hbytes⟩ := hthere p List.mem_cons_self
          obtain ⟨rfl, -⟩ := Place.found.inj (hfound.symm.trans hfound')
          refine ⟨hname, loc, hplace, hinside, ?_, hrest.1 ⟨?_, ?_⟩⟩
          · cases hnode : nodes loc with
            | none => exact Or.inl rfl
            | some node =>
                cases node with
                | dir => exact absurd hnode hloc
                | file old =>
                    have hold := hkept loc old hnode
                    rw [hbytes] at hold
                    exact Or.inr hold.symm
                | link fromRoot target =>
                    have hlink := hgrows.link hnode
                    rw [placed_self] at hlink
                    exact absurd hlink (by simp)
          · intro l old hfile
            by_cases heql : l = loc
            · subst heql
              rw [placed_self] at hfile
              rw [hbytes, hfile]
            · exact hkept l old ((placed_eq_file_iff heql).1 hfile)
          · intro q hq
            exact hthere q (List.mem_cons_of_mem _ hq)
        · rintro ⟨-, loc', hplace', hinside, hfree, hlays⟩
          obtain rfl := Option.some.inj (hplace.symm.trans hplace')
          obtain ⟨hkept, hthere⟩ := hrest.2 hlays
          have hbytes := hkept loc p.bytes (placed_self nodes loc p.bytes)
          refine ⟨?_, ?_⟩
          · intro l old hfile
            by_cases heql : l = loc
            · subst heql
              rcases hfree with hnone | hsame
              · exact absurd (hfile.symm.trans hnone) (by simp)
              · rw [hbytes, ← hsame, hfile]
            · exact hkept l old ((placed_eq_file_iff heql).2 hfile)
          · intro q hq
            rcases List.mem_cons.1 hq with rfl | hq
            · exact ⟨loc, k, hfound, hinside, hbytes⟩
            · exact hthere q hq
      · exact absurd hall (by simp)

/-- Targets that have their places can be written. -/
theorem writeAll_of_lays (h : nodes.Wf) (hdest : nodes dest = some .dir)
    (hlays : Lays links dest nodes plan) : (writeAll links dest nodes plan).2 = none := by
  induction plan generalizing nodes with
  | nil => rfl
  | cons p plan ih =>
      obtain ⟨hname, loc, hplace, -, hfree, hrest⟩ := hlays
      have hloc : nodes loc ≠ some .dir := by
        rcases hfree with hnone | hsame
        · rw [hnone]
          simp
        · rw [hsame]
          simp
      obtain ⟨heq, hwf, hgrows, -⟩ := Planned.write_of_place h hdest hname hplace hloc
      rw [writeAll, heq]
      exact ih hwf (hgrows.dir hdest) hrest

end All

/-! ### The first that cannot be written -/

section First

variable {nodes : Nodes Name Bytes} {links : Nat} {dest : List Name} {p : Planned}

theorem Planned.targetExists_iff :
    p.targetExists links dest nodes = true ↔
      ∃ loc k, find nodes links dest p.moves = .found loc k := by
  rw [targetExists]
  split
  · rename_i loc k hfind
    exact iff_of_true rfl ⟨loc, k, hfind⟩
  · rename_i hfind
    refine iff_of_false (by simp) ?_
    rintro ⟨loc, k, h⟩
    exact hfind loc k h

theorem look_of_find {path : List (Move Name)} {loc : List Name} {k : Nat}
    (h : find nodes links dest path = .found loc k) : look links dest nodes path = nodes loc := by
  rw [look, h]

/-- Nothing is made for a target that is barred. -/
theorem Planned.Barred.write_eq (hbarred : p.Barred links dest nodes) (h : nodes.Wf)
    (hdest : nodes dest = some .dir) : p.write links dest nodes = (nodes, false) := by
  rcases hbarred with hnone | ⟨hname, loc, k, hfind, hdir⟩
  · apply write_of_no_place h hdest
    intro loc hplace
    rw [hnone] at hplace
    exact absurd hplace (by simp)
  · rw [write_of_asDir h hdest hname]
    cases hmade : createDirAll nodes links dest p.names.dropLast with
    | none => rfl
    | some made =>
        obtain ⟨dir, k', hdirs, -, hcase⟩ := createDirAll_spec h hdest hmade
        rcases hcase with ⟨rfl, -⟩ | ⟨hnone, -, -⟩
        · rfl
        · -- the directories that are there are the ones that would be made
          obtain ⟨-, hgrows⟩ := wf_createDirAll h hdest hmade
          obtain ⟨rfl, -⟩ := Place.found.inj ((find_of_grows hgrows hfind).symm.trans hdirs)
          exact absurd (hdir.symm.trans hnone) (by simp)

/-- **A tree that is spared** is one in which nothing has been made for the first target. -/
theorem barred_of_spared (h : nodes.Wf) (hdest : nodes dest = some .dir) {plan : List Planned}
    (hnew : p.targetExists links dest nodes ≠ true)
    (hspared : look links dest (writeAll links dest nodes (p :: plan)).1 = look links dest nodes) :
    p.Barred links dest nodes := by
  have hlook : look links dest nodes p.moves = none := by
    rw [look]
    split
    · rename_i loc k hfind
      exact absurd (Planned.targetExists_iff.2 ⟨loc, k, hfind⟩) hnew
    · rfl
  by_contra hbarred
  rw [Planned.Barred, not_or] at hbarred
  obtain ⟨hplace, hdirs⟩ := hbarred
  obtain ⟨loc, hplace⟩ := Option.ne_none_iff_exists'.1 hplace
  cases hname : p.asDir with
  | true =>
      -- its directories have been made
      have hwrite : p.write links dest nodes =
          ((createDirAll nodes links dest p.names.dropLast).getD nodes, false) :=
        Planned.write_of_asDir h hdest hname
      rw [writeAll, hwrite] at hspared
      simp only [Bool.false_eq_true, if_false] at hspared
      cases hmade : createDirAll nodes links dest p.names.dropLast with
      | none =>
          rw [Planned.place, Option.bind_eq_some_iff] at hplace
          obtain ⟨n, -, hlanding⟩ := hplace
          rw [landing_of_createDirAll_none h hdest hmade] at hlanding
          exact absurd hlanding (by simp)
      | some made =>
          rw [hmade, Option.getD_some] at hspared
          obtain ⟨dir, k, hfound, hdir, -⟩ := createDirAll_spec h hdest hmade
          apply hdirs
          have hthere := congrFun hspared (p.names.dropLast.map .into)
          rw [look_of_find hfound, hdir, look] at hthere
          refine ⟨hname, ?_⟩
          cases hfind : find nodes links dest (p.names.dropLast.map .into) with
          | found loc' k' =>
              rw [hfind] at hthere
              exact ⟨loc', k', rfl, hthere.symm⟩
          | vacant loc' =>
              rw [hfind] at hthere
              exact absurd hthere (by simp)
          | nowhere =>
              rw [hfind] at hthere
              exact absurd hthere (by simp)
  | false =>
      -- it has been written itself
      have hfree : nodes loc = none := by
        by_contra hsome
        obtain ⟨n, hlast, hnames⟩ := Planned.exists_name hname
        rw [Planned.place, hlast] at hplace
        obtain ⟨k, hfound⟩ := find_of_landing h hdest hplace hsome
        apply hnew
        apply Planned.targetExists_iff.2
        refine ⟨loc, k, ?_⟩
        rw [Planned.find_moves h hdest, if_neg (by simp [hname]), hnames]
        exact hfound
      have hloc : nodes loc ≠ some .dir := by
        rw [hfree]
        simp
      obtain ⟨heq, -⟩ := Planned.write_of_place h hdest hname hplace hloc
      obtain ⟨k, content, hfound, hcontent⟩ := found_after h hdest hname hplace hloc plan
      rw [writeAll, heq] at hspared
      have hthere := congrFun hspared p.moves
      rw [if_pos rfl, look_of_find hfound, hcontent, hlook] at hthere
      exact absurd hthere (by simp)

end First

/-! ## Extraction -/

section Extract

variable {ws : Workspace} {entries : List ZipEntry} {plan : List Planned}

/-- An archive that is refused leaves the tree alone. -/
theorem extract_of_error {e : ExtractError} (hplan : planOf entries = .error e) :
    extractBundleZip ws.links ws.dest ws.nodes entries = (ws.nodes, .error e) := by
  rw [extractBundleZip, hplan]

theorem extract_of_conflict (hplan : planOf entries = .ok plan)
    (h : ∃ p ∈ plan, p.targetExists ws.links ws.dest ws.nodes = true) :
    ∃ e, extractBundleZip ws.links ws.dest ws.nodes entries = (ws.nodes, .error e) := by
  have hne : plan.filter (·.targetExists ws.links ws.dest ws.nodes) ≠ [] := by
    obtain ⟨p, hp, hthere⟩ := h
    exact List.ne_nil_of_mem (List.mem_filter.2 ⟨hp, hthere⟩)
  rw [extractBundleZip, hplan]
  simp only
  rw [if_pos hne]
  exact ⟨_, rfl⟩

theorem extract_of_new (hplan : planOf entries = .ok plan)
    (h : ¬ ∃ p ∈ plan, p.targetExists ws.links ws.dest ws.nodes = true) :
    (extractBundleZip ws.links ws.dest ws.nodes entries).1 =
        (writeAll ws.links ws.dest ws.nodes plan).1 ∧
      ((∃ n, (extractBundleZip ws.links ws.dest ws.nodes entries).2 = .ok n) ↔
        (writeAll ws.links ws.dest ws.nodes plan).2 = none) ∧
      ∀ e, (extractBundleZip ws.links ws.dest ws.nodes entries).2 = .error e → e.IsConflict := by
  have hnil : plan.filter (·.targetExists ws.links ws.dest ws.nodes) = [] := by
    apply List.filter_eq_nil_iff.2
    intro p hp hthere
    exact h ⟨p, hp, hthere⟩
  rw [extractBundleZip, hplan]
  simp only
  rw [if_neg (not_not.2 hnil)]
  refine ⟨rfl, ?_, ?_⟩
  · cases (writeAll ws.links ws.dest ws.nodes plan).2 with
    | none => simp
    | some rel => simp
  · intro e he
    cases hall : (writeAll ws.links ws.dest ws.nodes plan).2 with
    | none => simp [hall] at he
    | some rel =>
        simp only [hall, Except.error.injEq] at he
        subst he
        trivial

theorem meets_of_unchanged {e : ExtractError}
    (h : extractBundleZip ws.links ws.dest ws.nodes entries = (ws.nodes, .error e)) :
    ws.Meets entries where
  spared _ _ _ := by rw [h]
  kept n hn := absurd hn (by rw [h]; simp)
  written n hn := absurd hn (by rw [h]; simp)

theorem meets_of_extractable (h : ws.Extractable entries) : ws.Meets entries := by
  cases hplan : planOf entries with
  | error e => exact meets_of_unchanged (extract_of_error hplan)
  | ok plan =>
      by_cases hconflict : ∃ p ∈ plan, p.targetExists ws.links ws.dest ws.nodes = true
      · obtain ⟨e, he⟩ := extract_of_conflict hplan hconflict
        exact meets_of_unchanged he
      · obtain ⟨htree, hok, -⟩ := extract_of_new hplan hconflict
        rcases h plan hplan with hthere | ⟨p, rest, rfl, hbarred⟩ | hlays
        · exact absurd hthere hconflict
        · have hwrite := hbarred.write_eq ws.wf ws.dest_dir
          have hall : writeAll ws.links ws.dest ws.nodes (p :: rest) = (ws.nodes, some p.rel) := by
            rw [writeAll, hwrite]
            rfl
          rw [hall] at htree hok
          constructor
          · intro e _ _
            rw [htree]
          · intro n hn
            exact absurd (hok.1 ⟨n, hn⟩) (by simp)
          · intro n hn
            exact absurd (hok.1 ⟨n, hn⟩) (by simp)
        · have hall := writeAll_of_lays ws.wf ws.dest_dir hlays
          obtain ⟨hkept, hthere⟩ := (kept_written_iff ws.wf ws.dest_dir hall).2 hlays
          obtain ⟨n, hn⟩ := hok.2 hall
          constructor
          · intro e he
            rw [hn] at he
            exact absurd he (by simp)
          · intro _ _
            rw [htree]
            exact hkept
          · intro _ _ plan' hplan' p hp
            obtain rfl := Except.ok.inj (hplan.symm.trans hplan')
            rw [htree]
            exact hthere p hp

theorem extractable_of_meets (h : ws.Meets entries) : ws.Extractable entries := by
  intro plan hplan
  by_cases hconflict : ∃ p ∈ plan, p.targetExists ws.links ws.dest ws.nodes = true
  · exact Or.inl hconflict
  · obtain ⟨htree, hok, herror⟩ := extract_of_new hplan hconflict
    by_cases hall : (writeAll ws.links ws.dest ws.nodes plan).2 = none
    · obtain ⟨n, hn⟩ := hok.2 hall
      refine Or.inr (Or.inr ((kept_written_iff ws.wf ws.dest_dir hall).1 ⟨?_, ?_⟩))
      · rw [← htree]
        exact h.kept n hn
      · rw [← htree]
        exact h.written n hn plan hplan
    · cases plan with
      | nil => exact absurd rfl hall
      | cons p plan =>
          refine Or.inr (Or.inl ⟨p, plan, rfl, ?_⟩)
          apply barred_of_spared ws.wf ws.dest_dir
            (fun hthere => hconflict ⟨p, List.mem_cons_self, hthere⟩)
          rw [← htree]
          cases hresult : (extractBundleZip ws.links ws.dest ws.nodes entries).2 with
          | ok n => exact absurd (hok.1 ⟨n, hresult⟩) hall
          | error e => exact h.spared e hresult (herror e hresult)

/-- **Extraction is atomic and confined** exactly where the first passes refuse the archive, or the
first target cannot be written and nothing is made for it, or each target in turn has its place. -/
theorem extractBundleZip_meets_iff (ws : Workspace) (entries : List ZipEntry) :
    ws.Meets entries ↔ ws.Extractable entries :=
  ⟨extractable_of_meets, meets_of_extractable⟩

/-- A folder with a file `samples` in it. -/
def samplesFile : Workspace where
  links := 40
  nodes loc :=
    if loc = [] then some .dir
    else if loc = ["samples".toList] then some (.file [7])
    else none
  dest := []
  wf := by
    constructor
    · rfl
    · intro n loc h
      by_cases hloc : n :: loc = ["samples".toList]
      · obtain ⟨-, rfl⟩ := List.cons.inj hloc
        rfl
      · rw [if_neg (by simp), if_neg hloc] at h
        exact absurd rfl h
  dest_dir := rfl

/-- `config.yaml` is written, and then there is no directory for `samples/p.wav`. -/
theorem not_meets_samplesFile :
    ¬ samplesFile.Meets [⟨"config.yaml".toList, false, false, [1]⟩,
      ⟨"samples/p.wav".toList, false, false, [2]⟩] := by
  intro h
  have hplan : planOf [⟨"config.yaml".toList, false, false, [1]⟩,
      ⟨"samples/p.wav".toList, false, false, [2]⟩] =
        .ok [⟨"config.yaml".toList, [1], by decide⟩, ⟨"samples/p.wav".toList, [2], by decide⟩] := by
    decide
  have hthere : ∀ p ∈ [(⟨"config.yaml".toList, [1], by decide⟩ : Planned),
      ⟨"samples/p.wav".toList, [2], by decide⟩],
        p.targetExists samplesFile.links samplesFile.dest samplesFile.nodes = false := by
    decide +kernel
  have hfirst : (⟨"config.yaml".toList, [1], by decide⟩ : Planned).place samplesFile.links
      samplesFile.dest samplesFile.nodes = some ["config.yaml".toList] := by
    decide +kernel
  have hsecond : (⟨"samples/p.wav".toList, [2], by decide⟩ : Planned).place samplesFile.links
      samplesFile.dest (placed samplesFile.nodes ["config.yaml".toList] [1]) = none := by
    decide +kernel
  rcases extractable_of_meets h _ hplan with ⟨p, hp, hnew⟩ | ⟨p, rest, heq, hbarred⟩ | hlays
  · rw [hthere p hp] at hnew
    exact absurd hnew (by simp)
  · obtain ⟨rfl, -⟩ := List.cons.inj heq
    rcases hbarred with hnone | ⟨hname, -⟩
    · rw [hfirst] at hnone
      exact absurd hnone (by simp)
    · exact absurd hname (by decide)
  · obtain ⟨-, loc, hplace, -, -, -, loc', hplace', -⟩ := hlays
    obtain rfl := Option.some.inj (hfirst.symm.trans hplace)
    rw [hsecond] at hplace'
    exact absurd hplace' (by simp)

end Extract

end DialF.Bundle
