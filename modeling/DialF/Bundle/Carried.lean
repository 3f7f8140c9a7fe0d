import DialF.Bundle.Archived

/-!
# What a bundle plays

A job plays what its references lead to from its own directory. In the tree that an archive becomes,
a reference that is the way to an entry leads to that entry (`within_route`), and one that has
stayed leads to the file that it has led to in the folder, if it stays inside and its way is in the
bundle too.

So a job that has been exported and unpacked plays what it has played (`survives_of_ships`), file by
file, where the file is in the bundle as it was.
-/

set_option autoImplicit false

namespace DialF.Bundle

open DialF.Lib DialF.Jobs
open DialF.Daemon (isRelativePath)

/-- What a file of a job plays, from the directory of the job. -/
def playsAt (nodes : Nodes Name Bytes) (links : Nat) (dir : List Name) (file : String) :
    Option Bytes :=
  match find nodes links [] ((resolvePathUnder dir file.toList).map toMove) with
  | .found loc _ =>
      match nodes loc with
      | some (.file bytes) => some bytes
      | _ => none
  | _ => none

/-! ## Ways in the tree of an archive -/

section Tree

variable {files : List (List Name × Bytes)} {zip path : List Name} {bytes : Bytes}

/-- What is above a file is a directory. -/
theorem treeOf_above (h : PathsApart files) (hne : ∀ f ∈ files, f.1 ≠ [])
    (hzip : (zip, bytes) ∈ files) {l : List Name} (hl : l <:+ zip.dropLast.reverse) :
    treeOf files l = some .dir := by
  apply (treeOf_eq_dir_iff h hne).2
  refine Or.inr ⟨_, hzip, ?_, ?_⟩
  · refine hl.trans ?_
    rw [List.reverse_suffix]
    exact List.dropLast_prefix zip
  · rintro rfl
    have hlength := hl.length_le
    have hpos := List.length_pos_of_ne_nil (hne _ hzip)
    rw [List.length_reverse, List.length_reverse, List.length_dropLast] at hlength
    simp only at hlength hpos
    omega

/-- From any directory on the way to a file, the rest of the way leads to it. -/
theorem within_rest (h : PathsApart files) (hne : ∀ f ∈ files, f.1 ≠ [])
    (hpath : (path, bytes) ∈ files) (c : Nat) :
    within (treeOf files) (path.take c).reverse ((path.drop c).map .into) = some path.reverse := by
  by_cases hend : path.drop c = []
  · have hall : path.take c = path := by
      rw [List.take_eq_self_iff, ← List.drop_eq_nil_iff]
      exact hend
    rw [hend, List.map_nil, within_nil, hall]
  · obtain ⟨n, hn⟩ : ∃ n, (path.drop c).getLast? = some n :=
      ⟨_, List.getLast?_eq_some_getLast hend⟩
    have hsplit := List.dropLast_append_getLast? n hn
    have hlt : c < path.length := by
      by_contra hge
      exact hend (List.drop_eq_nil_iff.2 (Nat.le_of_not_lt hge))
    have hdirs : (path.drop c).dropLast.reverse ++ (path.take c).reverse =
        path.dropLast.reverse := by
      rw [← List.reverse_append]
      congr 1
      conv_rhs => rw [← List.take_append_drop c path, List.dropLast_append_of_ne_nil hend]
    have hlast : n :: path.dropLast.reverse = path.reverse := by
      conv_rhs => rw [← List.take_append_drop c path, ← hsplit, ← List.append_assoc,
        List.reverse_append, List.reverse_append]
      rw [← hdirs]
      rfl
    have hfile : treeOf files (n :: path.dropLast.reverse) = some (.file bytes) := by
      rw [hlast]
      exact treeOf_of_mem h hpath
    conv_lhs => rw [← hsplit, List.map_append]
    rw [within_dirs, hdirs, List.map_cons, List.map_nil, within_into_file hfile, hlast]
    intro l hl _ _
    rw [hdirs] at hl
    exact treeOf_above h hne hpath hl

/-- **The way from one entry to another** leads there. -/
theorem within_route (h : PathsApart files) (hne : ∀ f ∈ files, f.1 ≠ []) {bytes' : Bytes}
    (hzip : (zip, bytes') ∈ files) (hpath : (path, bytes) ∈ files) (hnames : ∀ n ∈ path, IsName n) :
    within (treeOf files) [] (zip.dropLast.map .into ++ (route zip.dropLast path).map toMove) =
      some path.reverse := by
  rw [within_dirs, List.append_nil]
  · have hup : (route zip.dropLast path).map toMove =
        List.replicate (zip.dropLast.length - commonParts zip.dropLast path) .up ++
          (path.drop (commonParts zip.dropLast path)).map .into := by
      rw [route, List.map_append, List.map_replicate,
        map_toMove fun n hn => hnames n (List.mem_of_mem_drop hn)]
      rfl
    rw [hup, within_replicate_up (by rw [List.length_reverse]; exact Nat.sub_le _ _)]
    have hback : zip.dropLast.reverse.drop
        (zip.dropLast.length - commonParts zip.dropLast path) =
          (path.take (commonParts zip.dropLast path)).reverse := by
      rw [← take_commonParts, List.drop_reverse]
      congr 2
      have hle := commonParts_le zip.dropLast path
      omega
    rw [hback]
    exact within_rest h hne hpath _
  · intro l hl _ _
    rw [List.append_nil] at hl
    exact treeOf_above h hne hzip hl

/-- The tree of some of the files is a part of the tree of them all. -/
theorem within_of_part {part : List (List Name)} (h : PathsApart files)
    (hne : ∀ f ∈ files, f.1 ≠ []) (hpart : ∀ f ∈ part, ∃ bytes, (f, bytes) ∈ files)
    {loc loc' : List Name} {way : List (Move Name)}
    (hway : within (treeOf (part.map fun f => (f, ()))) loc way = some loc') :
    within (treeOf files) loc way = some loc' := by
  have hfind : ∀ {l : List Name} {f : List Name × Unit},
      (part.map fun f => (f, ())).find? (fun f => f.1.reverse = l) = some f →
        ∃ bytes, (l.reverse, bytes) ∈ files := by
    intro l f hf
    obtain ⟨path, hpath, rfl⟩ := List.mem_map.1 (List.mem_of_find?_eq_some hf)
    obtain rfl : path.reverse = l := by simpa using List.find?_some hf
    rw [List.reverse_reverse]
    exact hpart path hpath
  apply within_mono _ _ hway
  · intro l hl
    rw [treeOf] at hl
    split at hl
    · simp at hl
    · rename_i hnone
      split at hl
      · rename_i hcase
        apply (treeOf_eq_dir_iff h hne).2
        apply hcase.imp_right
        rintro ⟨f, hf, hsuffix⟩
        have hnot := List.find?_eq_none.1 hnone f hf
        obtain ⟨path, hpath, rfl⟩ := List.mem_map.1 hf
        obtain ⟨bytes, hbytes⟩ := hpart path hpath
        refine ⟨_, hbytes, hsuffix, ?_⟩
        rintro rfl
        exact hnot (decide_eq_true rfl)
      · simp at hl
  · intro l content hl
    rw [treeOf] at hl
    split at hl
    · rename_i f hf
      obtain ⟨bytes, hbytes⟩ := hfind hf
      exact ⟨bytes, (treeOf_eq_file_iff h).2 hbytes⟩
    · split at hl <;> simp at hl

/-- **What a relative reference plays** in a tree that files have been unpacked to. -/
theorem playsAt_of_within {nodes : Nodes Name Bytes} {links : Nat} {dest zipDir l : List Name}
    {file : String} (hwf : nodes.Wf) (hdest : nodes dest = some .dir)
    (hnames : ∀ n ∈ dest, IsName n) (hzip : ∀ n ∈ zipDir, IsName n)
    (hrel : isRelativePath file.toList = true)
    (hway : within (subtree nodes dest) []
      (zipDir.map .into ++ (cleanParts file.toList).map toMove) = some l)
    (hfile : subtree nodes dest l = some (.file bytes)) :
    playsAt nodes links (below dest zipDir) file = some bytes := by
  have hdirs : ∀ loc, loc <:+ dest.reverse.reverse ++ [] → nodes loc = some .dir := by
    intro loc hloc
    rw [List.reverse_reverse, List.append_nil] at hloc
    by_cases heq : loc = dest
    · rw [heq]
      exact hdest
    · exact hwf.above (by rw [hdest]; simp) hloc heq
  have hmoves : (resolvePathUnder (below dest zipDir) file.toList).map toMove =
      dest.reverse.map .into ++ (zipDir.map .into ++ (cleanParts file.toList).map toMove) := by
    rw [resolvePathUnder, if_pos hrel, below, List.append_assoc, List.map_append, List.map_append,
      map_toMove fun n hn => hnames n (List.mem_reverse.1 hn), map_toMove hzip]
  have hfind := find_of_within links hway
  rw [List.nil_append] at hfind
  rw [playsAt, hmoves, find_dirs_append hdirs, List.reverse_reverse, List.append_nil, hfind]
  rw [subtree] at hfile
  simp only [hfile]

end Tree

/-! ## What a bundle has -/

/-- The files of the folder that are extracted again, all but what archivers leave behind. -/
def Project.shipped (P : Project) : List (List Name) :=
  P.files.filter fun f => !isZipJunk (zipName f)

/-- What a file of a job in the directory `dir` leads to is in the bundle as it is, and what the
file has become in the directory `zipDir` leads there. -/
inductive Project.Carried (P : Project) (fmt : Formats) (stays : String → Prop)
    (dir zipDir : List Name) (file : String) : Prop where
  | outside (target : List Name) : P.resolve dir file.toList = some target →
      ¬ P.root <:+ target → (target.head?.any isZipJunk) = false →
      ¬ P.IsJob fmt target.reverse → P.Carried fmt stays dir zipDir file
  | inside (target : List Name) : P.resolve dir file.toList = some target → ¬ stays file →
      P.root <:+ target → relOf P.root target ∈ P.shipped →
      ¬ P.IsJob fmt target.reverse → P.Carried fmt stays dir zipDir file
  /-- The way goes through the directories of the bundle, to a file that it has led to before. -/
  | stays (path : List Name) : stays file → isRelativePath file.toList = true → path ∈ P.shipped →
      ¬ P.IsJob fmt (below P.root path) →
      within (treeOf (P.shipped.map fun f => (f, ()))) []
        (zipDir.map .into ++ (cleanParts file.toList).map toMove) = some path.reverse →
      P.disk.locate P.root path = P.resolve dir file.toList → P.Carried fmt stays dir zipDir file

/-- What has been gathered, in an archive whose files can be extracted. -/
structure Bundled (P : Project) (fmt : Formats) (g : Gather) (a : Archive) : Prop where
  complete : g.Complete P fmt
  mem_files : ∀ path bytes, (path, bytes) ∈ a.files ↔ (∀ n ∈ path, IsName n) ∧
    ∃ src, g.entries.lookup (zipName path) = some src ∧ P.content src = .ok bytes
  apart : PathsApart a.unpacked

section Bundled

variable {P : Project} {fmt : Formats} {g : Gather} {a : Archive} {stays : String → Prop}
  {dir zip path target : List Name} {file file' : String} {bytes bytes' : Bytes}

theorem Disk.find_of_file {d : Disk} (h : d.nodes target = some (.file bytes)) :
    d.canonicalize (target.reverse.map .into) = some target := by
  cases htarget : target with
  | nil =>
      rw [htarget, d.nodes_wf.root] at h
      simp at h
  | cons n dir =>
      rw [htarget] at h
      have hdirs : ∀ l, l <:+ dir.reverse.reverse ++ [] → d.nodes l = some .dir := by
        intro l hl
        rw [List.reverse_reverse, List.append_nil] at hl
        apply d.nodes_wf.above (by rw [h]; simp) (hl.trans (List.suffix_cons n dir))
        rintro rfl
        exact absurd hl.length_le (by simp)
      rw [Disk.canonicalize, List.reverse_cons, List.map_append, find_dirs_append hdirs,
        List.reverse_reverse, List.append_nil, List.map_cons, List.map_nil, find_into_file h]

theorem Disk.canonicalize_of_dir {d : Disk} (h : d.nodes target = some .dir) :
    d.canonicalize (target.reverse.map .into) = some target := by
  rw [Disk.canonicalize, find_dirs, List.reverse_reverse, List.append_nil]
  intro l hl
  rw [List.reverse_reverse, List.append_nil] at hl
  by_cases heq : l = target
  · rw [heq]
    exact h
  · exact d.nodes_wf.above (by rw [h]; simp) hl heq

theorem Disk.fileAt_of_canonicalize {d : Disk} {moves : List (Move Name)}
    (h : d.canonicalize moves = some target) (hfile : d.nodes target = some (.file bytes)) :
    d.fileAt moves = some (target, bytes) := by
  rw [Disk.fileAt, h, Option.bind_some]
  simp only [hfile]

theorem Project.playsAt_iff : playsAt P.disk.nodes P.disk.links dir file = some bytes ↔
    ∃ target, P.resolve dir file.toList = some target ∧
      P.disk.nodes target = some (.file bytes) := by
  rw [playsAt, Project.resolve, Disk.canonicalize]
  cases find P.disk.nodes P.disk.links [] ((resolvePathUnder dir file.toList).map toMove) with
  | found loc k =>
      simp only [Option.some.injEq, exists_eq_left']
      cases hloc : P.disk.nodes loc with
      | none => simp
      | some node => cases node <;> simp
  | vacant loc => simp
  | nowhere => simp

/-- **A file that is sent** and is no job has its bytes in the archive. -/
theorem Bundled.mem_of_sends (h : Bundled P fmt g a) (hnames : ∀ n ∈ zip, IsName n)
    (hsends : g.Sends P fmt (zipName zip) path) (hjob : ¬ P.IsJob fmt path)
    (hfile : P.disk.fileAt (path.map .into) = some (target, bytes))
    (hjunk : isZipJunk (zipName zip) = false) : (zip, bytes) ∈ a.unpacked := by
  have hsrc : g.entries.lookup (zipName zip) = some (.file path) :=
    hsends.resolve_right fun hbytes => hjob hbytes.1
  apply List.mem_filter.2
  constructor
  · apply (h.mem_files zip bytes).2
    refine ⟨hnames, _, hsrc, ?_⟩
    rw [Project.content, hfile]
  · rw [zipName] at hjunk
    simp [hjunk]

theorem Bundled.unpacked_ne (h : (zip, bytes) ∈ a.unpacked) : zip ≠ [] ∧ ∀ n ∈ zip, IsName n :=
  a.named _ (List.mem_of_mem_filter h)

/-- What is behind the last separator. -/
theorem zipBase_of_name {n : Name} (hn : '/' ∉ n) (before : Str) :
    zipBase (before ++ '/' :: n) = n ∧ zipBase n = n := by
  have hall : ∀ c ∈ n.reverse, decide (c ≠ '/') = true := by
    intro c hc
    apply decide_eq_true
    rintro rfl
    exact hn (List.mem_reverse.1 hc)
  constructor
  · rw [zipBase, List.reverse_append, List.reverse_cons, List.append_assoc,
      List.takeWhile_append_of_pos hall, List.singleton_append,
      List.takeWhile_cons_of_neg (by simp), List.append_nil, List.reverse_reverse]
  · rw [zipBase, List.takeWhile_eq_self_iff.2 hall, List.reverse_reverse]

/-- What is pulled in is junk only where it has been so before. -/
theorem isZipJunk_pulledName {base : Name} (hbase : IsName base) (hjunk : isZipJunk base = false)
    {under : Name} (hunder : under = "samples".toList ∨ under = "scripts".toList) (n : Nat) :
    isZipJunk (pulledName under base n) = false := by
  have hname := isName_numbered hbase n
  have hlast : zipBase (pulledName under base n) =
      if n = 0 then base else numeral n ++ '-' :: base :=
    (zipBase_of_name hname.2.1 under).1
  have hnot : ∀ junk : Name, '-' ∉ junk → base ≠ junk →
      zipBase (pulledName under base n) ≠ junk := by
    intro junk hdash hne
    rw [hlast]
    split
    · exact hne
    · rintro rfl
      simp at hdash
  rw [isZipJunk, (zipBase_of_name hbase.2.1 []).2, Bool.or_eq_false_iff, Bool.or_eq_false_iff,
    decide_eq_false_iff_not, decide_eq_false_iff_not] at hjunk
  rw [isZipJunk, Bool.or_eq_false_iff, Bool.or_eq_false_iff, decide_eq_false_iff_not,
    decide_eq_false_iff_not]
  refine ⟨⟨?_, hnot _ (by decide) hjunk.1.2⟩, hnot _ (by decide) hjunk.2⟩
  rcases hunder with rfl | rfl <;> rfl

theorem Gather.Complete.not_junk (h : g.Complete P fmt) (htarget : ∀ n ∈ target, IsName n)
    {name : Str} (hpulled : g.pulled.lookup target = some name)
    (hjunk : (target.head?.any isZipJunk) = false) : isZipJunk name = false := by
  have hbase : IsName (target.head?.getD "file".toList) ∧
      isZipJunk (target.head?.getD "file".toList) = false := by
    cases hcase : target with
    | nil => decide
    | cons n rest =>
        rw [hcase] at htarget hjunk
        exact ⟨htarget n List.mem_cons_self, by simpa using hjunk⟩
  obtain ⟨n, hname | hname⟩ := h.under _ _ hpulled
  · rw [hname]
    exact isZipJunk_pulledName hbase.1 hbase.2 (Or.inl rfl) n
  · rw [hname]
    exact isZipJunk_pulledName hbase.1 hbase.2 (Or.inr rfl) n

/-- **The bytes of a file from outside the folder** are in the archive. -/
theorem Bundled.mem_of_pulled (h : Bundled P fmt g a) {name : Str}
    (hpulled : g.pulled.lookup target = some name) (hjob : ¬ P.IsJob fmt target.reverse)
    (hfile : P.disk.nodes target = some (.file bytes))
    (hjunk : (target.head?.any isZipJunk) = false) :
    ∃ path, name = zipName path ∧ (path, bytes) ∈ a.unpacked := by
  have hsends := h.complete.sent _ _ hpulled
  obtain ⟨path, -, hnames, rfl⟩ := h.complete.named _ hsends.mem
  exact ⟨path, rfl, h.mem_of_sends hnames hsends hjob
    (Disk.fileAt_of_canonicalize (Disk.find_of_file hfile) hfile)
    (h.complete.not_junk (Disk.isName (by rw [hfile]; simp)) hpulled hjunk)⟩

/-- The bytes of a file of the folder are in the archive. -/
theorem Bundled.mem_of_shipped (h : Bundled P fmt g a) (hpath : path ∈ P.shipped)
    (hjob : ¬ P.IsJob fmt (below P.root path)) (hloc : P.disk.locate P.root path = some target)
    (hfile : P.disk.nodes target = some (.file bytes)) : (path, bytes) ∈ a.unpacked := by
  obtain ⟨hfiles, hjunk⟩ := List.mem_filter.1 hpath
  exact h.mem_of_sends (P.isName_of_mem hfiles) (h.complete.shipped _ hfiles) hjob
    (Disk.fileAt_of_canonicalize hloc hfile) (by simpa using hjunk)

/-- All files of the folder are in the archive, as they are or as they have been rewritten. -/
theorem Bundled.exists_of_shipped (h : Bundled P fmt g a) (hpath : path ∈ P.shipped) :
    ∃ bytes, (path, bytes) ∈ a.unpacked := by
  obtain ⟨hfiles, hjunk⟩ := List.mem_filter.1 hpath
  have hnames := P.isName_of_mem hfiles
  have hmem : ∀ src bytes, g.entries.lookup (zipName path) = some src →
      P.content src = .ok bytes → ∃ bytes, (path, bytes) ∈ a.unpacked := by
    intro src bytes hsrc hcontent
    exact ⟨bytes, List.mem_filter.2 ⟨(h.mem_files _ _).2 ⟨hnames, src, hsrc, hcontent⟩,
      by simpa [zipName] using hjunk⟩⟩
  rcases h.complete.shipped _ hfiles with hsrc | ⟨-, bytes, hsrc⟩
  · obtain ⟨target, bytes, htarget, hfile, -⟩ := P.file_of_mem hfiles
    apply hmem _ bytes hsrc
    have hread : P.disk.fileAt ((below P.root path).map .into) = some (target, bytes) :=
      Disk.fileAt_of_canonicalize htarget hfile
    rw [Project.content, hread]
  · exact hmem _ bytes hsrc rfl

/-- **Where a reference leads** in the tree of the bundle: to the bytes it has led to before. -/
theorem Bundled.leads (h : Bundled P fmt g a) (hzip : (zip, bytes') ∈ a.unpacked)
    (hstays : ∀ target, stays file → P.resolve dir file.toList = some target → P.root <:+ target)
    (hled : Led P g stays dir zip.dropLast file file')
    (hcarried : P.Carried fmt stays dir zip.dropLast file)
    (hplays : playsAt P.disk.nodes P.disk.links dir file = some bytes) :
    isRelativePath file'.toList = true ∧ ∃ l, within (treeOf a.unpacked) []
        (zip.dropLast.map .into ++ (cleanParts file'.toList).map toMove) = some l ∧
      treeOf a.unpacked l = some (.file bytes) := by
  obtain ⟨target, hres, hfile⟩ := Project.playsAt_iff.1 hplays
  have hne : ∀ f ∈ a.unpacked, f.1 ≠ [] := fun f hf => (Bundled.unpacked_ne hf).1
  have hdir : ∀ n ∈ zip.dropLast, IsName n :=
    fun n hn => (Bundled.unpacked_ne hzip).2 n (List.mem_of_mem_dropLast hn)
  -- the way to an entry
  have hroute : ∀ path, (path, bytes) ∈ a.unpacked →
      isRelativePath (String.ofList (relativeZipPath (zipName zip.dropLast) (zipName path))).toList
        = true ∧
      ∃ l, within (treeOf a.unpacked) [] (zip.dropLast.map .into ++ (cleanParts (String.ofList
          (relativeZipPath (zipName zip.dropLast) (zipName path))).toList).map toMove) = some l ∧
        treeOf a.unpacked l = some (.file bytes) := by
    intro path hpath
    have hnames := (Bundled.unpacked_ne hpath).2
    obtain ⟨hparts, hrel⟩ := cleanParts_relativeZipPath hdir hnames
    rw [String.toList_ofList, hparts]
    exact ⟨hrel, path.reverse, within_route h.apart hne hzip hpath hnames,
      treeOf_of_mem h.apart hpath⟩
  have hsame : ∀ target', P.resolve dir file.toList = some target' → target' = target :=
    fun target' hres' => Option.some.inj (hres'.symm.trans hres)
  cases hled with
  | stays hstay =>
      cases hcarried with
      | outside target' hres' hout => exact absurd (hstays target' hstay hres') hout
      | inside target' _ hnot => exact absurd hstay hnot
      | stays path _ hrel hpath hjob hway hloc =>
          refine ⟨hrel, path.reverse, ?_, ?_⟩
          · exact within_of_part h.apart hne (fun f hf => h.exists_of_shipped hf) hway
          · exact treeOf_of_mem h.apart (h.mem_of_shipped hpath hjob (hloc.trans hres) hfile)
  | inside target' hnot hres' hin =>
      obtain rfl := hsame target' hres'
      cases hcarried with
      | outside target'' hres'' hout =>
          obtain rfl := hsame target'' hres''
          exact absurd hin hout
      | inside target'' hres'' _ _ hpath hjob =>
          obtain rfl := hsame target'' hres''
          apply hroute
          have hbelow : below P.root (relOf P.root target'') = target''.reverse := by
            conv_rhs => rw [← reverse_relOf hin, List.reverse_append, List.reverse_reverse]
            rfl
          apply h.mem_of_shipped hpath (hbelow ▸ hjob) _ hfile
          rw [Disk.locate, hbelow]
          exact Disk.find_of_file hfile
      | stays path hstay => exact absurd hstay hnot
  | outside target' name hnot hres' hout hpulled =>
      obtain rfl := hsame target' hres'
      cases hcarried with
      | outside target'' hres'' _ hjunk hjob =>
          obtain rfl := hsame target'' hres''
          obtain ⟨path, rfl, hpath⟩ := h.mem_of_pulled hpulled hjob hfile hjunk
          exact hroute path hpath
      | inside target'' hres'' _ hin =>
          obtain rfl := hsame target'' hres''
          exact absurd hin hout
      | stays path hstay => exact absurd hstay hnot

end Bundled

/-! ## Jobs in the tree of a bundle -/

/-- A tree that a bundle has been unpacked to, at a directory. -/
structure Unpacked (a : Archive) (ws : Workspace) : Prop where
  names : ∀ n ∈ ws.dest, IsName n
  tree : subtree ws.nodes ws.dest = treeOf a.unpacked

/-- The text of a file. -/
def textAt (nodes : Nodes Name Bytes) (loc : List Name) : Option Str :=
  match nodes loc with
  | some (.file bytes) => fromUtf8 bytes
  | _ => none

/-- The job at a path of the folder has come to a path of another tree: it has the same steps, and
where a file of it is carried, it plays there what it has played before. -/
def Project.Survives (P : Project) (fmt : Formats) (stays : String → Prop) (path : List Name)
    (ws : Workspace) (zip : List Name) : Prop :=
  ∀ text job, P.disk.readToString (path.map .into) = some text → fmt.parseJob text = some job →
    ∃ text' job', textAt ws.nodes (zip.reverse ++ ws.dest) = some text' ∧
      fmt.parseJob text' = some job' ∧
      List.Forall₂ (Follows fun file file' =>
        P.Carried fmt stays path.dropLast zip.dropLast file →
        ∀ bytes, playsAt P.disk.nodes P.disk.links path.dropLast file = some bytes →
          playsAt ws.nodes ws.links (below ws.dest zip.dropLast) file' = some bytes) job job'

section Survives

variable {P : Project} {fmt : Formats} {g : Gather} {a : Archive} {ws : Workspace}
  {stays : String → Prop} {path zip : List Name} {bytes : Bytes}

theorem Unpacked.file (h : Unpacked a ws) (hb : Bundled P fmt g a)
    (hzip : (zip, bytes) ∈ a.unpacked) :
    ws.nodes (zip.reverse ++ ws.dest) = some (.file bytes) := by
  have htree : subtree ws.nodes ws.dest zip.reverse = some (.file bytes) := by
    rw [h.tree]
    exact treeOf_of_mem hb.apart hzip
  exact htree

theorem Disk.fileAt_of_readToString {d : Disk} {moves : List (Move Name)} {text : Str}
    (h : d.readToString moves = some text) :
    ∃ target bytes, d.fileAt moves = some (target, bytes) ∧ fromUtf8 bytes = some text := by
  obtain ⟨⟨target, bytes⟩, hfile, hread⟩ := Option.bind_eq_some_iff.1 h
  exact ⟨target, bytes, hfile, hread⟩

/-- **A job of the bundle** survives. -/
theorem survives_of_ships (hlaw : fmt.Lawful) (hb : Bundled P fmt g a) (h : Unpacked a ws)
    (hnames : ∀ n ∈ zip, IsName n) (hjunk : isZipJunk (zipName zip) = false)
    (hstays : ∀ file target, stays file → P.resolve path.dropLast file.toList = some target →
      P.root <:+ target)
    (hships : g.Ships P fmt stays path zip) : P.Survives fmt stays path ws zip := by
  intro text job htext hjob
  obtain ⟨job', hall, hentry⟩ := hships text job htext hjob
  obtain ⟨target, bytes, hfile, hread⟩ := Disk.fileAt_of_readToString htext
  -- the entry is in the archive, and is the text of a job
  obtain ⟨bytes', text', hzip, hutf8, hparse⟩ : ∃ bytes' text', (zip, bytes') ∈ a.unpacked ∧
      fromUtf8 bytes' = some text' ∧ fmt.parseJob text' = some job' := by
    have hmem : ∀ src bytes, g.entries.lookup (zipName zip) = some src →
        P.content src = .ok bytes → (zip, bytes) ∈ a.unpacked := by
      intro src bytes hsrc hcontent
      exact List.mem_filter.2 ⟨(hb.mem_files _ _).2 ⟨hnames, src, hsrc, hcontent⟩,
        by simpa [zipName] using hjunk⟩
    rcases hentry with ⟨hsrc, rfl⟩ | ⟨text', hdump, hsrc⟩
    · exact ⟨bytes, text, hmem _ _ hsrc (by rw [Project.content, hfile]), hread, hjob⟩
    · exact ⟨utf8 text', text', hmem _ _ hsrc rfl, fromUtf8_utf8 text', hlaw.job _ _ hdump⟩
  refine ⟨text', job', ?_, hparse, ?_⟩
  · rw [textAt, h.file hb hzip]
    exact hutf8
  · apply hall.imp
    intro step step' hfollows
    apply hfollows.mono
    intro file file' hled hcarried played hplays
    obtain ⟨hrel, l, hway, hplayed⟩ := hb.leads hzip (hstays file) hled hcarried hplays
    rw [← h.tree] at hway hplayed
    exact playsAt_of_within ws.wf ws.dest_dir h.names
      (fun n hn => hnames n (List.mem_of_mem_dropLast hn)) hrel hway hplayed

end Survives

end DialF.Bundle
