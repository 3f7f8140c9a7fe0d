import DialF.Bundle.Clear
import DialF.Lib.Paths

/-!
# Unpacking an archive into an empty folder

An archive whose entries are files with names of their own, one of them a `config.yaml` at its root.
Extracted into an empty folder it becomes the tree of its files, but for what archivers leave
behind, and nothing outside the folder changes; unless one path goes on from another one, and then
the extraction fails (`unpack_archive`).
-/

set_option autoImplicit false

namespace DialF.Bundle

open DialF.Lib
open DialF.Daemon (pathComponents isRelativePath)

/-- The name of the file that makes a folder a bundle. -/
def configName : Name := "config.yaml".toList

/-- Files with names, no two with the same ones, and a `config.yaml` at the root. -/
structure Archive where
  files : List (List Name × Bytes)
  named : ∀ f ∈ files, f.1 ≠ [] ∧ ∀ n ∈ f.1, IsName n
  distinct : (files.map (·.1)).Nodup
  config : ∃ bytes, ([configName], bytes) ∈ files

namespace Archive

/-- A file of the archive as an entry of the zip. -/
def entry (f : List Name × Bytes) : ZipEntry := ⟨joinParts f.1, false, false, f.2⟩

/-- The entries of the zip, in the order of the archive. -/
def entries (a : Archive) : List ZipEntry := a.files.map entry

/-- What is extracted. -/
def unpacked (a : Archive) : List (List Name × Bytes) :=
  a.files.filter fun f => !isZipJunk (joinParts f.1)

end Archive

/-! ## Names and paths -/

section Names

variable {parts : List Name}

theorem splitOn_joinParts (hne : parts ≠ []) (h : ∀ n ∈ parts, IsName n) :
    (joinParts parts).splitOn '/' = parts :=
  List.splitOn_intercalate _ (fun n hn => (h n hn).2.1) hne

theorem pathComponents_joinParts (hne : parts ≠ []) (h : ∀ n ∈ parts, IsName n) :
    pathComponents (joinParts parts) = parts := by
  rw [pathComponents, splitOn_joinParts hne h]
  cases parts with
  | nil => rfl
  | cons n rest =>
      obtain ⟨hnil, -, hdot, -⟩ := h n List.mem_cons_self
      have hrest : (rest.filter fun p => p ≠ [] && p ≠ ['.']) = rest := by
        rw [List.filter_eq_self]
        intro p hp
        obtain ⟨hpnil, -, hpdot, -⟩ := h p (List.mem_cons_of_mem n hp)
        simp [hpnil, hpdot]
      simp only
      rw [if_neg hdot, hrest]
      simp [hnil]

theorem isUnsafePath_joinParts (hne : parts ≠ []) (h : ∀ n ∈ parts, IsName n) :
    isUnsafePath (joinParts parts) = false := by
  rw [isUnsafePath, pathComponents_joinParts hne h, Bool.or_eq_false_iff]
  constructor
  · rw [isRelativePath, Bool.not_eq_false', decide_eq_true_eq]
    exact head?_joinParts fun n hn => ⟨(h n hn).1, (h n hn).2.1⟩
  · rw [List.any_eq_false]
    intro n hn
    obtain ⟨-, -, hdot, hdots⟩ := h n hn
    simp [hdot, hdots]

end Names

/-- The plan of one file. -/
def plannedOf (f : List Name × Bytes) (hne : f.1 ≠ []) (h : ∀ n ∈ f.1, IsName n) : Planned :=
  ⟨joinParts f.1, f.2, isUnsafePath_joinParts hne h⟩

namespace Planned

/-- The file that is planned. -/
def file (p : Planned) : List Name × Bytes := (p.names, p.bytes)

theorem file_plannedOf {f : List Name × Bytes} (hne : f.1 ≠ []) (h : ∀ n ∈ f.1, IsName n) :
    (plannedOf f hne h).file = f := by
  rw [file, names, plannedOf]
  simp only
  rw [pathComponents_joinParts hne h]

theorem asDir_plannedOf {f : List Name × Bytes} (hne : f.1 ≠ []) (h : ∀ n ∈ f.1, IsName n) :
    (plannedOf f hne h).asDir = false := by
  rw [asDir, plannedOf]
  simp only
  rw [splitOn_joinParts hne h, List.getLast?_eq_some_getLast hne, Option.all_some]
  obtain ⟨hnil, -, hdot, -⟩ := h _ (List.getLast_mem hne)
  simp [isStay, hnil, hdot]

end Planned

/-! ## The plan -/

section Plan

variable {entries : List ZipEntry} {best : Option (List Char)}

theorem zipParent_eq_nil_of_count {name : List Char} (h : (zipParent name).count '/' = 0) :
    zipParent name = [] := by
  rw [zipParent, List.reverse_eq_nil_iff]
  cases hdrop : name.reverse.dropWhile (· ≠ '/') with
  | nil => rfl
  | cons c rest =>
      have hc : c = '/' := by
        have hhead := List.head?_dropWhile_not (fun c => decide (c ≠ '/')) name.reverse
        rw [hdrop] at hhead
        simpa using hhead
      rw [zipParent, hdrop, hc, List.count_reverse, List.count_cons_self] at h
      omega

theorem zipParent_configName : zipParent configName = [] := by decide

/-- **The folder of an archive** with a `config.yaml` at its root is the root. -/
theorem bundleFolder_of_root (hplain : ∀ e ∈ entries, e.encrypted = false)
    (hroot : best = some [] ∨ ∃ e ∈ entries, e.name = configName)
    (hbest : ∀ b, best = some b → b = [] ∨ 0 < b.count '/') :
    bundleFolder best entries = .ok (some []) := by
  induction entries generalizing best with
  | nil =>
      rcases hroot with rfl | ⟨e, he, -⟩
      · rfl
      · exact absurd he List.not_mem_nil
  | cons e entries ih =>
      have hrest : ∀ e ∈ entries, e.encrypted = false :=
        fun e' he' => hplain e' (List.mem_cons_of_mem e he')
      have hparent : zipParent e.name = [] ∨ 0 < (zipParent e.name).count '/' := by
        rcases Nat.eq_zero_or_pos ((zipParent e.name).count '/') with hzero | hpos
        · exact Or.inl (zipParent_eq_nil_of_count hzero)
        · exact Or.inr hpos
      rw [bundleFolder, if_neg (by simp [hplain e List.mem_cons_self])]
      split
      -- the config is not what archivers leave behind
      · rename_i hjunk
        apply ih hrest _ hbest
        apply hroot.imp_right
        rintro ⟨e', he', hname⟩
        rcases List.mem_cons.1 he' with rfl | he'
        · rw [hname] at hjunk
          exact absurd hjunk (by decide)
        · exact ⟨e', he', hname⟩
      · split
        -- the folder of this entry is better than what has been found; the config's is the root
        · rename_i hbetter
          obtain ⟨-, hall⟩ := hbetter
          apply ih hrest
          · rcases hroot with rfl | ⟨e', he', hname⟩
            · simp at hall
            · rcases List.mem_cons.1 he' with rfl | he'
              · rw [hname, zipParent_configName]
                exact Or.inl rfl
              · exact Or.inr ⟨e', he', hname⟩
          · rintro b hb
            obtain rfl := Option.some.inj hb
            exact hparent
        · rename_i hworse
          apply ih hrest _ hbest
          rcases hroot with rfl | ⟨e', he', hname⟩
          · exact Or.inl rfl
          · rcases List.mem_cons.1 he' with rfl | he'
            · -- it is not better than what has been found, which is at the root too then
              rw [hname, zipParent_configName] at hworse
              have hbase : zipBase configName = "config.yaml".toList := by decide
              rw [not_and] at hworse
              have hall := hworse hbase
              cases hb : best with
              | none => simp [hb] at hall
              | some b =>
                  rcases hbest b hb with rfl | hpos
                  · exact Or.inl rfl
                  · simp [hb] at hall
                    exact absurd (List.count_pos_iff.1 hpos) hall
            · exact Or.inr ⟨e', he', hname⟩

/-- The plan of all that is not left behind by archivers. -/
theorem planBelow_root (files : List (List Name × Bytes))
    (hnamed : ∀ f ∈ files, f.1 ≠ [] ∧ ∀ n ∈ f.1, IsName n) :
    ∃ plan, planBelow [] (files.map Archive.entry) = .ok plan ∧
      plan.map Planned.file = files.filter (fun f => !isZipJunk (joinParts f.1)) ∧
      ∀ p ∈ plan, p.asDir = false := by
  induction files with
  | nil => exact ⟨[], rfl, rfl, by simp⟩
  | cons f files ih =>
      obtain ⟨plan, hplan, hfiles, hdirs⟩ := ih fun g hg => hnamed g (List.mem_cons_of_mem f hg)
      obtain ⟨hne, hnames⟩ := hnamed f List.mem_cons_self
      rw [List.map_cons, planBelow, List.filter_cons]
      cases hjunk : isZipJunk (joinParts f.1) with
      | true =>
          rw [if_pos (by simp [Archive.entry, hjunk])]
          exact ⟨plan, hplan, by simpa using hfiles, hdirs⟩
      | false =>
          have hsafe : isUnsafePath (joinParts f.1) = false := isUnsafePath_joinParts hne hnames
          rw [if_neg (by simp [Archive.entry, hjunk]), if_pos (List.isPrefixOf_nil_left),
            dif_neg (by simp [Archive.entry, hsafe]), hplan]
          refine ⟨plannedOf f hne hnames :: plan, rfl, ?_, ?_⟩
          · rw [List.map_cons, Planned.file_plannedOf, hfiles]
            rfl
          · intro p hp
            rcases List.mem_cons.1 hp with rfl | hp
            · exact Planned.asDir_plannedOf hne hnames
            · exact hdirs p hp

theorem Archive.planOf_entries (a : Archive) :
    ∃ plan, planOf a.entries = .ok plan ∧ plan.map Planned.file = a.unpacked ∧
      ∀ p ∈ plan, p.asDir = false := by
  have hfolder : bundleFolder none a.entries = .ok (some []) := by
    apply bundleFolder_of_root
    · intro e he
      obtain ⟨f, -, rfl⟩ := List.mem_map.1 he
      rfl
    · obtain ⟨bytes, hconfig⟩ := a.config
      exact Or.inr ⟨_, List.mem_map_of_mem hconfig, by simp [Archive.entry, joinParts]⟩
    · simp
  obtain ⟨plan, hplan, hfiles, hdirs⟩ := planBelow_root a.files a.named
  refine ⟨plan, ?_, hfiles, hdirs⟩
  rw [planOf, hfolder]
  exact hplan

end Plan

/-! ## One file after the other -/

section Fill

variable {nodes : Nodes Name Bytes} {links : Nat} {dest : List Name} {plan : List Planned}
  {files : List (List Name × Bytes)}

theorem treeOf_linkFreeBelow (hsub : subtree nodes dest = treeOf files) :
    LinkFreeBelow nodes dest := by
  rintro loc fromRoot target ⟨l, rfl⟩ hlink
  exact treeOf_ne_link files l fromRoot target ((congrFun hsub l).symm.trans hlink)

theorem subtree_eq (hsub : subtree nodes dest = treeOf files) (l : List Name) :
    nodes (l ++ dest) = treeOf files l := congrFun hsub l

/-- A path that is clear neither goes on from the others, nor they from it. -/
theorem Planned.Clear.apart {p : Planned} (hclear : p.Clear dest nodes)
    (hsub : subtree nodes dest = treeOf files) (hapart : PathsApart files)
    (hnamed : ∀ f ∈ files, f.1 ≠ []) (hnew : p.names ∉ files.map (·.1)) :
    ∀ f ∈ files, ¬ f.1 <+: p.names ∧ ¬ p.names <+: f.1 := by
  intro f hf
  have hne : f.1 ≠ p.names := by
    intro heq
    exact hnew (heq ▸ List.mem_map_of_mem hf)
  constructor
  -- the other file would be above the place
  · intro hpre
    have hfile := (subtree_eq hsub f.1.reverse).trans (treeOf_of_mem hapart hf)
    refine hclear.above _ _ (List.suffix_append _ _) ?_ ?_ hfile
    · rw [Planned.loc, List.suffix_append_self_iff, List.reverse_suffix]
      exact hpre
    · intro heq
      exact hne (List.reverse_injective (List.append_cancel_right heq))
  -- the place would be a directory above the other file
  · intro hpre
    have htree : treeOf files p.names.reverse = some .dir := by
      apply (treeOf_eq_dir_iff hapart hnamed).2
      refine Or.inr ⟨f, hf, List.reverse_suffix.2 hpre, ?_⟩
      intro heq
      exact hne (List.reverse_injective heq).symm
    apply hclear.ne_dir
    rw [Planned.loc, subtree_eq hsub]
    exact htree

theorem Planned.clear_of_apart {p : Planned} (hsub : subtree nodes dest = treeOf files)
    (hapart : PathsApart files) (hnamed : ∀ f ∈ files, f.1 ≠ []) (hdir : p.asDir = false)
    (hnew : p.names ∉ files.map (·.1))
    (h : ∀ f ∈ files, ¬ f.1 <+: p.names ∧ ¬ p.names <+: f.1) : p.Clear dest nodes := by
  refine ⟨hdir, ?_, ?_⟩
  · rintro l content ⟨m, rfl⟩ hl hne hfile
    rw [subtree_eq hsub, treeOf_eq_file_iff hapart] at hfile
    rw [Planned.loc, List.suffix_append_self_iff] at hl
    apply (h _ hfile).1
    rw [← List.reverse_suffix, List.reverse_reverse]
    exact hl
  · rw [Planned.loc, subtree_eq hsub]
    rcases treeOf_none_or_dir hapart hnew with hnone | htree
    · exact Or.inl hnone
    -- a directory is there only because of a file below it
    · obtain ⟨n, hlast, -⟩ := Planned.exists_name hdir
      rcases (treeOf_eq_dir_iff hapart hnamed).1 htree with hnil | ⟨f, hf, hsuffix, -⟩
      · rw [List.reverse_eq_nil_iff] at hnil
        rw [hnil] at hlast
        exact absurd hlast (by simp)
      · exact absurd (List.reverse_suffix.1 hsuffix) (h f hf).2

theorem Planned.clear_iff_apart {p : Planned} (hsub : subtree nodes dest = treeOf files)
    (hapart : PathsApart files) (hnamed : ∀ f ∈ files, f.1 ≠ []) (hdir : p.asDir = false)
    (hnew : p.names ∉ files.map (·.1)) :
    p.Clear dest nodes ↔ PathsApart (files ++ [p.file]) := by
  rw [pathsApart_concat_iff]
  constructor
  · intro hclear
    exact ⟨hapart, hclear.apart hsub hapart hnamed hnew⟩
  · rintro ⟨-, h⟩
    exact clear_of_apart hsub hapart hnamed hdir hnew h

/-- **What can be written** into a folder that files have made: a path that is apart from theirs. -/
theorem Planned.write_of_treeOf (links : Nat) {p : Planned} (h : nodes.Wf)
    (hdest : nodes dest = some .dir)
    (hsub : subtree nodes dest = treeOf files) (hapart : PathsApart files)
    (hnamed : ∀ f ∈ files, f.1 ≠ []) (hdir : p.asDir = false)
    (hnew : p.names ∉ files.map (·.1)) :
    ((p.write links dest nodes).2 = true ↔ PathsApart (files ++ [p.file])) ∧
      (PathsApart (files ++ [p.file]) →
        p.write links dest nodes = (placed nodes (p.names.reverse ++ dest) p.bytes, true) ∧
          (placed nodes (p.names.reverse ++ dest) p.bytes).Wf ∧
          placed nodes (p.names.reverse ++ dest) p.bytes dest = some .dir) := by
  have hlinks := treeOf_linkFreeBelow hsub
  have hput : PathsApart (files ++ [p.file]) →
      p.write links dest nodes = (placed nodes (p.names.reverse ++ dest) p.bytes, true) ∧
        (placed nodes (p.names.reverse ++ dest) p.bytes).Wf ∧
        placed nodes (p.names.reverse ++ dest) p.bytes dest = some .dir := by
    intro happ
    have hclear := (clear_iff_apart hsub hapart hnamed hdir hnew).2 happ
    obtain ⟨-, hplace, -⟩ := (place_iff_clear hlinks h hdest links _).2 ⟨rfl, hclear⟩
    obtain ⟨hwrite, hwf, hgrows, -⟩ := write_of_place h hdest hdir hplace hclear.ne_dir
    exact ⟨hwrite, hwf, hgrows.dir hdest⟩
  refine ⟨⟨?_, fun happ => by rw [(hput happ).1]⟩, hput⟩
  intro hwritten
  obtain ⟨-, loc, hplace, hloc⟩ := (write_snd_iff h hdest).1 hwritten
  -- the place is at the path, and there is no file yet
  obtain ⟨n, hlast, -⟩ := exists_name hdir
  have hat : loc = p.names.reverse ++ dest := by
    rw [place, hlast] at hplace
    obtain ⟨rfl, -⟩ := (landing_eq_some_iff hlinks h hdest _ _ _).1 hplace
    conv_rhs => rw [← List.dropLast_append_getLast? n hlast]
    rw [List.reverse_append]
    rfl
  have hnone : nodes loc = none := by
    rw [hat, subtree_eq hsub] at hloc ⊢
    exact (treeOf_none_or_dir hapart hnew).resolve_right hloc
  obtain ⟨-, hclear⟩ :=
    (place_iff_clear hlinks h hdest links loc).1 ⟨hdir, hplace, Or.inl hnone⟩
  exact (clear_iff_apart hsub hapart hnamed hdir hnew).1 hclear

/-- **Files with names of their own** can be written one after the other exactly if no path goes on
from another one, and then they make the tree of them all. -/
theorem writeAll_of_treeOf (links : Nat) (h : nodes.Wf) (hdest : nodes dest = some .dir)
    (hsub : subtree nodes dest = treeOf files) (hapart : PathsApart files)
    (hnamed : ∀ f ∈ files, f.1 ≠ []) (hdirs : ∀ p ∈ plan, p.asDir = false)
    (hdistinct : ((files ++ plan.map Planned.file).map (·.1)).Nodup) :
    ((writeAll links dest nodes plan).2 = none ↔ PathsApart (files ++ plan.map Planned.file)) ∧
      ((writeAll links dest nodes plan).2 = none →
        subtree (writeAll links dest nodes plan).1 dest = treeOf (files ++ plan.map Planned.file) ∧
          ∀ l, ¬ dest <:+ l → (writeAll links dest nodes plan).1 l = nodes l) := by
  induction plan generalizing nodes files with
  | nil => simpa [writeAll] using ⟨hapart, hsub⟩
  | cons p plan ih =>
      have hdir := hdirs p List.mem_cons_self
      have hsplit : files ++ (p :: plan).map Planned.file =
          (files ++ [p.file]) ++ plan.map Planned.file := by simp
      rw [hsplit] at hdistinct ⊢
      have hnew : p.names ∉ files.map (·.1) := by
        rw [List.map_append, List.map_append] at hdistinct
        have hfirst := (List.nodup_append.1 hdistinct).1
        intro hmem
        exact (List.nodup_append.1 hfirst).2.2 _ hmem _ (List.mem_singleton_self _) rfl
      obtain ⟨hwritten, hput⟩ :=
        Planned.write_of_treeOf links h hdest hsub hapart hnamed hdir hnew
      rw [writeAll]
      by_cases happ : PathsApart (files ++ [p.file])
      -- the folder has one file more, and the others are written there
      · obtain ⟨hwrite, hwf, hdest'⟩ := hput happ
        have hne : p.file.1 ≠ [] := by
          obtain ⟨n, hlast, -⟩ := Planned.exists_name hdir
          intro hnil
          rw [show p.names = [] from hnil] at hlast
          exact absurd hlast (by simp)
        have hsub' : subtree (placed nodes (p.names.reverse ++ dest) p.bytes) dest =
            treeOf (files ++ [p.file]) := subtree_placed hsub happ hne
        have hnamed' : ∀ f ∈ files ++ [p.file], f.1 ≠ [] := by
          intro f hf
          rcases List.mem_append.1 hf with hf | hf
          · exact hnamed f hf
          · rw [List.mem_singleton.1 hf]
            exact hne
        obtain ⟨hall, htree⟩ := ih hwf hdest' hsub' happ hnamed'
          (fun q hq => hdirs q (List.mem_cons_of_mem p hq)) hdistinct
        rw [if_pos (hwritten.2 happ), hwrite]
        refine ⟨hall, fun hnone => ?_⟩
        obtain ⟨htree, houtside⟩ := htree hnone
        refine ⟨htree, fun l hl => ?_⟩
        rw [houtside l hl, placed_of_outside h hdest hl]
      -- the first file that is not apart from those before it is the end
      · have hfails : (p.write links dest nodes).2 ≠ true := fun hw => happ (hwritten.1 hw)
        rw [if_neg hfails]
        refine ⟨iff_of_false (by simp) ?_, fun hnone => absurd hnone (by simp)⟩
        intro hwhole
        exact happ (hwhole.sublist (List.sublist_append_left _ _))

end Fill

/-! ## An empty folder -/

/-- A folder with nothing in it. -/
def Workspace.Empty (ws : Workspace) : Prop := ∀ n, ws.nodes (n :: ws.dest) = none

/-- Nothing is in it. -/
theorem Workspace.Empty.subtree_eq {ws : Workspace} (hempty : ws.Empty) :
    subtree ws.nodes ws.dest = treeOf [] := by
  funext l
  cases hl : l.getLast? with
  | none =>
      rw [List.getLast?_eq_none_iff.1 hl]
      exact ws.dest_dir
  | some n =>
      have hnone : ws.nodes (l ++ ws.dest) = none := by
        rw [← List.dropLast_append_getLast? n hl, List.append_assoc, List.singleton_append]
        by_contra hsome
        by_cases heq : n :: ws.dest = l.dropLast ++ n :: ws.dest
        · rw [← heq] at hsome
          exact hsome (hempty n)
        · have hdir := ws.wf.above hsome (List.suffix_append _ _) heq
          rw [hempty n] at hdir
          exact absurd hdir (by simp)
      have hne : l ≠ [] := by
        rintro rfl
        simp at hl
      rw [show subtree ws.nodes ws.dest l = none from hnone]
      simp [treeOf, hne]

theorem Workspace.Empty.not_targetExists {ws : Workspace} (hempty : ws.Empty) {p : Planned}
    (hdir : p.asDir = false) : p.targetExists ws.links ws.dest ws.nodes ≠ true := by
  intro hthere
  obtain ⟨loc, k, hfind⟩ := Planned.targetExists_iff.1 hthere
  obtain ⟨n, hlast, -⟩ := Planned.exists_name hdir
  rw [Planned.find_moves ws.wf ws.dest_dir, hdir] at hfind
  cases hnames : p.names with
  | nil => simp [hnames] at hlast
  | cons m names =>
      rw [hnames] at hfind
      cases names with
      | nil => simp [find_into_none (hempty m)] at hfind
      | cons m' names => simp [find_into_none_cons (hempty m)] at hfind

/-- **Extracted into an empty folder**, an archive becomes the tree of its files, and nothing else
changes; unless one path goes on from another one. -/
theorem unpack_archive (a : Archive) (ws : Workspace) (hempty : ws.Empty) :
    ((∃ n, (extractBundleZip ws.links ws.dest ws.nodes a.entries).2 = .ok n) ↔
        PathsApart a.unpacked) ∧
      (PathsApart a.unpacked →
        subtree (extractBundleZip ws.links ws.dest ws.nodes a.entries).1 ws.dest =
          treeOf a.unpacked ∧
        ∀ l, ¬ ws.dest <:+ l →
          (extractBundleZip ws.links ws.dest ws.nodes a.entries).1 l = ws.nodes l) := by
  obtain ⟨plan, hplan, hfiles, hdirs⟩ := a.planOf_entries
  have hnew : ¬ ∃ p ∈ plan, p.targetExists ws.links ws.dest ws.nodes = true := by
    rintro ⟨p, hp, hthere⟩
    exact hempty.not_targetExists (hdirs p hp) hthere
  have hdistinct :
      ((([] : List (List Name × Bytes)) ++ plan.map Planned.file).map (·.1)).Nodup := by
    rw [List.nil_append, hfiles]
    exact a.distinct.sublist (List.filter_sublist.map _)
  obtain ⟨hall, htree⟩ := writeAll_of_treeOf ws.links ws.wf ws.dest_dir hempty.subtree_eq
    List.Pairwise.nil (by simp) hdirs hdistinct
  rw [List.nil_append, hfiles] at hall htree
  obtain ⟨hnodes, hok, -⟩ := extract_of_new hplan hnew
  rw [hnodes]
  exact ⟨hok.trans hall, fun happ => htree (hall.2 happ)⟩

/-! ## After an extraction -/

theorem wf_writeAll {nodes : Nodes Name Bytes} {links : Nat} {dest : List Name} (h : nodes.Wf)
    (hdest : nodes dest = some .dir) (plan : List Planned) :
    (writeAll links dest nodes plan).1.Wf := by
  induction plan generalizing nodes with
  | nil => exact h
  | cons p plan ih =>
      obtain ⟨hwf, hgrows⟩ : (p.write links dest nodes).1.Wf ∧
          Grows nodes (p.write links dest nodes).1 := p.grows_write h hdest
      rw [writeAll]
      split
      · exact ih hwf (hgrows.dir hdest)
      · exact hwf

theorem extract_cases (ws : Workspace) (entries : List ZipEntry) :
    (extractBundleZip ws.links ws.dest ws.nodes entries).1 = ws.nodes ∨
      ∃ plan, (extractBundleZip ws.links ws.dest ws.nodes entries).1 =
        (writeAll ws.links ws.dest ws.nodes plan).1 := by
  rw [extractBundleZip]
  split
  · exact Or.inl rfl
  · split
    · exact Or.inl rfl
    · exact Or.inr ⟨_, rfl⟩

/-- The workspace that an extraction leaves. -/
def Workspace.extracted (ws : Workspace) (entries : List ZipEntry) : Workspace where
  links := ws.links
  nodes := (extractBundleZip ws.links ws.dest ws.nodes entries).1
  dest := ws.dest
  wf := by
    rcases extract_cases ws entries with hsame | ⟨plan, hplan⟩
    · rw [hsame]
      exact ws.wf
    · rw [hplan]
      exact wf_writeAll ws.wf ws.dest_dir plan
  dest_dir := by
    rcases extract_cases ws entries with hsame | ⟨plan, hplan⟩
    · rw [hsame]
      exact ws.dest_dir
    · rw [hplan]
      exact (grows_writeAll ws.wf ws.dest_dir plan).dir ws.dest_dir

end DialF.Bundle
