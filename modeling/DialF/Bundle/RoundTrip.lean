import DialF.Bundle.BlockYaml
import DialF.Bundle.Carried
import DialF.Bundle.Installed

/-!
# Export, extraction and import

A folder is exported, the archive is extracted into an empty directory, and what is there is
imported on another machine. The scripts of the folder play there what they have played
(`scripts_survive`), each number is answered with the job that it has been answered with, by an
absolute path (`answers_survive`), and importing once more changes nothing (`import_again`).
-/

set_option autoImplicit false

namespace DialF.Bundle

open DialF.Lib DialF.Jobs DialF.Audio

/-! ## A small folder -/

/-- A text of lines. -/
def textOf (ls : List String) : Str := ls.flatMap fun line => line.toList ++ ['\n']

/-- A job that plays a file of the folder and one from outside of it. -/
def greetJob : Str :=
  textOf ["- type: audio.play", "  file: hello.wav", "- type: audio.play", "  file: /bye.wav"]

/-- A config that answers one number with it. -/
def deskConfig : Str :=
  textOf ["# the front desk", "shared_key: secret99", "autoanswer:", "  \"5\": desk/greet.yaml",
    "audio:", "  record_dir: rec"]

/-- Its document. -/
def deskDoc : Yaml :=
  .mapping (.cons (.string sharedKey) (.string "secret99".toList)
    (.cons (.string Project.autoanswer)
      (.mapping (.cons (.string ['5']) (.string "desk/greet.yaml".toList) .nil))
      (.cons (.string audio) (.mapping (.cons (.string recordDir) (.string "rec".toList) .nil))
        .nil)))

/-- A folder with the job and a sample, the config beside it, and another sample. -/
def smallDisk : Disk where
  links := 8
  items := [([], .dir), (["desk".toList], .dir),
    (["greet.yaml".toList, "desk".toList], .file (utf8 greetJob)),
    (["hello.wav".toList, "desk".toList], .file [2]), (["bye.wav".toList], .file [3]),
    (["dialf.yaml".toList], .file (utf8 deskConfig))]
  wf := wf_nodesOf (by decide +kernel)
  named := by decide +kernel

/-- The folder, as it is exported. -/
def smallProject : Project where
  disk := smallDisk
  root := ["desk".toList]
  isDir := rfl
  config := ["dialf.yaml".toList]
  configText := deskConfig
  excluded := []
  zipAbs := ["z".toList]

/-- The job as it is in the archive. -/
def shippedJob : Str :=
  textOf ["- type: audio.play", "  file: hello.wav", "- type: audio.play",
    "  file: samples/bye.wav"]

/-- The config with the name of the job in the archive. -/
def shippedConfig : Str :=
  textOf ["# the front desk", "shared_key: secret99", "autoanswer:", "  \"5\": \"greet.yaml\"",
    "audio:", "  record_dir: \"recordings\""]

/-- What is in the archive. -/
def smallEntries : List ZipEntry :=
  [⟨configName, false, false, utf8 shippedConfig⟩,
    ⟨"greet.yaml".toList, false, false, utf8 shippedJob⟩,
    ⟨"hello.wav".toList, false, false, [2]⟩,
    ⟨"samples/bye.wav".toList, false, false, [3]⟩]

deriving instance DecidableEq for ZipEntry, ImportedConfig

/-- What succeeds with something and something else. -/
theorem exists_of_fst {ε α β : Type} {x : Except ε (α × β)} {a : α}
    (h : x.toOption.map Prod.fst = some a) : ∃ b, x = .ok (a, b) := by
  cases x with
  | error e => cases h
  | ok r => exact ⟨r.2, congrArg Except.ok (Prod.ext (Option.some.inj h) rfl)⟩

theorem export_small : ∃ warnings,
    smallProject.exportBundle blockFormats.toFormats = .ok (smallEntries, warnings) :=
  exists_of_fst (by decide +kernel)

/-- Another machine, with an empty directory. -/
def emptyWorkspace : Workspace where
  links := 8
  nodes := nodesOf [([], .dir), (["d".toList], .dir)]
  dest := ["d".toList]
  wf := wf_nodesOf (by decide)
  dest_dir := rfl

theorem emptyWorkspace_empty : emptyWorkspace.Empty := by
  intro n
  simp [emptyWorkspace, nodesOf]

theorem extract_small : (extractBundleZip emptyWorkspace.links emptyWorkspace.dest
  emptyWorkspace.nodes smallEntries).2 = .ok 4 := by rfl

/-- That machine, when the archive has been extracted. -/
def unpackedDisk : Disk where
  links := 8
  items := [(["bye.wav".toList, "samples".toList, "d".toList], .file [3]),
    (["samples".toList, "d".toList], .dir),
    (["hello.wav".toList, "d".toList], .file [2]),
    (["greet.yaml".toList, "d".toList], .file (utf8 shippedJob)),
    ([configName, "d".toList], .file (utf8 shippedConfig)), ([], .dir), (["d".toList], .dir)]
  wf := wf_nodesOf (by decide +kernel)
  named := by decide +kernel

theorem unpackedDisk_nodes :
    unpackedDisk.nodes = (emptyWorkspace.extracted smallEntries).nodes := by
  rw [Disk.nodes, unpackedDisk]
  simp only
  rw [nodesOf_cons, nodesOf_cons, nodesOf_cons, nodesOf_cons, nodesOf_cons]
  rfl

/-- A machine without tools. -/
def bareMachine : Machine where
  linux := true
  isThere _ := false
  sox := ⟨fun _ => false, fun _ => none, fun _ => none⟩
  path := none
  which _ := none
  soxReport _ := none

/-- Where the config goes. -/
def smallTarget : Target := ⟨[], "t".toList⟩

/-- The config that is installed: with absolute paths. -/
def installedConfig : Str :=
  textOf ["# the front desk", "shared_key: secret99", "autoanswer:", "  \"5\": \"/d/greet.yaml\"",
    "audio:", "  record_dir: \"/d/recordings\""]

/-- And when it has been imported. -/
def installedDisk : Disk where
  links := 8
  items := ([smallTarget.name], .file (utf8 installedConfig)) :: unpackedDisk.items
  wf := wf_nodesOf (by decide +kernel)
  named := by decide +kernel

/-- What is looked at of the config. -/
def deskImported : ImportedConfig :=
  ⟨"secret99".toList, none, none, none, none, false, defaultWsBind⟩

/-- What the steps of two imports come to, on that machine and where the config is already
installed. -/
theorem import_steps :
    readBlock deskConfig = some deskDoc ∧
      blockFormats.parseImported shippedConfig = some deskImported ∧
      existingKey blockFormats.toFormats (some installedConfig) = some "secret99".toList ∧
      ∀ run ∈ [(unpackedDisk, none), (installedDisk, some "secret99".toList)],
        (importScripts blockFormats.toFormats run.1 ["d".toList]
          (run.1.walk ["d".toList] [] [])).toOption.map Prod.fst = some [["greet.yaml".toList]] ∧
        (importText bareMachine blockFormats run.1 ["d".toList] run.2 deskImported
          shippedConfig).toOption.map Prod.fst = some installedConfig := by
  decide +kernel

/-- **An import whose steps succeed** succeeds, with what the installation leaves. -/
theorem importTo_of_steps {m : Machine} {fmt : ImportFormats} {d : Disk} {folder : List (Move Name)}
    {t : Target} {overrideExisting : Bool} {stamp text new : Str} {existing : Option Str}
    {root loc : List Name} {cfg : ImportedConfig} {script : List Name} {scripts : List (List Name)}
    {nodes : Nodes Name Bytes} {bak : Option Target}
    (hroot : d.canonicalize folder = some root) (hdir : d.nodes root = some .dir)
    (hconfig : d.fileAt ((below root [configName]).map .into) = some (loc, utf8 text))
    (hparse : fmt.parseImported text = some cfg)
    (hscripts : (importScripts fmt.toFormats d root (d.walk root [] [])).toOption.map Prod.fst =
      some (script :: scripts))
    (hthere : d.canonicalize t.path = none ∨ overrideExisting = true)
    (hkey : existingKey fmt.toFormats (d.readToString t.path) = existing)
    (htext : (importText m fmt d root.reverse existing cfg text).toOption.map Prod.fst = some new)
    (hinstall : install d t stamp new = (nodes, .ok bak)) :
    ∃ report, importTo m fmt d folder t overrideExisting stamp = (nodes, .ok report) ∧
      report.folder = root := by
  obtain ⟨missing, hscripts⟩ := exists_of_fst hscripts
  obtain ⟨warnings, htext⟩ := exists_of_fst htext
  have hfree : ((d.canonicalize t.path).isSome && !overrideExisting) = false := by
    rcases hthere with hnone | hoverride
    · rw [hnone, Option.isSome_none, Bool.false_and]
    · rw [hoverride, Bool.not_true, Bool.and_false]
  rw [importTo]
  simp only [hroot, hdir, hconfig, fromUtf8_utf8, hparse, hscripts, hfree, hkey, htext, hinstall,
    Bool.false_eq_true, if_false]
  exact ⟨_, rfl, rfl⟩

theorem import_unpacked : ∃ report,
    importTo bareMachine blockFormats unpackedDisk [.into "d".toList] smallTarget false
      "1".toList = (installedDisk.nodes, .ok report) ∧ report.folder = ["d".toList] := by
  have hinstall : install unpackedDisk smallTarget "1".toList installedConfig =
      (installedDisk.nodes, .ok none) := by
    rw [Disk.nodes, installedDisk]
    simp only
    rw [nodesOf_cons]
    rfl
  obtain ⟨-, hparse, -, hsteps⟩ := import_steps
  obtain ⟨hscripts, htext⟩ := hsteps _ List.mem_cons_self
  exact importTo_of_steps rfl rfl rfl hparse hscripts (Or.inl rfl) rfl htext hinstall

section Extracted

variable {P : Project} {fmt : Formats} {ws : Workspace} {entries : List ZipEntry}
  {warnings : List Warning} {count : Nat}

/-- **What an export puts into the archive**: every file of the folder at its path, and as it is if
it is no job; and beside the config only files from outside the folder, as they are if they are no
jobs, which have taken no name of any other one. -/
theorem export_archives (hlaw : fmt.Lawful)
    (hexport : P.exportBundle fmt = .ok (entries, warnings)) :
    ∃ a : Archive, a.entries = entries ∧
      (∀ f ∈ P.files, ∃ target content bytes, P.disk.locate P.root f = some target ∧
        P.disk.nodes target = some (.file content) ∧ (f, bytes) ∈ a.files ∧
        (¬ P.IsJob fmt (below P.root f) → bytes = content)) ∧
      ∀ path bytes, (path, bytes) ∈ a.files → path ∈ P.files ∨ path = [configName] ∨
        ∃ target content, ¬ P.root <:+ target ∧ P.disk.nodes target = some (.file content) ∧
          (¬ P.IsJob fmt target.reverse → bytes = content) := by
  rw [Project.exportBundle] at hexport
  split at hexport
  · simp at hexport
  · rename_i g hg
    obtain ⟨entries', hentries, heq⟩ := exists_of_map_ok hexport
    obtain ⟨rfl, -⟩ := Prod.mk.inj heq
    have hcomplete := complete_of_gather hlaw hg
    obtain ⟨a, ha, hfiles⟩ := archive_of_zipEntries hcomplete hentries
    refine ⟨a, ha, ?_, ?_⟩
    · intro f hf
      obtain ⟨target, content, htarget, hcontent, -, hnames⟩ := P.file_of_mem hf
      have hread := Disk.fileAt_of_canonicalize htarget hcontent
      rcases hcomplete.shipped f hf with hsrc | ⟨hjob, bytes, hsrc⟩
      · exact ⟨target, content, content, htarget, hcontent,
          (hfiles _ _).2 ⟨hnames, _, hsrc, by rw [Project.content, hread]⟩, fun _ => rfl⟩
      · exact ⟨target, content, bytes, htarget, hcontent, (hfiles _ _).2 ⟨hnames, _, hsrc, rfl⟩,
          fun hnot => absurd hjob hnot⟩
    · intro path bytes hpath
      obtain ⟨hnames, src, hsrc, hcontent⟩ := (hfiles path bytes).1 hpath
      have hmem : zipName path ∈ g.entries := by
        rw [← AList.lookup_isSome, hsrc]
        rfl
      rcases hcomplete.known _ hmem with ⟨f, hf, hname⟩ | ⟨target, hpulled⟩ | hname
      · rw [zipName_injective hnames (P.isName_of_mem hf) hname]
        exact Or.inl hf
      · refine Or.inr (Or.inr ⟨target, ?_⟩)
        have hout := hcomplete.outside _ _ hpulled
        -- what has been pulled in is a file, since it has been read
        have hread : ∀ file, P.disk.fileAt (target.reverse.map .into) = some file →
            P.disk.nodes target = some (.file file.2) := by
          intro file hfile
          rcases hcomplete.place _ _ hpulled with hdir | ⟨content, hcontent⟩
          · have hloc := Disk.canonicalize_of_dir hdir
            rw [Disk.fileAt, hloc, Option.bind_some] at hfile
            simp [hdir] at hfile
          · rw [Disk.fileAt_of_canonicalize (Disk.find_of_file hcontent) hcontent] at hfile
            rw [← Option.some.inj hfile]
            exact hcontent
        rcases hcomplete.sent _ _ hpulled with hfile | ⟨hjob, -⟩
        · obtain rfl := Option.some.inj (hsrc.symm.trans hfile)
          rw [Project.content] at hcontent
          split at hcontent
          · rename_i file hfile
            obtain rfl := Except.ok.inj hcontent
            exact ⟨file.2, hout, hread file hfile, fun _ => rfl⟩
          · simp at hcontent
        · obtain ⟨text, job, htext, -⟩ := id hjob
          obtain ⟨place, content, hfile, -⟩ := Disk.fileAt_of_readToString htext
          exact ⟨content, hout, hread _ hfile, fun hnot => absurd hjob hnot⟩
      · rw [← zipName_configName] at hname
        exact Or.inr (Or.inl (zipName_injective hnames (by decide) hname))

theorem export_archives_small : ∃ a : Archive, a.entries = smallEntries ∧
    ∀ f ∈ smallProject.files, ∃ target content bytes,
      smallDisk.locate ["desk".toList] f = some target ∧
      smallDisk.nodes target = some (.file content) ∧ (f, bytes) ∈ a.files ∧
      (¬ smallProject.IsJob blockFormats.toFormats (below ["desk".toList] f) →
        bytes = content) := by
  obtain ⟨warnings, hexport⟩ := export_small
  obtain ⟨a, ha, hfiles, -⟩ := export_archives blockFormats_lawful.toLawful hexport
  exact ⟨a, ha, hfiles⟩

/-- **The archive of an export**, extracted. -/
theorem unpacked_of_export (hlaw : fmt.Lawful)
    (hexport : P.exportBundle fmt = .ok (entries, warnings))
    (hempty : ws.Empty) (hnames : ∀ n ∈ ws.dest, IsName n)
    (hextract : (extractBundleZip ws.links ws.dest ws.nodes entries).2 = .ok count) :
    ∃ g a, Bundled P fmt g a ∧ Unpacked a (ws.extracted entries) := by
  rw [Project.exportBundle] at hexport
  split at hexport
  · simp at hexport
  · rename_i g hg
    obtain ⟨entries', hentries, heq⟩ := exists_of_map_ok hexport
    obtain ⟨rfl, -⟩ := Prod.mk.inj heq
    have hcomplete := complete_of_gather hlaw hg
    obtain ⟨a, rfl, hfiles⟩ := archive_of_zipEntries hcomplete hentries
    obtain ⟨hok, htree⟩ := unpack_archive a ws hempty
    have hapart := hok.1 ⟨count, hextract⟩
    exact ⟨g, a, ⟨hcomplete, hfiles, hapart⟩, ⟨hnames, (htree hapart).1⟩⟩

/-- **What an extraction makes** of an archive, but for what archivers leave behind, which it skips:
it succeeds exactly if no path goes on from another one; then the folder has the files of the
archive and no others, nothing else has changed, and a walk of the folder lists the files that are
not hidden. -/
theorem extract_lists (a : Archive) (ws : Workspace) (hempty : ws.Empty) :
    ((∃ count, (extractBundleZip ws.links ws.dest ws.nodes a.entries).2 = .ok count) ↔
        PathsApart a.unpacked) ∧
      (PathsApart a.unpacked →
        (∀ path bytes,
          (ws.extracted a.entries).nodes (path.reverse ++ ws.dest) = some (.file bytes) ↔
            (path, bytes) ∈ a.unpacked) ∧
        (∀ l, ¬ ws.dest <:+ l → (ws.extracted a.entries).nodes l = ws.nodes l) ∧
        ∀ d : Disk, d.nodes = (ws.extracted a.entries).nodes → ∀ path,
          path ∈ d.walk ws.dest [] [] ↔
            (∃ bytes, (path, bytes) ∈ a.unpacked) ∧ ∀ n ∈ path, isHidden n = false) := by
  obtain ⟨hok, hall⟩ := unpack_archive a ws hempty
  refine ⟨hok, fun hapart => ?_⟩
  obtain ⟨htree, houtside⟩ := hall hapart
  have hfiles : ∀ path bytes,
      (ws.extracted a.entries).nodes (path.reverse ++ ws.dest) = some (.file bytes) ↔
        (path, bytes) ∈ a.unpacked := by
    intro path bytes
    have hsub : (ws.extracted a.entries).nodes (path.reverse ++ ws.dest) =
        treeOf a.unpacked path.reverse := congrFun htree path.reverse
    rw [hsub, treeOf_eq_file_iff hapart, List.reverse_reverse]
  refine ⟨hfiles, houtside, fun d hd path => ?_⟩
  have hroot : d.nodes ws.dest = some .dir := by
    rw [hd]
    exact (ws.extracted a.entries).dest_dir
  have hfree : LinkFreeBelow d.nodes ws.dest := by
    rw [hd]
    exact treeOf_linkFreeBelow htree
  rw [Disk.mem_walk_iff hroot hfree, hd]
  constructor
  · rintro ⟨⟨content, hcontent⟩, hshown, -⟩
    exact ⟨⟨content, (hfiles _ _).1 hcontent⟩, hshown⟩
  · rintro ⟨⟨bytes, hbytes⟩, hshown⟩
    refine ⟨⟨bytes, (hfiles _ _).2 hbytes⟩, hshown, fun _ _ _ _ => List.not_mem_nil, ?_⟩
    -- a path that is not empty is not the empty one
    obtain ⟨hne, -⟩ := Bundled.unpacked_ne hbytes
    intro hnil
    exact hne (List.append_eq_nil_iff.1 hnil).2

/-- The archive of the folder. -/
def smallArchive : Archive where
  files := [([configName], utf8 shippedConfig), (["greet.yaml".toList], utf8 shippedJob),
    (["hello.wav".toList], [2]), (["samples".toList, "bye.wav".toList], [3])]
  named := by decide
  distinct := by decide
  config := ⟨utf8 shippedConfig, List.mem_cons_self⟩

theorem extract_lists_small :
    (emptyWorkspace.extracted smallArchive.entries).nodes
      ["bye.wav".toList, "samples".toList, "d".toList] = some (.file [3]) :=
  (((extract_lists smallArchive emptyWorkspace emptyWorkspace_empty).2 (by decide +kernel)).1
    ["samples".toList, "bye.wav".toList] [3]).2 (by decide +kernel)

/-- **The scripts of the folder survive**: each has the same steps where the archive has been
extracted, and plays there what it has played in the folder, where that is in the bundle as it
was. -/
theorem scripts_survive (hlaw : fmt.Lawful)
    (hexport : P.exportBundle fmt = .ok (entries, warnings)) (hempty : ws.Empty)
    (hnames : ∀ n ∈ ws.dest, IsName n)
    (hextract : (extractBundleZip ws.links ws.dest ws.nodes entries).2 = .ok count)
    {script : List Name} (hscript : script ∈ P.shipped) (hyaml : isYaml script = true) :
    P.Survives fmt (P.staysInScript (below P.root script.dropLast)) (below P.root script)
      (ws.extracted entries) script := by
  obtain ⟨g, a, hb, hunpacked⟩ := unpacked_of_export hlaw hexport hempty hnames hextract
  obtain ⟨hfiles, hjunk⟩ := List.mem_filter.1 hscript
  obtain ⟨-, -, -, -, hne, hscriptNames⟩ := P.file_of_mem hfiles
  refine survives_of_ships hlaw hb hunpacked hscriptNames (by simpa using hjunk) ?_
    (hb.complete.scripts script hfiles hyaml)
  intro file target hstays hres
  rw [below_dropLast _ hne] at hres
  exact (hstays target hres).1

theorem scripts_survive_small : smallProject.Survives blockFormats.toFormats
    (smallProject.staysInScript ["desk".toList]) ["desk".toList, "greet.yaml".toList]
    (emptyWorkspace.extracted smallEntries) ["greet.yaml".toList] := by
  obtain ⟨warnings, hexport⟩ := export_small
  have hscript : ["greet.yaml".toList] ∈ smallProject.shipped := by decide +kernel
  exact scripts_survive blockFormats_lawful.toLawful hexport emptyWorkspace_empty (by decide)
    extract_small hscript (by decide)

end Extracted

/-! ## What has been imported -/

/-- The job at a location is in the bundle as a job. -/
def Project.AnswerShipped (P : Project) (target : List Name) : Prop :=
  (P.root <:+ target ∧ relOf P.root target ∈ P.shipped ∧ isYaml (relOf P.root target) = true) ∨
    (¬ P.root <:+ target ∧ (target.head?.any isZipJunk) = false)

/-- What stays in a job, in the folder or outside of it. -/
def Project.staysInAnswer (P : Project) (target : List Name) : String → Prop :=
  if P.root <:+ target then P.staysInScript target.reverse.dropLast
  else P.staysInJob target.reverse.dropLast

/-- The text of the file that a path leads to. -/
def readAt (nodes : Nodes Name Bytes) (links : Nat) (path : List (Move Name)) : Option Str :=
  match find nodes links [] path with
  | .found loc _ => textAt nodes loc
  | _ => none

section Imported

variable {P : Project} {fmt : ImportFormats} {ws : Workspace} {entries : List ZipEntry}
  {warnings : List Warning} {count : Nat} {m : Machine} {d d' : Disk} {folder : List (Move Name)}
  {t : Target} {overrideExisting overrideExisting' : Bool} {stamp stamp' : Str}
  {nodes nodes' : Nodes Name Bytes} {report report' : ImportReport}

theorem Installed.readAt_config {text : Str} {backup : Option Target}
    (h : Installed d t text nodes backup) : readAt nodes d.links t.path = some text := by
  obtain ⟨loc, k, hfind, hconfig, -⟩ := h.config
  rw [readAt, hfind]
  simp only [textAt, hconfig]
  exact fromUtf8_utf8 text

/-- The job that a number is answered with. -/
theorem survives_of_answeredAs {g : Gather} {a : Archive} {target : List Name} {name : Str}
    (hlaw : fmt.toFormats.Lawful) (hb : Bundled P fmt.toFormats g a)
    (hunpacked : Unpacked a ws) (htarget : ∀ n ∈ target, IsName n)
    (h : g.AnsweredAs P fmt.toFormats target name) (hshipped : P.AnswerShipped target) :
    ∃ zip, (∀ n ∈ zip, IsName n) ∧ name = zipName zip ∧
      P.Survives fmt.toFormats (P.staysInAnswer target) target.reverse ws zip := by
  rcases h with ⟨hin, rfl⟩ | ⟨hout, hpulled, -, hships⟩
  · obtain ⟨-, hmem, hyaml⟩ | ⟨hout, -⟩ := hshipped
    · obtain ⟨hfiles, hjunk⟩ := List.mem_filter.1 hmem
      obtain ⟨-, -, -, -, hne, hnames⟩ := P.file_of_mem hfiles
      have hpath : below P.root (relOf P.root target) = target.reverse := by
        conv_rhs => rw [← reverse_relOf hin, List.reverse_append, List.reverse_reverse]
        rfl
      have hdir : below P.root (relOf P.root target).dropLast = target.reverse.dropLast := by
        rw [← below_dropLast _ hne, hpath]
      have hscript := hb.complete.scripts _ hfiles hyaml
      rw [Gather.ShipsScript, hpath, hdir] at hscript
      refine ⟨_, hnames, rfl, ?_⟩
      rw [Project.staysInAnswer, if_pos hin]
      exact survives_of_ships hlaw hb hunpacked hnames (by simpa using hjunk)
        (fun file target' hstays hres => (hstays target' hres).1) hscript
    · exact absurd hin hout
  · obtain ⟨hin, -⟩ | ⟨-, hjunk⟩ := hshipped
    · exact absurd hin hout
    · obtain ⟨zip, -, hnames, rfl⟩ := hb.complete.named _ (hb.complete.sent _ _ hpulled).mem
      refine ⟨zip, hnames, rfl, ?_⟩
      rw [Project.staysInAnswer, if_neg hout]
      refine survives_of_ships hlaw hb hunpacked hnames
        (hb.complete.not_junk htarget hpulled hjunk) ?_ (hships zip hnames rfl)
      intro file target' hstays hres
      exact absurd (hres.symm.trans hstays) (by simp)

theorem forall₂_comp {α β γ : Type} {R : α → β → Prop} {S : β → γ → Prop} {T : α → γ → Prop}
    (hcomp : ∀ a b c, R a b → S b c → T a c) {l : List α} {l' : List β} {l'' : List γ}
    (h : List.Forall₂ R l l') (h' : List.Forall₂ S l' l'') : List.Forall₂ T l l'' := by
  induction h generalizing l'' with
  | nil =>
      cases h'
      exact List.Forall₂.nil
  | cons hab _ ih =>
      cases h' with
      | cons hbc htail => exact List.Forall₂.cons (hcomp _ _ _ hab hbc) (ih htail)

/-- The absolute path to an entry. -/
theorem resolvePathUnder_zipName {zip base : List Name} (hzip : ∀ n ∈ zip, IsName n) :
    resolvePathUnder base (zipName zip) = base ++ zip := by
  have hparts : ∀ p ∈ zip, p ≠ [] ∧ '/' ∉ p ∧ p ≠ ['.'] :=
    fun p hp => ⟨(hzip p hp).1, (hzip p hp).2.1, (hzip p hp).2.2.1⟩
  have hrel : Daemon.isRelativePath (zipName zip) = true := by
    rw [Daemon.isRelativePath, decide_eq_true_eq]
    exact head?_joinParts fun p hp => ⟨(hparts p hp).1, (hparts p hp).2.1⟩
  rw [resolvePathUnder, if_pos hrel, zipName, cleanParts_zipName hparts]

/-- **The numbers are answered with the same jobs** on a machine that has imported what has been
exported: the config names each by an absolute path, and the job there plays what it has played. -/
theorem answers_survive (hlaw : fmt.toFormats.Lawful)
    (hexport : P.exportBundle fmt.toFormats = .ok (entries, warnings)) (hempty : ws.Empty)
    (hnames : ∀ n ∈ ws.dest, IsName n)
    (hextract : (extractBundleZip ws.links ws.dest ws.nodes entries).2 = .ok count)
    (hdisk : d.nodes = (ws.extracted entries).nodes)
    (himport : importTo m fmt d folder t overrideExisting stamp = (nodes, .ok report))
    (hfolder : report.folder = ws.dest) {doc : Yaml} {answers : YamlEntries}
    (hdoc : fmt.parseYaml P.configText = some doc)
    (hanswers : Project.answersOf doc = some answers) :
    ∃ text doc' answers', readAt nodes d.links t.path = some text ∧ fmt.parseYaml text = some doc' ∧
      Project.answersOf doc' = some answers' ∧
      List.Forall₂ (fun e e' => e'.1 = e.1 ∧ ∀ target,
        e.2.asStr.bind (P.resolve P.config.tail.reverse) = some target → P.AnswerShipped target →
          ∃ zip, e'.2.asStr = some (absolutePath (below ws.dest zip)) ∧
            P.Survives fmt.toFormats (P.staysInAnswer target) target.reverse
              (ws.extracted entries) zip) answers.toList answers'.toList := by
  obtain ⟨g, a, hb, hunpacked⟩ :=
    unpacked_of_export hlaw hexport hempty hnames hextract
  obtain ⟨-, text, new, himports, hinstalled, -⟩ := imports_of_importTo himport
  -- the config that is imported is the one that has been exported
  obtain ⟨text₁, doc₀, doc₁, hlookup, hdoc₀, hdoc₁, -, hall⟩ := hb.complete.config
  obtain rfl := Option.some.inj (hdoc.symm.trans hdoc₀)
  have htext : text = text₁ := by
    have hzip : ([configName], utf8 text₁) ∈ a.unpacked := by
      have hfile := (hb.mem_files [configName] (utf8 text₁)).2
        ⟨by decide, .bytes (utf8 text₁), by rw [zipName_configName]; exact hlookup, rfl⟩
      have hjunk : (!isZipJunk (joinParts [configName])) = true := by decide
      exact List.mem_filter.2 ⟨hfile, hjunk⟩
    have hfile : d.nodes (configName :: ws.dest) = some (.file (utf8 text₁)) := by
      rw [hdisk]
      exact hunpacked.file hb hzip
    obtain ⟨target, bytes, hread, hutf8⟩ := himports.config
    have hpath : below report.folder [configName] = (configName :: ws.dest).reverse := by
      rw [below, hfolder, List.reverse_cons]
    rw [hpath, Disk.fileAt_of_canonicalize (Disk.find_of_file hfile) hfile] at hread
    obtain ⟨-, rfl⟩ := Prod.mk.inj (Option.some.inj hread)
    exact Option.some.inj (hutf8.symm.trans (fromUtf8_utf8 text₁))
  obtain ⟨cfg, warned, -, himported⟩ := himports.parsed
  obtain ⟨doc₂, hdoc₂, hnew⟩ := importText_eq hlaw himported
  rw [htext] at hdoc₂
  obtain rfl := Option.some.inj (hdoc₁.symm.trans hdoc₂)
  obtain ⟨answers₁, hanswers₁, hall₁⟩ := hall answers hanswers
  obtain ⟨answers₂, hanswers₂, hall₂⟩ := (importDoc_frame m d report.folder.reverse
    (existingKey fmt.toFormats (d.readToString t.path)) cfg doc₁).answers answers₁ hanswers₁
  refine ⟨new, _, answers₂, hinstalled.readAt_config, hnew, hanswers₂, ?_⟩
  apply forall₂_comp _ hall₁ hall₂
  rintro e e₁ e₂ ⟨hkey, hanswer⟩ ⟨hkey', -, habsolute⟩
  refine ⟨hkey'.trans hkey, fun target htarget hshipped => ?_⟩
  rw [htarget] at hanswer
  obtain ⟨name, hname, hanswered⟩ := hanswer
  obtain ⟨path, -, hres⟩ := Option.bind_eq_some_iff.1 htarget
  obtain ⟨zip, hzip, rfl, hsurvives⟩ := survives_of_answeredAs hlaw hb hunpacked
    (P.isPlace_of_resolve hres).isName hanswered hshipped
  refine ⟨zip, ?_, hsurvives⟩
  rw [habsolute _ hname, resolvePathUnder_zipName hzip, hfolder]
  rfl

theorem answers_survive_small : ∃ text doc answers,
    readAt installedDisk.nodes 8 smallTarget.path = some text ∧
      blockFormats.parseYaml text = some doc ∧ Project.answersOf doc = some answers ∧
      answers.toList.length = 1 := by
  obtain ⟨warnings, hexport⟩ := export_small
  obtain ⟨report, himport, hfolder⟩ := import_unpacked
  obtain ⟨text, doc, answers, hread, hdoc, hanswers, hall⟩ := answers_survive
    blockFormats_lawful.toLawful hexport emptyWorkspace_empty (by decide) extract_small
    unpackedDisk_nodes himport hfolder import_steps.1 rfl
  exact ⟨text, doc, answers, hread, hdoc, hanswers, hall.length_eq.symm⟩

end Imported

end DialF.Bundle
