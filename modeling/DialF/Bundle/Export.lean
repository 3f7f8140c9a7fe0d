import Mathlib.Data.List.AList
import DialF.Bundle.ConfigText
import DialF.Bundle.Relative
import DialF.Bundle.Unpack
import DialF.Bundle.Walk
import DialF.Jobs.Runner
import DialF.Lib.FreeName
import DialF.Lib.Yaml

/-!
# Exporting a bundle

`export` of `bundle.rs` puts a folder and its config into an archive. All files that the walk lists
get their names in the archive first. Then the jobs among them are read, and a file that a job plays
from outside the folder is pulled in under a name of its own; the jobs that a number is answered
with are pulled in too, and the config is made to name them where they are in the archive.

What the export makes of a job that is read again is in `Exported.lean`.
-/

set_option autoImplicit false

namespace DialF.Bundle

open DialF.Lib DialF.Jobs
open DialF.Daemon (isRelativePath)

/-! ## Paths -/

/-- What `components()` collects of a path behind a base: its parts, without `.` and without nothing
between separators, at the end too. So `x.wav/` and `x.wav/.` are `x.wav` before anything looks at
the disk. -/
def cleanParts (path : Str) : List Str := (pathParts path).filter (· ≠ ['.'])

/-- `resolve_path_under`, with the names of an absolute base: `joined.components().collect()`. -/
def resolvePathUnder (base : List Str) (path : Str) : List Str :=
  if isRelativePath path then base ++ cleanParts path else cleanParts path

example : resolvePathUnder ["etc".toList] "./jobs//x.yaml/.".toList =
    ["etc".toList, "jobs".toList, "x.yaml".toList] := by decide

/-- A part of a path, on the way to a location. -/
def toMove (part : Str) : Move Name := if part = ['.', '.'] then .up else .into part

/-- `Path::extension`. -/
def extension (name : Name) : Option Name :=
  if '.' ∈ name.tail then some (name.reverse.takeWhile (· ≠ '.')).reverse else none

/-- `is_yaml`, by the extension in any case. -/
def isYaml (path : List Name) : Bool :=
  (path.getLast?.bind extension).any fun e =>
    e.map Char.toLower = "yaml".toList || e.map Char.toLower = "yml".toList

/-- The name of a path in the archive. -/
def zipName (rel : List Name) : Str := joinParts rel

/-- The directory part of a name in the archive. -/
def parentOfZipName (name : Str) : Str := (name.reverse.dropWhile (· ≠ '/')).tail.reverse

/-- The names that lead to a location from a folder above it, `strip_prefix`. -/
def relOf (root target : List Name) : List Name :=
  (target.take (target.length - root.length)).reverse

/-! ## What is read and written -/

/-- The readers and writers of jobs, of configs and of their documents. -/
structure Formats where
  parseJob : Str → Option (List Step)
  dumpJob : List Step → Option Str
  /-- The `record_dir` of a config. -/
  parseConfig : Str → Option (Option Str)
  parseYaml : Str → Option Yaml
  dumpYaml : Yaml → Option Str

namespace Disk

/-- The location and the bytes of a file. -/
def fileAt (d : Disk) (path : List (Move Name)) : Option (List Name × Bytes) :=
  (d.canonicalize path).bind fun loc =>
    match d.nodes loc with
    | some (.file bytes) => some (loc, bytes)
    | _ => none

/-- `read_to_string`. -/
def readToString (d : Disk) (path : List (Move Name)) : Option Str :=
  (d.fileAt path).bind fun file => fromUtf8 file.2

end Disk

/-- A folder that is exported, the config that goes with it, and the archive that is written. -/
structure Project where
  disk : Disk
  root : List Name
  isDir : disk.nodes root = some .dir
  config : List Name
  configText : Str
  excluded : List (List Name)
  zipAbs : List Name

/-- The warnings of an export, with their texts. -/
inductive Warning where
  /-- "{}: rewritten for the bundle (comments dropped)" -/
  | rewritten (script : List Name)
  /-- "{}: audio.play file not found: {file} (kept as-is)" -/
  | notFound (script : List Name) (file : String)
  /-- "{}: audio.play file {file} is under an excluded/hidden path — NOT in the bundle" -/
  | notBundled (script : List Name) (file : String)
  /-- "{}: pulled out-of-tree sample {} into the bundle" -/
  | pulledSample (script target : List Name)
  /-- "config autoanswer {number}: job not found: {path} (kept as-is)" -/
  | jobNotFound (number path : Str)
  /-- "config autoanswer {number}: pulled out-of-tree job {} into the bundle as {name}" -/
  | pulledJob (number : Str) (target : List Name) (name : Str)

/-- What stops an export. -/
inductive ExportError where
  /-- "export folder not found: {}", or "not a directory: {}" -/
  | notFolder
  /-- "config not found: {} — create one, or pass --config" -/
  | noConfig
  /-- "parse config {}" -/
  | parseConfig
  /-- A script or a job that is not text, or "read {}". -/
  | read (path : List Name)
  /-- "parse autoanswer job {}" -/
  | parseJob (path : List Name)
  /-- A document that cannot be written. -/
  | dump

/-- Where the content of an entry comes from. -/
inductive Src where
  /-- A file, by the names of its path. -/
  | file (path : List Name)
  | bytes (bytes : Bytes)

/-- What has been gathered so far. -/
structure Gather where
  entries : AList fun _ : Str => Src
  /-- The files that have been pulled in, and their names. -/
  pulled : AList fun _ : List Name => Str
  warnings : List Warning

namespace Gather

/-- Add a warning. -/
def warn (g : Gather) (w : Warning) : Gather := { g with warnings := g.warnings ++ [w] }

/-- Add an entry of the archive, or replace the one of that name. -/
def insert (g : Gather) (name : Str) (src : Src) : Gather :=
  { g with entries := g.entries.insert name src }

end Gather

/-! ## Pulling files in -/

/-- The name that is tried first, and the numbered ones. -/
def pulledName (under base : Str) (n : Nat) : Str :=
  under ++ '/' :: (if n = 0 then base else numeral n ++ '-' :: base)

/-- `pull_external`: the name of a file from outside the folder in the archive. -/
def pullExternal (target : List Name) (under : Str) (g : Gather) : Str × Gather :=
  match g.pulled.lookup target with
  | some name => (name, g)
  | none =>
      let base := target.head?.getD "file".toList
      let name := pulledName under base
        (firstFree (fun name => decide (name ∈ g.entries)) (pulledName under base)
          g.entries.keys.length 0)
      (name, { g with
        entries := g.entries.insert name (.file target.reverse)
        pulled := g.pulled.insert target name })

/-! ## Jobs -/

/-- The references of a job, one after the other: the job with the new ones, and whether there are
any. -/
def rewriteSteps (ref : String → Gather → Option Str × Gather) :
    List Step → Gather → (List Step × Bool) × Gather
  | [], g => (([], false), g)
  | step :: steps, g =>
      match step.kind with
      | .audioPlay file =>
          match ref file g with
          | (some new, g) =>
              let rest := rewriteSteps ref steps g
              (({ step with kind := .audioPlay (String.ofList new) } :: rest.1.1, true), rest.2)
          | (none, g) =>
              let rest := rewriteSteps ref steps g
              ((step :: rest.1.1, rest.1.2), rest.2)
      | _ =>
          let rest := rewriteSteps ref steps g
          ((step :: rest.1.1, rest.1.2), rest.2)

namespace Project

variable (P : Project)

/-- In the folder, but not in the bundle. -/
def isLeftOut (target : List Name) : Bool :=
  P.excluded.any (· <:+ target) || (relOf P.root target).any isHidden

/-- Where a path leads to that stands in a file of a directory. -/
def resolve (dir : List Name) (file : Str) : Option (List Name) :=
  P.disk.canonicalize ((resolvePathUnder dir file).map toMove)

/-- The reference of a script in the folder: what it becomes, unless it stays. -/
def scriptRef (script : List Name) (file : String) (g : Gather) : Option Str × Gather :=
  match P.resolve (below P.root script.dropLast) file.toList with
  | none => (none, g.warn (.notFound script file))
  | some target =>
      if P.root <:+ target then
        if P.isLeftOut target then (none, g.warn (.notBundled script file))
        -- same relative relationship holds inside the zip
        else if isRelativePath file.toList then (none, g)
        else
          (some (relativeZipPath (parentOfZipName (zipName script))
            (zipName (relOf P.root target))), g)
      else
        let pulled := pullExternal target "samples".toList (g.warn (.pulledSample script target))
        (some (relativeZipPath (parentOfZipName (zipName script)) pulled.1), pulled.2)

/-- The reference of a job from outside the folder, which goes into the archive as `jobZip`. -/
def jobRef (job : List Name) (jobZip : Str) (file : String) (g : Gather) : Option Str × Gather :=
  match P.resolve job.tail.reverse file.toList with
  | none => (none, g)
  | some target =>
      if P.root <:+ target then
        (some (relativeZipPath (parentOfZipName jobZip) (zipName (relOf P.root target))), g)
      else
        let pulled := pullExternal target "samples".toList g
        (some (relativeZipPath (parentOfZipName jobZip) pulled.1), pulled.2)

variable (fmt : Formats)

/-- `normalize_script`: the job, if it has to be rewritten. -/
def normalizeScript (script : List Name) (g : Gather) :
    Except ExportError (Option (List Step) × Gather) :=
  match P.disk.readToString ((below P.root script).map .into) with
  | none => .error (.read (below P.root script))
  | some text =>
      match fmt.parseJob text with
      | none => .ok (none, g)
      | some job =>
          let done := rewriteSteps (P.scriptRef script) job g
          .ok (if done.1.2 then some done.1.1 else none, done.2)

/-- The scripts, one after the other. -/
def normalizeScripts : List (List Name) → Gather → Except ExportError Gather
  | [], g => .ok g
  | script :: scripts, g =>
      if isYaml script then
        match P.normalizeScript fmt script g with
        | .error e => .error e
        | .ok (none, g) => normalizeScripts scripts g
        | .ok (some job, g) =>
            match fmt.dumpJob job with
            | none => .error .dump
            | some text =>
                normalizeScripts scripts
                  ((g.warn (.rewritten script)).insert (zipName script) (.bytes (utf8 text)))
      else normalizeScripts scripts g

/-- `normalize_out_of_tree_job`: the text of the job, if it has to be rewritten. -/
def normalizeOutOfTreeJob (job : List Name) (jobZip : Str) (g : Gather) :
    Except ExportError (Option Str × Gather) :=
  match P.disk.readToString (job.reverse.map .into) with
  | none => .error (.read job.reverse)
  | some text =>
      match fmt.parseJob text with
      | none => .error (.parseJob job.reverse)
      | some steps =>
          let done := rewriteSteps (P.jobRef job jobZip) steps g
          if done.1.2 then
            match fmt.dumpJob done.1.1 with
            | none => .error .dump
            | some text => .ok (some text, done.2)
          else .ok (none, done.2)

/-! ## The config -/

/-- The name of the job that a number is answered with. -/
def answerName (number : Str) (target : List Name) (g : Gather) :
    Except ExportError (Str × Gather) :=
  if P.root <:+ target then .ok (zipName (relOf P.root target), g)
  else
    let pulled := pullExternal target "scripts".toList g
    match P.normalizeOutOfTreeJob fmt target pulled.1 pulled.2 with
    | .error e => .error e
    | .ok (none, g) => .ok (pulled.1, g.warn (.pulledJob number target pulled.1))
    | .ok (some text, g) =>
        .ok (pulled.1, (g.insert pulled.1 (.bytes (utf8 text))).warn
          (.pulledJob number target pulled.1))

/-- The entries of `autoanswer`, one after the other, with the edits of the text. -/
def answerEntries : YamlEntries → Gather →
    Except ExportError (YamlEntries × List (Str × Str) × Gather)
  | .nil, g => .ok (.nil, [], g)
  | .cons k v entries, g =>
      match v.asStr with
      -- null = answer-only
      | none => (answerEntries entries g).map fun r => (.cons k v r.1, r.2.1, r.2.2)
      | some path =>
          let number := k.asStr.getD ['?']
          match P.resolve P.config.tail.reverse path with
          | none =>
              (answerEntries entries (g.warn (.jobNotFound number path))).map
                fun r => (.cons k v r.1, r.2.1, r.2.2)
          | some target =>
              match P.answerName fmt number target g with
              | .error e => .error e
              | .ok (new, g) =>
                  (answerEntries entries g).map fun r =>
                    if new ≠ path then
                      (.cons k (.string new) r.1, (number, yamlQuote new) :: r.2.1, r.2.2)
                    else (.cons k v r.1, r.2.1, r.2.2)

/-- The key of the numbers that are answered. -/
def autoanswer : Str := "autoanswer".toList

/-- The folder of recordings in a bundle. -/
def recordings : Str := "recordings".toList

/-- The document with the new `record_dir`, and the edit for it. -/
def editRecordDir (doc : Yaml) : Yaml × List (Str × Str) :=
  match (doc.get "audio".toList).bind fun audio =>
      (audio.get "record_dir".toList).bind fun rd => rd.asStr.map fun s => (audio, s) with
  | some (audio, s) =>
      if s ≠ recordings then
        (doc.set "audio".toList (audio.set "record_dir".toList (.string recordings)),
          [("record_dir".toList, yamlQuote recordings)])
      else (doc, [])
  | none => (doc, [])

/-- The entries of `autoanswer` in a document. -/
def answersOf (doc : Yaml) : Option YamlEntries := (doc.get autoanswer).bind Yaml.asMapping

/-- The document with the new jobs, the edits for them, and what they have pulled in. -/
def editAnswers (doc : Yaml) (g : Gather) : Except ExportError (Yaml × List (Str × Str) × Gather) :=
  match (doc.get autoanswer).bind fun v => v.asMapping.map fun entries => (v, entries) with
  | none => .ok (doc, [], g)
  | some (v, entries) =>
      (P.answerEntries fmt entries g).map fun r =>
        (doc.set autoanswer (v.withEntries r.1), r.2.1, r.2.2)

/-! ## The archive -/

/-- The files in the folder, but for its own config. -/
def files : List (List Name) :=
  (P.disk.walk P.root P.excluded P.zipAbs).filter (· ≠ [configName])

/-- All files have their names before any is pulled in. -/
def reserve : Gather where
  entries := P.files.foldl (fun entries f => entries.insert (zipName f) (.file (below P.root f))) ∅
  pulled := ∅
  warnings := []

/-- The content of an entry. -/
def content : Src → Except ExportError Bytes
  | .bytes bytes => .ok bytes
  | .file path =>
      match P.disk.fileAt (path.map .into) with
      | some file => .ok file.2
      | none => .error (.read path)

/-- The entries in the order of their names. -/
def zipEntries (entries : AList fun _ : Str => Src) : Except ExportError (List ZipEntry) :=
  (entries.entries.insertionSort fun a b => a.1 ≤ b.1).mapM fun e =>
    (P.content e.2).map fun bytes => ⟨e.1, false, false, bytes⟩

/-- What is in the archive: the names and their contents, and what there is to say of them. -/
def gather : Except ExportError Gather :=
  match P.normalizeScripts fmt P.files P.reserve with
  | .error e => .error e
  | .ok g =>
      match fmt.parseYaml P.configText with
      | none => .error .parseConfig
      | some doc =>
          match P.editAnswers fmt doc g with
          | .error e => .error e
          | .ok (doc, edits, g) =>
              let done := editRecordDir doc
              match renderConfig fmt.parseYaml fmt.dumpYaml P.configText (edits ++ done.2)
                  done.1 with
              | none => .error .dump
              | some text => .ok (g.insert configName (.bytes (utf8 text)))

end Project

/-- The config that is exported: the one that is asked for, or the folder's own, or the default. -/
def configPath (d : Disk) (root : List Name) (config : Option (List (Move Name)))
    (defaultConfig : List (Move Name)) : List (Move Name) :=
  match config with
  | some path => path
  | none =>
      if (d.fileAt ((below root [configName]).map .into)).isSome then
        (below root [configName]).map .into
      else defaultConfig

/-- The directories of recordings: the one of the config, and those with a name for it. -/
def excludedDirs (d : Disk) (root config : List Name) (recordDir : Option Str) : List (List Name) :=
  let excluded := (recordDir.bind fun rd =>
    d.canonicalize ((resolvePathUnder config.tail.reverse rd).map toMove)).toList
  match d.locate root [Project.recordings] with
  | some loc => if excluded.contains loc then excluded else excluded ++ [loc]
  | none => excluded

/-- The folder and the config that an export is about. The folder and the config are paths from the
root, and `zipAbs` is where the archive is written to. -/
def openProject (fmt : Formats) (d : Disk) (dir : List (Move Name))
    (config : Option (List (Move Name))) (defaultConfig : List (Move Name)) (zipAbs : List Name) :
    Except ExportError Project :=
  match d.canonicalize dir with
  | none => .error .notFolder
  | some root =>
      match hroot : d.nodes root with
      | some .dir =>
          match d.fileAt (configPath d root config defaultConfig) with
          | none => .error .noConfig
          | some (config, bytes) =>
              match fromUtf8 bytes with
              | none => .error (.read config.reverse)
              | some text =>
                  match fmt.parseConfig text with
                  | none => .error .parseConfig
                  | some recordDir =>
                      .ok ⟨d, root, hroot, config, text,
                        excludedDirs d root config recordDir, zipAbs⟩
      | _ => .error .notFolder

/-- `export`: the entries of the archive, and the warnings. -/
def Project.exportBundle (P : Project) (fmt : Formats) :
    Except ExportError (List ZipEntry × List Warning) :=
  match P.gather fmt with
  | .error e => .error e
  | .ok g => (P.zipEntries g.entries).map fun entries => (entries, g.warnings)

end DialF.Bundle
