import DialF.Audio.SoxChoice
import DialF.Bundle.Export

/-!
# Importing a bundle

`import` of `bundle.rs` makes the config of a folder the config of the machine. The paths in it
become absolute, commands for tools that the machine does not have are made to fit it
(`hostcheck.rs`), the machine keeps its key, and the config that was there is kept as a backup.

This is the import that asks nothing. With a terminal, what is asked for is edited by the same
functions (`Draft.setAudio`, `Draft.setTopLevelStr`).
-/

set_option autoImplicit false

namespace DialF.Bundle

open DialF.Lib DialF.Jobs DialF.Audio
open DialF.Daemon (isRelativePath)

/-! ## A document and its edits -/

/-- A config that is edited: the document, and the new values of its lines. -/
structure Draft where
  doc : Yaml
  edits : List (Str × Str)

/-- The section of the config with the tools. -/
def audio : Str := "audio".toList

/-- The key of the folder of recordings. -/
def recordDir : Str := "record_dir".toList

/-- The key of the capture command. -/
def captureCmd : Str := "capture_cmd".toList

/-- The key of the playback command. -/
def playbackCmd : Str := "playback_cmd".toList

/-- The key of the shared key. -/
def sharedKey : Str := "shared_key".toList

/-- A value of the section `audio`. -/
def audioValue (doc : Yaml) (key : Str) : Option Yaml := (doc.get audio).bind (Yaml.get key)

/-- `audio_argv`. -/
def audioArgv (doc : Yaml) (key : Str) : Option (List Str) :=
  ((audioValue doc key).bind Yaml.asSequence).bind fun items =>
    let argv := items.filterMap Yaml.asStr
    if argv = [] then none else some argv

namespace Draft

/-- Replace any earlier edit for the same key. -/
def note (key text : Str) (d : Draft) : Draft :=
  { d with edits := d.edits.filter (fun e => e.1 ≠ key) ++ [(key, text)] }

/-- A key of `audio` that is there gets a value. -/
def setAudio (key : Str) (new : Yaml) (text : Str) (d : Draft) : Draft :=
  match (d.doc.get audio).bind fun a => (a.get key).map fun _ => a with
  | none => d
  | some a => note key text { d with doc := d.doc.set audio (a.set key new) }

/-- `set_audio_str`. -/
def setAudioStr (key val : Str) (d : Draft) : Draft := d.setAudio key (.string val) (yamlQuote val)

/-- `set_audio_argv`. -/
def setAudioArgv (key : Str) (argv : List Str) (d : Draft) : Draft :=
  d.setAudio key (.sequence (.ofList (argv.map .string))) (yamlFlow argv)

/-- `set_top_level_str`. -/
def setTopLevelStr (key val : Str) (d : Draft) : Draft :=
  match d.doc.asMapping with
  | none => d
  | some _ => note key (yamlQuote val) { d with doc := d.doc.insert key (.string val) }

end Draft

/-! ## Reports -/

/-- The warnings of an import, with their texts. -/
inductive ImportWarning where
  /-- "{}: audio.play file missing: {}" -/
  | sampleMissing (script : List Name) (path : List Str)
  /-- "config autoanswer {}: job not found at {}" -/
  | jobMissing (number path : Str)
  /-- "audio.{key}: changed SoX audio driver from coreaudio to alsa for Linux" -/
  | soxDriver (key : Str)
  /-- "audio.{key}: {old} does not exist here — using `{new}` instead, so it resolves once the tool
  is installed" -/
  | repointed (key old new : Str)
  /-- What the check of sox has to say. -/
  | sox (report : Str)
  /-- "shared_key: kept this machine's key ({}), not the bundle's — …" -/
  | keyKept (masked : Str)
  /-- "config shared_key is still the insecure `change-me` placeholder — …" -/
  | placeholderKey
  /-- "audio.{label} tool not found on this machine: {argv0} — install it or edit the config" -/
  | toolMissing (label argv0 : Str)
  /-- "audio.{label} is \"{d}\" — verify that device exists on this machine" -/
  | device (label name : Str)
  /-- "config pins control_socket settings from the exporting machine …" -/
  | controlSocket
  /-- "config ws_bind is \"{}\" — verify it's bindable on this machine" -/
  | wsBind (bind : Str)

/-- What stops an import. -/
inductive ImportError where
  /-- "bundle folder not found: {}", or "not a directory: {}" -/
  | notFolder
  /-- "not a valid dialf bundle: {} has no config.yaml" -/
  | noConfig
  /-- A file that is not text. -/
  | read
  /-- "parse {}" -/
  | parseConfig
  /-- "not a valid dialf bundle: {} has no job script (no YAML parsed as a job)" -/
  | noScript
  /-- "{} already exists — re-run with --override to replace it" -/
  | alreadyThere
  /-- A document that cannot be written. -/
  | dump
  /-- "back up {} to {}" -/
  | backup
  /-- "write {}", or a directory that cannot be made. -/
  | write

/-- What of a config is looked at. -/
structure ImportedConfig where
  sharedKey : Str
  captureCmd : Option (List Str)
  playbackCmd : Option (List Str)
  captureDevice : Option Str
  playbackDevice : Option Str
  /-- `control_socket`, its group or its mode is set. -/
  pinsSocket : Bool
  wsBind : Str

/-- The formats of an export, and how the config of a bundle is read. -/
structure ImportFormats extends Formats where
  parseImported : Str → Option ImportedConfig

/-! ## Paths -/

/-- An absolute path, from its parts. -/
def absolutePath (parts : List Str) : Str := '/' :: joinParts parts

/-- `Path::file_name`. -/
def fileName (path : Str) : Option Str := (cleanParts path).getLast?.filter (· ≠ ['.', '.'])

/-- The numbers, with absolute paths to their jobs. -/
def importAnswers (d : Disk) (folder : List Name) :
    YamlEntries → YamlEntries × List (Str × Str) × List ImportWarning
  | .nil => (.nil, [], [])
  | .cons k v entries =>
      let rest := importAnswers d folder entries
      match v.asStr with
      -- null = answer-only
      | none => (.cons k v rest.1, rest.2)
      | some path =>
          let parts := resolvePathUnder folder path
          let new := absolutePath parts
          let number := k.asStr.getD ['?']
          let missing :=
            if (d.fileAt (parts.map toMove)).isSome then [] else [.jobMissing number new]
          if new ≠ path then
            (.cons k (.string new) rest.1, (number, yamlQuote new) :: rest.2.1, missing ++ rest.2.2)
          else (.cons k v rest.1, rest.2.1, missing ++ rest.2.2)

/-- The document with absolute paths to the jobs. -/
def absoluteAnswers (d : Disk) (folder : List Name) (doc : Yaml) : Draft × List ImportWarning :=
  match (doc.get Project.autoanswer).bind fun v => v.asMapping.map fun entries => (v, entries) with
  | none => (⟨doc, []⟩, [])
  | some (v, entries) =>
      let done := importAnswers d folder entries
      (⟨doc.set Project.autoanswer (v.withEntries done.1), done.2.1⟩, done.2.2)

/-- An absolute path for the recordings too. -/
def absoluteRecordDir (folder : List Name) (draft : Draft) : Draft :=
  match (draft.doc.get audio).bind fun a =>
      (a.get recordDir).bind fun rd => rd.asStr.map fun s => (a, s) with
  | none => draft
  | some (a, s) =>
      let new := absolutePath (resolvePathUnder folder s)
      if new ≠ s then
        ⟨draft.doc.set audio (a.set recordDir (.string new)),
          draft.edits ++ [(recordDir, yamlQuote new)]⟩
      else draft

/-! ## The machine -/

/-- What the machine has. -/
structure Machine where
  linux : Bool
  /-- Whether there is anything at the path of a tool. -/
  isThere : Str → Bool
  sox : SoxHost
  /-- The directories of `PATH`. -/
  path : Option (List Str)
  which : Str → Option Str
  /-- What the check of sox has to say of a document, where there is a problem. -/
  soxReport : Yaml → Option Str

/-- One of the programs of the sox family, by name. -/
def isSoxFamily (tool : Str) : Bool := soxRoles.any fun r => tool = r.1 || tool = r.2

namespace Machine

variable (m : Machine)

/-- The best binary by version for the SoX family, otherwise the first on `PATH`. -/
def findTool (tool : Str) : Option Str :=
  if isSoxFamily tool then (m.path.bind (bestSoxIn m.sox tool)).map (·.1) else m.which tool

end Machine

/-- The audio driver of macOS. -/
def coreaudio : Str := "coreaudio".toList

/-- The audio driver of Linux. -/
def alsa : Str := "alsa".toList

/-- The arguments behind one, with the driver of this system, and whether there is a change. -/
def alsaArgs : Str → List Str → List Str × Bool
  | _, [] => ([], false)
  | prev, arg :: args =>
      if arg = coreaudio ∧ prev = "-t".toList then (alsa :: (alsaArgs alsa args).1, true)
      else (arg :: (alsaArgs arg args).1, (alsaArgs arg args).2)

/-- `rewrite_sox_coreaudio_for_alsa`: the arguments after the tool, of the sox family only. -/
def rewriteSoxCoreaudioForAlsa : List Str → List Str × Bool
  | [] => ([], false)
  | tool :: args =>
      if (fileName tool).any isSoxFamily then
        (tool :: (alsaArgs tool args).1, (alsaArgs tool args).2)
      else (tool :: args, false)

namespace Machine

variable (m : Machine)

/-- `rewrite_linux_sox_command`: one command of the config, named when it is changed. -/
def rewriteLinuxSoxCommand (key : Str) (draft : Draft) : Draft × List Str :=
  match audioArgv draft.doc key with
  | none => (draft, [])
  | some argv =>
      let new := rewriteSoxCoreaudioForAlsa argv
      if new.2 then (draft.setAudioArgv key new.1, [key]) else (draft, [])

/-- Apply the cross-platform SoX backend migration: the keys that change. -/
def rewriteLinuxSoxCommands (draft : Draft) : Draft × List Str :=
  if m.linux then
    let capture := rewriteLinuxSoxCommand captureCmd draft
    let playback := rewriteLinuxSoxCommand playbackCmd capture.1
    (playback.1, capture.2 ++ playback.2)
  else (draft, [])

/-- What is run in the place of a path that cannot work on this machine. -/
def replacement (argv0 : Str) : Option Str :=
  if isRelativePath argv0 || m.isThere argv0 then none
  else
    (fileName argv0).bind fun base =>
      let new := (m.findTool base).getD base
      if new = argv0 then none else some new

/-- `rewrite_unusable_tool_path`: a tool that this machine does not have, for one that it has. -/
def rewriteUnusableToolPath (key : Str) (draft : Draft) : Draft × List (Str × Str × Str) :=
  match audioArgv draft.doc key with
  | some (argv0 :: args) =>
      match m.replacement argv0 with
      | none => (draft, [])
      | some new => (draft.setAudioArgv key (new :: args), [(key, argv0, new)])
  | _ => (draft, [])

/-- Drop paths that cannot work on this machine: the keys that change, the old paths and the new
ones. -/
def rewriteUnusableToolPaths (draft : Draft) : Draft × List (Str × Str × Str) :=
  let capture := m.rewriteUnusableToolPath captureCmd draft
  let playback := m.rewriteUnusableToolPath playbackCmd capture.1
  (playback.1, capture.2 ++ playback.2)

/-- A pinned tool that is not here, and has not been repointed. -/
def toolMissing (repointed : List (Str × Str × Str)) (label : Str) (cmd : Option (List Str)) :
    List ImportWarning :=
  match cmd.bind List.head? with
  | none => []
  | some argv0 =>
      let found := if isRelativePath argv0 then (m.which argv0).isSome else m.isThere argv0
      if found || repointed.any (·.1 = label) then [] else [.toolMissing label argv0]

end Machine

/-! ## The key -/

/-- Enough of a key to recognise it without revealing it. -/
def maskKey (key : Str) : Str :=
  if key.length < 8 then "••••".toList
  else key.take 2 ++ "••••".toList ++ key.drop (key.length - 2)

/-- `shared_key_is_placeholder`. -/
def sharedKeyIsPlaceholder (key : Str) : Bool := trim key = [] || trim key = "change-me".toList

/-- The key of a config that is to be replaced. -/
def existingKey (fmt : Formats) (text : Option Str) : Option Str :=
  (((text.bind fmt.parseYaml).bind (Yaml.get sharedKey)).bind Yaml.asStr).filter
    (!sharedKeyIsPlaceholder ·)

/-- A replaced config keeps its key, so the paired phone stays paired. -/
def keepKey (existing : Option Str) (cfg : ImportedConfig) (draft : Draft) :
    Draft × List ImportWarning :=
  match existing with
  | some mine =>
      if mine ≠ cfg.sharedKey then (draft.setTopLevelStr sharedKey mine, [.keyKept (maskKey mine)])
      else (draft, [])
  | none => (draft, if sharedKeyIsPlaceholder cfg.sharedKey then [.placeholderKey] else [])

/-! ## The config -/

/-- `DEFAULT_WS_BIND`. -/
def defaultWsBind : Str := "0.0.0.0:8765".toList

/-- What becomes of the document of a config on this machine. -/
def importDoc (m : Machine) (d : Disk) (folder : List Name) (existing : Option Str)
    (cfg : ImportedConfig) (doc : Yaml) : Draft × List ImportWarning :=
  let answers := absoluteAnswers d folder doc
  let sox := m.rewriteLinuxSoxCommands (absoluteRecordDir folder answers.1)
  let tools := m.rewriteUnusableToolPaths sox.1
  let key := keepKey existing cfg tools.1
  (key.1,
    answers.2 ++ sox.2.map .soxDriver ++ tools.2.map (fun r => .repointed r.1 r.2.1 r.2.2) ++
      (m.soxReport tools.1.doc).toList.map .sox ++ key.2 ++
      m.toolMissing tools.2 captureCmd cfg.captureCmd ++
      m.toolMissing tools.2 playbackCmd cfg.playbackCmd ++
      cfg.captureDevice.toList.map (.device "capture_device".toList) ++
      cfg.playbackDevice.toList.map (.device "playback_device".toList) ++
      (if cfg.pinsSocket then [.controlSocket] else []) ++
      if cfg.wsBind ≠ defaultWsBind then [.wsBind cfg.wsBind] else [])

/-- The text that is installed. -/
def importText (m : Machine) (fmt : ImportFormats) (d : Disk) (folder : List Name)
    (existing : Option Str) (cfg : ImportedConfig) (text : Str) :
    Except ImportError (Str × List ImportWarning) :=
  match fmt.parseYaml text with
  | none => .error .parseConfig
  | some doc =>
      let done := importDoc m d folder existing cfg doc
      match renderConfig fmt.parseYaml fmt.dumpYaml text done.1.edits done.1.doc with
      | none => .error .dump
      | some new => .ok (new, done.2)

/-! ## The folder -/

/-- The files of a job that are not where they are looked for. -/
def samplesMissing (d : Disk) (root script : List Name) (job : List Step) : List ImportWarning :=
  job.filterMap fun step =>
    match step.kind with
    | .audioPlay file =>
        let parts := resolvePathUnder (below root script.dropLast) file.toList
        if (d.fileAt (parts.map toMove)).isSome then none else some (.sampleMissing script parts)
    | _ => none

/-- The jobs among the files of the folder. -/
def importScripts (fmt : Formats) (d : Disk) (root : List Name) :
    List (List Name) → Except ImportError (List (List Name) × List ImportWarning)
  | [] => .ok ([], [])
  | f :: files =>
      if !isYaml f || f = [configName] then importScripts fmt d root files
      else
        match d.readToString ((below root f).map .into) with
        | none => .error .read
        | some text =>
            match fmt.parseJob text with
            | none => importScripts fmt d root files
            | some job =>
                (importScripts fmt d root files).map fun r =>
                  (f :: r.1, samplesMissing d root f job ++ r.2)

/-! ## The installation -/

/-- Where a config is installed: in a directory, by the names of its path, under a name. -/
structure Target where
  dir : List Name
  name : Name

/-- The moves to the target. -/
def Target.path (t : Target) : List (Move Name) := t.dir.map .into ++ [.into t.name]

/-- `Path::with_extension`. -/
def withExtension (name ext : Str) : Name :=
  let stem := (name.reverse.dropWhile (· ≠ '.')).tail.reverse
  (if stem = [] then name else stem) ++ '.' :: ext

/-- Timestamped, with a number for a second one of the same second. -/
def Target.backup (t : Target) (stamp : Str) (n : Nat) : Target :=
  { t with
    name := withExtension t.name
      ("yaml.bak.".toList ++ stamp ++ if n = 0 then [] else '-' :: numeral n) }

/-- Write a file, in the directories of its path. -/
def writeTarget (links : Nat) (nodes : Nodes Name Bytes) (t : Target) (bytes : Bytes) :
    Nodes Name Bytes × Bool :=
  match createDirAll nodes links [] t.dir with
  | none => (nodes, false)
  | some made =>
      match createFile made bytes (find made links [] t.path) with
      | none => (made, false)
      | some written => (written, true)

/-- The backup that a config gets, under a name that is free. -/
def freeBackup (d : Disk) (t : Target) (stamp : Str) : Target :=
  t.backup stamp (firstFree (fun name => (d.canonicalize (t.dir.map .into ++ [.into name])).isSome)
    (fun n => (t.backup stamp n).name) d.items.length 0)

/-- Keep the config that there is, and write the new one. -/
def install (d : Disk) (t : Target) (stamp text : Str) :
    Nodes Name Bytes × Except ImportError (Option Target) :=
  if (d.canonicalize t.path).isSome then
    match d.fileAt t.path with
    | none => (d.nodes, .error .backup)
    | some old =>
        let bak := freeBackup d t stamp
        match createFile d.nodes old.2 (find d.nodes d.links [] bak.path) with
        | none => (d.nodes, .error .backup)
        | some kept =>
            let done := writeTarget d.links kept t (utf8 text)
            (done.1, if done.2 then .ok (some bak) else .error .write)
  else
    let done := writeTarget d.links d.nodes t (utf8 text)
    (done.1, if done.2 then .ok none else .error .write)

/-- What an import reports. -/
structure ImportReport where
  backup : Option Target
  folder : List Name
  scripts : List (List Name)
  warnings : List ImportWarning

/-- `import_to`: the tree afterwards, and what there is to report. -/
def importTo (m : Machine) (fmt : ImportFormats) (d : Disk) (folder : List (Move Name)) (t : Target)
    (overrideExisting : Bool) (stamp : Str) : Nodes Name Bytes × Except ImportError ImportReport :=
  match d.canonicalize folder with
  | none => (d.nodes, .error .notFolder)
  | some root =>
      match d.nodes root with
      | some .dir =>
          match d.fileAt ((below root [configName]).map .into) with
          | none => (d.nodes, .error .noConfig)
          | some config =>
              match fromUtf8 config.2 with
              | none => (d.nodes, .error .read)
              | some text =>
                  match fmt.parseImported text with
                  | none => (d.nodes, .error .parseConfig)
                  | some cfg =>
                      match importScripts fmt.toFormats d root (d.walk root [] []) with
                      | .error e => (d.nodes, .error e)
                      | .ok ([], _) => (d.nodes, .error .noScript)
                      | .ok (scripts, missing) =>
                          if (d.canonicalize t.path).isSome && !overrideExisting then
                            (d.nodes, .error .alreadyThere)
                          else
                            let existing := existingKey fmt.toFormats (d.readToString t.path)
                            match importText m fmt d root.reverse existing cfg text with
                            | .error e => (d.nodes, .error e)
                            | .ok (new, warnings) =>
                                let done := install d t stamp new
                                (done.1, done.2.map fun bak =>
                                  ⟨bak, root, scripts, missing ++ warnings⟩)
      | _ => (d.nodes, .error .notFolder)

end DialF.Bundle
