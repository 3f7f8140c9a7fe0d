import DialF.Bundle.Imported
import DialF.Lib.Substring

/-!
# Jobs and configs in block style

The formats of a bundle are a parameter of its model. Here they are read and written for the files
that people write: mappings of plain or quoted values, one more level below a key, and lists of
mappings; without flow style, anchors, tags and block texts. What does not read back is not written,
so that the formats are lawful (`blockFormats_lawful`).
-/

set_option autoImplicit false

namespace DialF.Bundle

open DialF.Lib DialF.Jobs DialF.Share

/-! ## Values -/

/-- What is left of a text in quotes, without a quote or a backslash in it. -/
def unquoted (quote : Char) (s : Str) : Option Yaml :=
  if s.getLast? = some quote ∧ quote ∉ s.dropLast ∧ '\\' ∉ s.dropLast then
    some (.string s.dropLast)
  else none

/-- Words that are no strings. -/
def reservedWords : List Str :=
  ["null".toList, "Null".toList, "NULL".toList, "true".toList, "True".toList, "TRUE".toList,
    "false".toList, "False".toList, "FALSE".toList]

/-- A name or a path, as it can stand without quotes. -/
def IsPlain (s : Str) : Prop :=
  (s.head?.any fun c => c.isAlpha || c == '/') = true ∧
    (∀ c ∈ s, c.isAlphanum = true ∨ c ∈ ['.', '/', '_', '-']) ∧ s ∉ reservedWords

instance (s : Str) : Decidable (IsPlain s) :=
  @instDecidableAnd _ _ _ (@instDecidableAnd _ _
    (List.decidableBAll (fun c => c.isAlphanum = true ∨ c ∈ ['.', '/', '_', '-']) s) _)

/-- A value on a line. -/
def readScalar (s : Str) : Option Yaml :=
  match s with
  | [] => none
  | c :: rest =>
      if c = '"' ∨ c = apostrophe then unquoted c rest
      else if s.all Char.isDigit then some (.number s)
      else if IsPlain s then some (.string s)
      else none

/-- A string stands without quotes where it reads back so. -/
def writeScalar : Yaml → Option Str
  | .string s =>
      if readScalar s = some (.string s) then some s else some (apostrophe :: s ++ [apostrophe])
  | .number text => some text
  | _ => none

/-! ## Reading -/

/-- A key that is not there yet. -/
def addEntry (key value : Yaml) (entries : YamlEntries) : Option YamlEntries :=
  if key ∈ entries.toList.map Prod.fst then none else some (.cons key value entries)

/-- A key and its value, on each line. -/
def readPairs : List Str → Option YamlEntries
  | [] => some .nil
  | line :: rest => do
      let entries ← readPairs rest
      let pair ← splitOnce ": ".toList line
      addEntry (← readScalar pair.1) (← readScalar pair.2) entries

/-- The keys of a mapping; with them the lines that are further in, up to the first one that is
not. -/
def readMapping : List Str → Option (List Str × YamlEntries)
  | [] => some ([], .nil)
  | line :: rest => do
      let (inner, entries) ← readMapping rest
      match line with
      | ' ' :: ' ' :: text => some (text :: inner, entries)
      | _ =>
          match splitOnce ": ".toList line with
          | some (key, value) =>
              if inner = [] then
                (addEntry (← readScalar key) (← readScalar value) entries).map fun e => ([], e)
              else none
          | none =>
              if line.getLast? = some ':' then do
                let below ← readPairs inner
                (addEntry (← readScalar line.dropLast)
                  (if inner = [] then .null else .mapping below) entries).map fun e => ([], e)
              else none

/-- The mappings of a list, in the same way. -/
def readItems : List Str → Option (List Str × YamlItems)
  | [] => some ([], .nil)
  | line :: rest => do
      let (inner, items) ← readItems rest
      match line with
      | ' ' :: ' ' :: text => some (text :: inner, items)
      | '-' :: ' ' :: text => some ([], .cons (.mapping (← readPairs (text :: inner))) items)
      | _ => none

/-- A document, without its comments. -/
def readBlock (text : Str) : Option Yaml :=
  let ls := (lines text).filter fun line => decide (line ≠ [] ∧ line.head? ≠ some '#')
  if ls = [] then some .null
  else if (ls.head?.bind List.head?) = some '-' then
    (readItems ls).bind fun r => if r.1 = [] then some (.sequence r.2) else none
  else (readMapping ls).bind fun r => if r.1 = [] then some (.mapping r.2) else none

/-! ## Writing -/

/-- The lines of a mapping of scalars. -/
def writePairs : YamlEntries → Option (List Str)
  | .nil => some []
  | .cons key value entries => do
      some (((← writeScalar key) ++ ": ".toList ++ (← writeScalar value)) :: (← writePairs entries))

/-- The lines of a mapping whose values are scalars or mappings of scalars. -/
def writeMapping : YamlEntries → Option (List Str)
  | .nil => some []
  | .cons key value entries => do
      let rest ← writeMapping entries
      let name ← writeScalar key
      match value with
      | .null => some ((name ++ [':']) :: rest)
      | .mapping inner =>
          some ((name ++ [':']) :: ((← writePairs inner).map ("  ".toList ++ ·) ++ rest))
      | value => some ((name ++ ": ".toList ++ (← writeScalar value)) :: rest)

/-- The lines of a sequence of mappings: a dash before the first line of each. -/
def writeItems : YamlItems → Option (List Str)
  | .nil => some []
  | .cons (.mapping entries) items => do
      let rest ← writeItems items
      match ← writePairs entries with
      | [] => none
      | first :: inner =>
          some (("- ".toList ++ first) :: (inner.map ("  ".toList ++ ·) ++ rest))
  | .cons _ _ => none

/-- The text of a document in block style, of the shapes that jobs and configs have. -/
def writeBlock : Yaml → Option Str
  | .mapping entries => (writeMapping entries).map joined
  | .sequence items => (writeItems items).map joined
  | _ => none

/-! ## Jobs and configs -/

/-- A text under a key. -/
def textAtKey (key : String) (v : Yaml) : Option Str := (v.get key.toList).bind Yaml.asStr

/-- A step that plays a file, answers or hangs up. -/
def readStep (v : Yaml) : Option Step := do
  let type ← textAtKey "type" v
  let kind ←
    if type = "audio.play".toList then
      (textAtKey "file" v).map fun file => StepKind.audioPlay (String.ofList file)
    else if type = "call.answer".toList then some .callAnswer
    else if type = "call.hangup".toList then some .callHangup
    else none
  some ⟨kind, (textAtKey "description" v).map String.ofList, (textAtKey "id" v).map String.ofList⟩

/-- A job: its steps, in order. -/
def readJob (text : Str) : Option (List Step) :=
  ((readBlock text).bind Yaml.asSequence).bind fun items => items.mapM readStep

/-- The document of a step, as it is written. -/
def stepDoc (step : Step) : Yaml :=
  let file :=
    match step.kind with
    | .audioPlay file => [("file", file)]
    | _ => []
  let fields := ("type", step.kind.name) :: (file ++
    (step.description.toList.map fun text => ("description", text)) ++
      step.id.toList.map fun text => ("id", text))
  .mapping (fields.foldr (fun field entries =>
    .cons (.string field.1.toList) (.string field.2.toList) entries) .nil)

/-- The text of a job. -/
def writeJob (job : List Step) : Option Str :=
  writeBlock (.sequence (.ofList (job.map stepDoc)))

/-- A document that a config can be read from. -/
def isConfigDoc (doc : Yaml) : Bool := doc == .null || doc.asMapping.isSome

/-- What of a config is looked at. A key that YAML reads as a number is a text to a config. -/
def readImported (doc : Yaml) : ImportedConfig where
  sharedKey :=
    match doc.get sharedKey with
    | some (.number text) => text
    | some v => v.asStr.getD "change-me".toList
    | none => "change-me".toList
  captureCmd := audioArgv doc captureCmd
  playbackCmd := audioArgv doc playbackCmd
  captureDevice := (audioValue doc "capture_device".toList).bind Yaml.asStr
  playbackDevice := (audioValue doc "playback_device".toList).bind Yaml.asStr
  pinsSocket := ["control_socket", "control_socket_group", "control_socket_mode"].any fun key =>
    (doc.get key.toList).isSome
  wsBind := (textAtKey "ws_bind" doc).getD defaultWsBind

/-- The formats of files in block style. -/
def blockFormats : ImportFormats where
  parseJob := readJob
  dumpJob job := (writeJob job).filter fun text => readJob text = some job
  parseConfig text := ((readBlock text).filter isConfigDoc).map fun doc =>
    (audioValue doc recordDir).bind Yaml.asStr
  parseYaml := readBlock
  dumpYaml doc := (writeBlock doc).filter fun text => readBlock text = some doc
  parseImported text := ((readBlock text).filter isConfigDoc).map readImported

theorem blockFormats_lawful : blockFormats.Lawful where
  job job text h := of_decide_eq_true (Option.filter_eq_some_iff.1 h).2
  yaml doc text h := of_decide_eq_true (Option.filter_eq_some_iff.1 h).2
  key text cfg doc k hcfg hdoc hkey := by
    obtain ⟨doc', hread, rfl⟩ := Option.map_eq_some_iff.1 hcfg
    obtain rfl := Option.some.inj (hdoc.symm.trans (Option.filter_eq_some_iff.1 hread).1)
    obtain ⟨v, hv, hstr⟩ := Option.bind_eq_some_iff.1 hkey
    simp only [readImported, hv]
    cases v with
    | number text => cases hstr
    | null | bool | string | sequence | mapping | tagged => simp [hstr]

end DialF.Bundle
