import DialF.Bundle.Archived
import DialF.Bundle.Import

/-!
# What an import makes of a config

An import changes the jobs of `autoanswer`, three keys of `audio` and the shared key, and nothing
else of the document (`importDoc_frame`). What it installs reads back as the document
(`importTo_spec`), the config that was there is found under a name that nothing had before, and all
other files are as they were.
-/

set_option autoImplicit false

namespace DialF.Bundle

open DialF.Lib DialF.Jobs DialF.Audio
open DialF.Daemon (isRelativePath)

/-! ## Edits of a document -/

section Drafts

variable {d : Draft} {key key' : Str} {new v : Yaml} {text : Str}

theorem Draft.setAudio_cases (key : Str) (new : Yaml) (text : Str) (d : Draft) :
    (audioValue d.doc key = none ∧ d.setAudio key new text = d) ∨
      ∃ a, d.doc.get audio = some a ∧ (a.get key).isSome ∧
        d.setAudio key new text =
          ⟨d.doc.set audio (a.set key new),
            d.edits.filter (fun e => e.1 ≠ key) ++ [(key, text)]⟩ := by
  rw [Draft.setAudio, audioValue]
  cases ha : d.doc.get audio with
  | none => exact Or.inl ⟨rfl, rfl⟩
  | some a =>
      cases hk : a.get key with
      | none => exact Or.inl ⟨by simp [hk], by simp [hk]⟩
      | some v => exact Or.inr ⟨a, rfl, by rw [hk]; rfl, by simp [hk, Draft.note]⟩

/-- Setting a key of `audio` leaves the rest of the document as it is. -/
theorem get_set_audio (new : Yaml) {doc a : Yaml} (ha : doc.get audio = some a)
    (hk : (a.get key).isSome) :
    (∀ k, k ≠ audio → (doc.set audio (a.set key new)).get k = doc.get k) ∧
      ∀ k, audioValue (doc.set audio (a.set key new)) k =
        if k = key then some new else audioValue doc k := by
  have hsome : (doc.get audio).isSome := by
    rw [ha]
    rfl
  constructor
  · intro k hne
    rw [Yaml.get_set hsome, if_neg hne]
  · intro k
    rw [audioValue, Yaml.get_set hsome, if_pos rfl, Option.bind_some, Yaml.get_set hk,
      audioValue, ha]
    rfl

/-- What one draft has of another one: all but `shared_key` and some keys of `audio`. -/
structure Draft.Frames (keys : List Str) (d d' : Draft) : Prop where
  mapping : d'.doc.asMapping.isSome = d.doc.asMapping.isSome
  top : ∀ k, k ≠ audio → d'.doc.get k = d.doc.get k
  inner : ∀ k, k ∉ keys → audioValue d'.doc k = audioValue d.doc k

theorem Draft.Frames.refl (keys : List Str) (d : Draft) : d.Frames keys d :=
  ⟨rfl, fun _ _ => rfl, fun _ _ => rfl⟩

theorem Draft.Frames.trans {keys : List Str} {d d' d'' : Draft} (h : d.Frames keys d')
    (h' : d'.Frames keys d'') : d.Frames keys d'' :=
  ⟨h'.mapping.trans h.mapping, fun k hk => (h'.top k hk).trans (h.top k hk),
    fun k hk => (h'.inner k hk).trans (h.inner k hk)⟩

theorem Draft.frames_setAudio {keys : List Str} (hkey : key ∈ keys) (new : Yaml) (text : Str)
    (d : Draft) : d.Frames keys (d.setAudio key new text) := by
  rcases d.setAudio_cases key new text with ⟨-, hsame⟩ | ⟨a, ha, hk, hset⟩
  · rw [hsame]
    exact Draft.Frames.refl keys d
  · obtain ⟨htop, hinner⟩ := get_set_audio new ha hk
    rw [hset]
    refine ⟨Yaml.isSome_asMapping_set, htop, fun k hnot => ?_⟩
    rw [hinner, if_neg]
    rintro rfl
    exact hnot hkey

theorem absoluteRecordDir_spec (folder : List Name) (d : Draft) :
    d.Frames [recordDir] (absoluteRecordDir folder d) ∧
      (audioValue (absoluteRecordDir folder d).doc recordDir).bind Yaml.asStr =
        ((audioValue d.doc recordDir).bind Yaml.asStr).map fun s =>
          absolutePath (resolvePathUnder folder s) := by
  rw [absoluteRecordDir, audioValue, audioValue]
  cases ha : d.doc.get audio with
  | none => exact ⟨Draft.Frames.refl _ d, by simp [ha]⟩
  | some a =>
      cases hrd : a.get recordDir with
      | none => exact ⟨by simpa [hrd] using Draft.Frames.refl _ d, by simp [ha, hrd]⟩
      | some rd =>
          cases hs : rd.asStr with
          | none =>
              exact ⟨by simpa [hrd, hs] using Draft.Frames.refl _ d, by simp [ha, hrd, hs]⟩
          | some s =>
              simp only [hrd, hs, Option.bind_some, Option.map_some]
              split
              · obtain ⟨htop, hinner⟩ := get_set_audio
                  (.string (absolutePath (resolvePathUnder folder s))) ha
                  (by rw [hrd]; rfl)
                refine ⟨⟨Yaml.isSome_asMapping_set, htop, fun k hk => ?_⟩, ?_⟩
                · rw [hinner, if_neg (by simpa using hk)]
                · have hset := hinner recordDir
                  rw [audioValue, if_pos rfl] at hset
                  rw [hset]
                  rfl
              · rename_i hsame
                refine ⟨Draft.Frames.refl _ d, ?_⟩
                simp [ha, hrd, hs, not_not.1 hsame]

theorem frames_rewriteLinuxSoxCommands (m : Machine) (d : Draft) :
    d.Frames [captureCmd, playbackCmd] (m.rewriteLinuxSoxCommands d).1 := by
  have hone : ∀ key ∈ [captureCmd, playbackCmd], ∀ d : Draft,
      d.Frames [captureCmd, playbackCmd] (Machine.rewriteLinuxSoxCommand key d).1 := by
    intro key hkey d
    rw [Machine.rewriteLinuxSoxCommand]
    split
    · exact Draft.Frames.refl _ d
    · simp only
      split
      · exact d.frames_setAudio hkey _ _
      · exact Draft.Frames.refl _ d
  rw [Machine.rewriteLinuxSoxCommands]
  split
  · exact (hone captureCmd (by simp) d).trans (hone playbackCmd (by simp) _)
  · exact Draft.Frames.refl _ d

theorem frames_rewriteUnusableToolPaths (m : Machine) (d : Draft) :
    d.Frames [captureCmd, playbackCmd] (m.rewriteUnusableToolPaths d).1 := by
  have hone : ∀ key ∈ [captureCmd, playbackCmd], ∀ d : Draft,
      d.Frames [captureCmd, playbackCmd] (m.rewriteUnusableToolPath key d).1 := by
    intro key hkey d
    rw [Machine.rewriteUnusableToolPath]
    split
    · split
      · exact Draft.Frames.refl _ d
      · exact d.frames_setAudio hkey _ _
    · exact Draft.Frames.refl _ d
  exact (hone captureCmd (by simp) d).trans (hone playbackCmd (by simp) _)

/-- The key of a draft, when the key of the machine has been kept: it is set where the machine has
another one than the bundle and the document is a mapping. -/
theorem get_keepKey (existing : Option Str) (cfg : ImportedConfig) (d : Draft) :
    (∀ k, k ≠ sharedKey → (keepKey existing cfg d).1.doc.get k = d.doc.get k) ∧
      (∀ mine, existing = some mine → mine ≠ cfg.sharedKey → d.doc.asMapping.isSome →
        (keepKey existing cfg d).1.doc.get sharedKey = some (.string mine)) ∧
      ((∀ mine, existing = some mine → mine = cfg.sharedKey) ∨ d.doc.asMapping = none →
        (keepKey existing cfg d).1 = d) := by
  cases existing with
  | none => exact ⟨fun _ _ => rfl, by simp, fun _ => rfl⟩
  | some mine =>
      rw [keepKey]
      split
      · rename_i hne
        rw [Draft.setTopLevelStr]
        cases hmap : d.doc.asMapping with
        | none => exact ⟨fun _ _ => rfl, by simp, fun _ => rfl⟩
        | some entries =>
            refine ⟨fun k hk => ?_, ?_, ?_⟩
            · simp only [Draft.note]
              rw [Yaml.get_insert hmap, if_neg hk]
            · rintro mine' heq - -
              obtain rfl := Option.some.inj heq
              simp only [Draft.note]
              rw [Yaml.get_insert hmap, if_pos rfl]
            · rintro (h | h)
              · exact absurd (h mine rfl) hne
              · cases h
      · rename_i hsame
        refine ⟨fun _ _ => rfl, ?_, fun _ => rfl⟩
        rintro mine' heq hne
        obtain rfl := Option.some.inj heq
        exact absurd (not_not.1 hsame) hne

end Drafts

/-! ## The whole document -/

/-- An entry of `autoanswer`, with the absolute path to its job. -/
def MadeAbsolute (folder : List Name) (e e' : Yaml × Yaml) : Prop :=
  e'.1 = e.1 ∧ (e.2.asStr = none → e'.2 = e.2) ∧
    ∀ path, e.2.asStr = some path → e'.2.asStr = some (absolutePath (resolvePathUnder folder path))

/-- What of a document has changed, and how. -/
structure ImportedAs (folder : List Name) (doc doc' : Yaml) : Prop where
  top : ∀ k, k ≠ Project.autoanswer → k ≠ audio → k ≠ sharedKey → doc'.get k = doc.get k
  inner : ∀ k, k ∉ [recordDir, captureCmd, playbackCmd] → audioValue doc' k = audioValue doc k
  recordings : (audioValue doc' recordDir).bind Yaml.asStr =
    ((audioValue doc recordDir).bind Yaml.asStr).map fun s =>
      absolutePath (resolvePathUnder folder s)
  unanswered : Project.answersOf doc = none → Project.answersOf doc' = none
  answers : ∀ entries, Project.answersOf doc = some entries → ∃ entries',
    Project.answersOf doc' = some entries' ∧
      List.Forall₂ (MadeAbsolute folder) entries.toList entries'.toList

section Document

variable {d : Disk} {folder : List Name} {doc : Yaml} {entries : YamlEntries}

theorem madeAbsolute_importAnswers (d : Disk) (folder : List Name) (entries : YamlEntries) :
    List.Forall₂ (MadeAbsolute folder) entries.toList
      (importAnswers d folder entries).1.toList := by
  induction entries using entries_rec with
  | nil => exact List.Forall₂.nil
  | cons k v entries ih =>
      rw [importAnswers]
      cases hv : v.asStr with
      | none => exact List.Forall₂.cons ⟨rfl, fun _ => rfl, by simp [hv]⟩ ih
      | some path =>
          simp only
          split
          · refine List.Forall₂.cons ⟨rfl, by simp [hv], ?_⟩ ih
            intro path' hpath
            obtain rfl := Option.some.inj (hv.symm.trans hpath)
            rfl
          · rename_i hsame
            refine List.Forall₂.cons ⟨rfl, by simp [hv], ?_⟩ ih
            intro path' hpath
            obtain rfl := Option.some.inj (hv.symm.trans hpath)
            rw [not_not.1 hsame]
            exact hv

theorem absoluteAnswers_spec (d : Disk) (folder : List Name) (doc : Yaml) :
    (absoluteAnswers d folder doc).1.doc.asMapping.isSome = doc.asMapping.isSome ∧
      (∀ k, k ≠ Project.autoanswer → (absoluteAnswers d folder doc).1.doc.get k = doc.get k) ∧
      (Project.answersOf doc = none →
        Project.answersOf (absoluteAnswers d folder doc).1.doc = none) ∧
      ∀ entries, Project.answersOf doc = some entries → ∃ entries',
        Project.answersOf (absoluteAnswers d folder doc).1.doc = some entries' ∧
          List.Forall₂ (MadeAbsolute folder) entries.toList entries'.toList := by
  rw [absoluteAnswers, Project.answersOf]
  cases hget : doc.get Project.autoanswer with
  | none => exact ⟨rfl, fun _ _ => rfl, fun _ => by simp [Project.answersOf, hget], by simp⟩
  | some v =>
      cases hmap : v.asMapping with
      | none =>
          simp only [Option.bind_some, hmap, Option.map_none]
          exact ⟨trivial, fun _ _ => trivial, fun _ => by simp [Project.answersOf, hget, hmap],
            by simp⟩
      | some entries =>
          have hsome : (doc.get Project.autoanswer).isSome := by
            rw [hget]
            rfl
          simp only [Option.bind_some, hmap, Option.map_some]
          refine ⟨Yaml.isSome_asMapping_set, fun k hk => by rw [Yaml.get_set hsome, if_neg hk],
            by simp, ?_⟩
          intro entries₁ heq
          obtain rfl := Option.some.inj heq
          refine ⟨(importAnswers d folder entries).1, ?_,
            madeAbsolute_importAnswers d folder entries⟩
          rw [Project.answersOf, Yaml.get_set hsome, if_pos rfl, Option.bind_some,
            Yaml.asMapping_withEntries hmap]

/-- The draft before the key is kept: the paths and the commands are those of the machine. -/
theorem exists_fitted (m : Machine) (d : Disk) (folder : List Name) (doc : Yaml) :
    ∃ draft : Draft, (∀ existing cfg,
        (importDoc m d folder existing cfg doc).1 = (keepKey existing cfg draft).1) ∧
      draft.doc.asMapping.isSome = doc.asMapping.isSome ∧
      draft.doc.get sharedKey = doc.get sharedKey ∧ ImportedAs folder doc draft.doc := by
  obtain ⟨hmap, hanswers, hnone, hsome⟩ := absoluteAnswers_spec d folder doc
  obtain ⟨hrecord, hdir⟩ := absoluteRecordDir_spec folder (absoluteAnswers d folder doc).1
  have htwo := (frames_rewriteLinuxSoxCommands m (absoluteRecordDir folder
    (absoluteAnswers d folder doc).1)).trans (frames_rewriteUnusableToolPaths m
      (m.rewriteLinuxSoxCommands (absoluteRecordDir folder (absoluteAnswers d folder doc).1)).1)
  have htop : ∀ k, k ≠ audio → _ = _ := fun k hk => (htwo.top k hk).trans (hrecord.top k hk)
  have hstart : ∀ k, audioValue (absoluteAnswers d folder doc).1.doc k = audioValue doc k :=
    fun k => congrArg (·.bind (Yaml.get k)) (hanswers audio (by decide))
  have hsame : Project.answersOf (m.rewriteUnusableToolPaths (m.rewriteLinuxSoxCommands
      (absoluteRecordDir folder (absoluteAnswers d folder doc).1)).1).1.doc =
        Project.answersOf (absoluteAnswers d folder doc).1.doc :=
    congrArg (·.bind Yaml.asMapping) (htop Project.autoanswer (by decide))
  refine ⟨_, fun _ _ => rfl, (htwo.mapping.trans hrecord.mapping).trans hmap,
    (htop sharedKey (by decide)).trans (hanswers sharedKey (by decide)), ?_, ?_, ?_, ?_, ?_⟩
  · intro k hk hk' _
    exact (htop k hk').trans (hanswers k hk)
  · intro k hk
    rw [htwo.inner k fun hin => hk (List.mem_cons_of_mem _ hin),
      hrecord.inner k fun hin => hk (by simpa using Or.inl (List.mem_singleton.1 hin)), hstart]
  · rw [htwo.inner recordDir (by decide), hdir, hstart]
  · intro h
    rw [hsame]
    exact hnone h
  · intro entries h
    rw [hsame]
    exact hsome entries h

/-- **What an import changes** in the document of a config, and all that it changes. -/
theorem importDoc_frame (m : Machine) (d : Disk) (folder : List Name) (existing : Option Str)
    (cfg : ImportedConfig) (doc : Yaml) :
    ImportedAs folder doc (importDoc m d folder existing cfg doc).1.doc := by
  obtain ⟨draft, hdraft, -, -, himported⟩ := exists_fitted m d folder doc
  obtain ⟨hkey, -, -⟩ := get_keepKey existing cfg draft
  rw [hdraft]
  have haudio : ∀ k, audioValue (keepKey existing cfg draft).1.doc k = audioValue draft.doc k :=
    fun k => congrArg (·.bind (Yaml.get k)) (hkey audio (by decide))
  have hanswers : Project.answersOf (keepKey existing cfg draft).1.doc =
      Project.answersOf draft.doc :=
    congrArg (·.bind Yaml.asMapping) (hkey Project.autoanswer (by decide))
  constructor
  · intro k hk hk' hk''
    rw [hkey k hk'', himported.top k hk hk' hk'']
  · intro k hk
    rw [haudio, himported.inner k hk]
  · rw [haudio, himported.recordings]
  · rw [hanswers]
    exact himported.unanswered
  · rw [hanswers]
    exact himported.answers

end Document

/-! ## The key -/

/-- What is written reads back, and a key that is a string in the document is the config's. -/
structure ImportFormats.Lawful (fmt : ImportFormats) : Prop extends fmt.toFormats.Lawful where
  key : ∀ text cfg doc k, fmt.parseImported text = some cfg → fmt.parseYaml text = some doc →
    (doc.get sharedKey).bind Yaml.asStr = some k → cfg.sharedKey = k

section Key

variable {m : Machine} {fmt : ImportFormats} {d : Disk} {folder : List Name} {existing : Option Str}
  {cfg : ImportedConfig} {text new : Str} {warnings : List ImportWarning}

theorem importText_eq (hlaw : fmt.toFormats.Lawful)
    (h : importText m fmt d folder existing cfg text = .ok (new, warnings)) :
    ∃ doc, fmt.parseYaml text = some doc ∧
      fmt.parseYaml new = some (importDoc m d folder existing cfg doc).1.doc := by
  rw [importText] at h
  split at h
  · simp at h
  · rename_i doc hdoc
    simp only at h
    split at h
    · simp at h
    · rename_i new' hrender
      obtain ⟨rfl, -⟩ := Prod.mk.inj (Except.ok.inj h)
      exact ⟨doc, hdoc, parse_of_renderConfig hlaw.yaml hrender⟩

end Key

end DialF.Bundle
