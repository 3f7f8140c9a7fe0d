import DialF.Bundle.Exported
import DialF.Bundle.Unpack

/-!
# What an export puts into an archive

The entries of the archive are the files of the folder at their paths, the files that have been
pulled in, and the config (`archived`). The config that is written reads back as the document that
was edited, in which each number is answered with the job that it had.
-/

set_option autoImplicit false

namespace DialF.Bundle

open DialF.Lib DialF.Jobs
open DialF.Daemon (isRelativePath)

/-! ## The config -/

/-- What is written reads back. -/
structure Formats.Lawful (fmt : Formats) : Prop where
  job : ∀ job text, fmt.dumpJob job = some text → fmt.parseJob text = some job
  yaml : ∀ doc text, fmt.dumpYaml doc = some text → fmt.parseYaml text = some doc

section Config

variable {P : Project} {fmt : Formats} {g g' : Gather} {doc doc' : Yaml} {edits : List (Str × Str)}

theorem answersOf_editRecordDir (doc : Yaml) :
    Project.answersOf (Project.editRecordDir doc).1 = Project.answersOf doc := by
  rw [Project.editRecordDir]
  split
  · rename_i audio s h
    split
    · obtain ⟨audio', haudio, -⟩ := Option.bind_eq_some_iff.1 h
      rw [Project.answersOf, Project.answersOf, Yaml.get_set (by rw [haudio]; rfl),
        if_neg (by decide)]
    · rfl
  · rfl

/-- The numbers of the edited document, and what they are answered with. -/
theorem answersOf_editAnswers (hg : g.Inv P fmt)
    (h : P.editAnswers fmt doc g = .ok (doc', edits, g')) :
    g.Keeps (fun name' => ∃ t, ¬ P.root <:+ t ∧ g'.pulled.lookup t = some name') g' ∧
      g'.Inv P fmt ∧ (Project.answersOf doc = none → Project.answersOf doc' = none) ∧
      ∀ entries, Project.answersOf doc = some entries → ∃ entries',
        Project.answersOf doc' = some entries' ∧
          List.Forall₂ (AnswerOk P fmt g') entries.toList entries'.toList := by
  rw [Project.editAnswers] at h
  split at h
  · rename_i hnone
    obtain ⟨rfl, hrest⟩ := Prod.mk.inj (Except.ok.inj h)
    obtain ⟨-, rfl⟩ := Prod.mk.inj hrest
    have hanswers : Project.answersOf doc = none := by
      rw [Project.answersOf]
      cases hget : doc.get Project.autoanswer with
      | none => rfl
      | some v => simpa [hget] using hnone
    exact ⟨Gather.Keeps.refl _ g, hg, fun h => h, by simp [hanswers]⟩
  · rename_i v entries hsome
    obtain ⟨v', hv', hmap⟩ := Option.bind_eq_some_iff.1 hsome
    obtain ⟨entries₀, hentries, heq⟩ := Option.map_eq_some_iff.1 hmap
    obtain ⟨rfl, rfl⟩ := Prod.mk.inj heq
    obtain ⟨r, hr, heq⟩ := exists_of_map_ok h
    obtain ⟨rfl, hrest⟩ := Prod.mk.inj heq
    obtain ⟨-, rfl⟩ := Prod.mk.inj hrest
    obtain ⟨hkeeps, hinv, hall, -⟩ := answered_of_answerEntries hg hr
    have hanswers : Project.answersOf doc = some entries₀ := by
      rw [Project.answersOf, hv', Option.bind_some, hentries]
    refine ⟨hkeeps, hinv, by simp [hanswers], ?_⟩
    intro entries hsame
    obtain rfl := Option.some.inj (hanswers.symm.trans hsame)
    refine ⟨r.1, ?_, hall⟩
    rw [Project.answersOf, Yaml.get_set (by rw [hv']; rfl), if_pos rfl, Option.bind_some,
      Yaml.asMapping_withEntries hentries]

end Config

/-! ## All that is gathered -/

/-- **What is gathered for the archive.** -/
structure Gather.Complete (P : Project) (fmt : Formats) (g : Gather) : Prop where
  named : ∀ name ∈ g.entries, ∃ parts, parts ≠ [] ∧ (∀ n ∈ parts, IsName n) ∧ name = zipName parts
  known : ∀ name ∈ g.entries, (∃ f ∈ P.files, name = zipName f) ∨
    (∃ target, g.pulled.lookup target = some name) ∨ name = configName
  shipped : ∀ f ∈ P.files, g.Sends P fmt (zipName f) (below P.root f)
  sent : ∀ target name, g.pulled.lookup target = some name → g.Sends P fmt name target.reverse
  outside : ∀ target name, g.pulled.lookup target = some name → ¬ P.root <:+ target
  place : ∀ target name, g.pulled.lookup target = some name → P.disk.IsPlace target
  under : ∀ target name, g.pulled.lookup target = some name →
    ∃ n, name = pulledName "samples".toList (target.head?.getD "file".toList) n ∨
      name = pulledName "scripts".toList (target.head?.getD "file".toList) n
  fresh : ∀ target name, g.pulled.lookup target = some name → ∀ f ∈ P.files, name ≠ zipName f
  unique : ∀ target target' name, g.pulled.lookup target = some name →
    g.pulled.lookup target' = some name → target = target'
  scripts : ∀ f ∈ P.files, isYaml f = true → g.ShipsScript P fmt f
  config : ∃ text doc doc', g.entries.lookup configName = some (.bytes (utf8 text)) ∧
    fmt.parseYaml P.configText = some doc ∧ fmt.parseYaml text = some doc' ∧
    (Project.answersOf doc = none → Project.answersOf doc' = none) ∧
    ∀ entries, Project.answersOf doc = some entries → ∃ entries',
      Project.answersOf doc' = some entries' ∧
        List.Forall₂ (AnswerOk P fmt g) entries.toList entries'.toList

section Complete

variable {P : Project} {fmt : Formats} {g : Gather}

theorem zipName_configName : zipName [configName] = configName := by
  simp [zipName, joinParts]

theorem configName_ne_zipName {f : List Name} (hf : f ∈ P.files) : configName ≠ zipName f := by
  intro heq
  rw [← zipName_configName] at heq
  have hf' := zipName_injective (by decide) (P.isName_of_mem hf) heq
  exact absurd hf'.symm (of_decide_eq_true (List.mem_filter.1 hf).2)

theorem Gather.config_ne {target : List Name} {name : Str} (g : Gather) (hg : g.Inv P fmt)
    (hpulled : g.pulled.lookup target = some name) : configName ≠ name := by
  have hplain : '/' ∉ configName := by decide
  rintro rfl
  obtain ⟨n, hname | hname⟩ := hg.under _ _ hpulled
  all_goals
    rw [hname, pulledName] at hplain
    exact hplain (List.mem_append_right _ List.mem_cons_self)

/-- The entry of the config is none of the jobs. -/
theorem Gather.AnsweredAs.insert_config {target : List Name} {name : Str} (hg : g.Inv P fmt)
    (h : g.AnsweredAs P fmt target name) (bytes : Bytes) :
    (g.insert configName (.bytes bytes)).AnsweredAs P fmt target name := by
  rcases h with hin | ⟨hout, hpulled, hjob, hships⟩
  · exact Or.inl hin
  · refine Or.inr ⟨hout, hpulled, hjob, fun zip hzip heq => ?_⟩
    refine Gather.Ships.mono (g.keeps_insert configName _) ?_ (hships zip hzip heq)
    intro hname
    exact g.config_ne hg hpulled (heq.trans hname).symm

/-- **All that is gathered** is there at the end of an export. -/
theorem complete_of_gather (hlaw : fmt.Lawful) (h : P.gather fmt = .ok g) : g.Complete P fmt := by
  rw [Project.gather] at h
  split at h
  · simp at h
  · rename_i g₁ hscripts
    obtain ⟨-, hinv₁, hships⟩ := ships_of_normalizeScripts P.files (P.inv_reserve fmt)
      (fun _ hf => hf) P.nodup_files (fun f hf => P.lookup_reserve hf) hscripts
    split at h
    · simp at h
    · rename_i doc hdoc
      split at h
      · simp at h
      · rename_i doc₂ edits g₂ hedit
        obtain ⟨hkeeps₂, hinv₂, hnone, hanswers⟩ := answersOf_editAnswers hinv₁ hedit
        simp only at h
        split at h
        · simp at h
        · rename_i text hrender
          obtain rfl := Except.ok.inj h
          have hkeeps := g₂.keeps_insert configName (.bytes (utf8 text))
          have hparse := parse_of_renderConfig hlaw.yaml hrender
          have hne : ∀ f ∈ P.files, ¬ zipName f = configName :=
            fun f hf heq => configName_ne_zipName hf heq.symm
          have hnotPulled : ∀ target name, g₂.pulled.lookup target = some name →
              ¬ name = configName :=
            fun target name hpulled heq => g₂.config_ne hinv₂ hpulled heq.symm
          -- the config is the one entry that is new, under a name that no file has
          constructor
          · intro name hname
            rcases (AList.mem_insert _).1 hname with rfl | hname
            · exact ⟨[configName], by simp, by decide, zipName_configName.symm⟩
            · exact hinv₂.named name hname
          · intro name hname
            rcases (AList.mem_insert _).1 hname with rfl | hname
            · exact Or.inr (Or.inr rfl)
            · exact (hinv₂.known name hname).imp_right Or.inl
          · exact fun f hf => hkeeps.sends (hne f hf) (hinv₂.shipped f hf)
          · exact fun target name hpulled =>
              hkeeps.sends (hnotPulled _ _ hpulled) (hinv₂.sent target name hpulled)
          · exact hinv₂.outside
          · exact hinv₂.place
          · exact hinv₂.under
          · exact hinv₂.fresh
          · exact hinv₂.unique
          -- the jobs of the numbers have changed entries from outside the folder only
          · intro f hf hyaml
            refine Gather.Ships.mono hkeeps (hne f hf)
              (Gather.Ships.mono hkeeps₂ ?_ (hships f hf hyaml))
            rintro ⟨t, -, hpulled⟩
            exact hinv₂.fresh t _ hpulled f hf rfl
          · refine ⟨text, doc, _, AList.lookup_insert _, hdoc, hparse, ?_, ?_⟩
            · intro h
              rw [answersOf_editRecordDir]
              exact hnone h
            · intro entries hentries
              obtain ⟨entries', hentries', hall⟩ := hanswers entries hentries
              refine ⟨entries', by rw [answersOf_editRecordDir]; exact hentries', ?_⟩
              exact hall.imp fun _ _ hok => hok.mono fun _ _ h => h.insert_config hinv₂ _

end Complete

/-! ## The archive -/

section Zip

variable {P : Project} {fmt : Formats} {g : Gather} {entries : List ZipEntry}

theorem forall₂_of_mapM {α β ε : Type} {f : α → Except ε β} {l : List α} {l' : List β}
    (h : l.mapM f = .ok l') : List.Forall₂ (fun a b => f a = .ok b) l l' := by
  induction l generalizing l' with
  | nil =>
      obtain rfl := Except.ok.inj h
      exact List.Forall₂.nil
  | cons a l ih =>
      rw [List.mapM_cons] at h
      cases ha : f a with
      | error e => simp [ha, bind, Except.bind] at h
      | ok b =>
          cases hl : l.mapM f with
          | error e => simp [ha, hl, bind, Except.bind] at h
          | ok bs =>
              simp only [ha, hl, bind, Except.bind, pure, Except.pure, Except.ok.injEq] at h
              rw [← h]
              exact List.Forall₂.cons ha (ih hl)

theorem exists_of_forall₂_right {α β : Type} {R : α → β → Prop} {l : List α} {l' : List β}
    (h : List.Forall₂ R l l') {b : β} (hb : b ∈ l') : ∃ a ∈ l, R a b := by
  induction h with
  | nil => exact absurd hb List.not_mem_nil
  | cons hstep _ ih =>
      rcases List.mem_cons.1 hb with rfl | hb
      · exact ⟨_, List.mem_cons_self, hstep⟩
      · obtain ⟨a, ha, hR⟩ := ih hb
        exact ⟨a, List.mem_cons_of_mem _ ha, hR⟩

/-- An entry with its content. -/
def Written (P : Project) (g : Gather) (e : ZipEntry) : Prop :=
  ∃ src bytes, g.entries.lookup e.name = some src ∧ P.content src = .ok bytes ∧
    e = ⟨e.name, false, false, bytes⟩

theorem written_of_zipEntries (h : P.zipEntries g.entries = .ok entries) :
    (∀ e ∈ entries, Written P g e) ∧ (entries.map (·.name)).Nodup ∧
      ∀ name ∈ g.entries, ∃ e ∈ entries, e.name = name := by
  have hall := forall₂_of_mapM h
  have hperm := List.perm_insertionSort (fun a b : (_ : Str) × Src => a.1 ≤ b.1) g.entries.entries
  generalize g.entries.entries.insertionSort (fun a b => a.1 ≤ b.1) = sorted at hall hperm
  have hnames : entries.map (·.name) = sorted.map (·.1) := by
    clear hperm h
    induction hall with
    | nil => rfl
    | cons hstep _ ih =>
        obtain ⟨bytes, -, rfl⟩ := exists_of_map_ok hstep
        rw [List.map_cons, List.map_cons, ih]
  refine ⟨?_, ?_, ?_⟩
  · intro e he
    obtain ⟨s, hs, hstep⟩ := exists_of_forall₂_right hall he
    obtain ⟨bytes, hbytes, rfl⟩ := exists_of_map_ok hstep
    exact ⟨s.2, bytes, AList.mem_lookup_iff.2 (hperm.mem_iff.1 hs), hbytes, rfl⟩
  · rw [hnames, (hperm.map _).nodup_iff]
    exact g.entries.nodupKeys
  · intro name hname
    have hkey : name ∈ sorted.map (·.1) := (hperm.map _).mem_iff.2 (AList.mem_keys.1 hname)
    rw [← hnames] at hkey
    exact List.mem_map.1 hkey

/-- **The archive of an export**, by what has been gathered. -/
theorem archive_of_zipEntries (hg : g.Complete P fmt) (h : P.zipEntries g.entries = .ok entries) :
    ∃ a : Archive, a.entries = entries ∧ ∀ path bytes, (path, bytes) ∈ a.files ↔
      (∀ n ∈ path, IsName n) ∧ ∃ src, g.entries.lookup (zipName path) = some src ∧
        P.content src = .ok bytes := by
  obtain ⟨hwritten, hnodup, hall⟩ := written_of_zipEntries h
  -- a name and its parts say the same, so that the paths are apart where the names are
  have hparts : ∀ e ∈ entries, pathParts e.name ≠ [] ∧ (∀ n ∈ pathParts e.name, IsName n) ∧
      zipName (pathParts e.name) = e.name := by
    intro e he
    obtain ⟨src, bytes, hsrc, -, -⟩ := hwritten e he
    obtain ⟨parts, hne, hnames, hname⟩ := hg.named e.name (by
      rw [← AList.lookup_isSome, hsrc]
      rfl)
    rw [hname, pathParts_zipName hnames]
    exact ⟨hne, hnames, rfl⟩
  have hmem : ∀ path bytes, (path, bytes) ∈ entries.map (fun e => (pathParts e.name, e.bytes)) ↔
      (∀ n ∈ path, IsName n) ∧ ∃ src, g.entries.lookup (zipName path) = some src ∧
        P.content src = .ok bytes := by
    intro path bytes
    rw [List.mem_map]
    constructor
    · rintro ⟨e, he, heq⟩
      obtain ⟨rfl, rfl⟩ := Prod.mk.inj heq
      obtain ⟨-, hnames, hname⟩ := hparts e he
      obtain ⟨src, bytes, hsrc, hcontent, heq⟩ := hwritten e he
      have hbytes : e.bytes = bytes := congrArg ZipEntry.bytes heq
      exact ⟨hnames, src, by rw [hname, hsrc], by rw [hbytes, hcontent]⟩
    · rintro ⟨hnames, src, hsrc, hcontent⟩
      obtain ⟨e, he, hname⟩ := hall (zipName path) (by
        rw [← AList.lookup_isSome, hsrc]
        rfl)
      obtain ⟨src', bytes', hsrc', hcontent', heq⟩ := hwritten e he
      rw [hname, hsrc] at hsrc'
      obtain rfl := Option.some.inj hsrc'
      obtain rfl := Except.ok.inj (hcontent.symm.trans hcontent')
      refine ⟨e, he, ?_⟩
      rw [hname, pathParts_zipName hnames, congrArg ZipEntry.bytes heq]
  refine ⟨⟨entries.map fun e => (pathParts e.name, e.bytes), ?_, ?_, ?_⟩, ?_, hmem⟩
  · intro f hf
    obtain ⟨e, he, rfl⟩ := List.mem_map.1 hf
    exact ⟨(hparts e he).1, (hparts e he).2.1⟩
  · rw [List.map_map]
    have hinj : ∀ e ∈ entries, ∀ e' ∈ entries, pathParts e.name = pathParts e'.name →
        e.name = e'.name := by
      intro e he e' he' heq
      rw [← (hparts e he).2.2, heq, (hparts e' he').2.2]
    exact (List.pairwise_map.1 hnodup).imp_of_mem (fun he he' hne heq => hne (hinj _ he _ he' heq))
      |> List.pairwise_map.2
  · obtain ⟨text, -, -, hconfig, -⟩ := hg.config
    refine ⟨utf8 text, (hmem _ _).2 ⟨by decide, .bytes (utf8 text), ?_, rfl⟩⟩
    rw [zipName_configName]
    exact hconfig
  · rw [Archive.entries, List.map_map]
    refine (List.map_congr_left fun e he => ?_).trans (List.map_id entries)
    obtain ⟨src, bytes, -, -, heq⟩ := hwritten e he
    show (⟨zipName (pathParts e.name), false, false, e.bytes⟩ : ZipEntry) = e
    rw [(hparts e he).2.2]
    rw [heq]

end Zip

end DialF.Bundle
