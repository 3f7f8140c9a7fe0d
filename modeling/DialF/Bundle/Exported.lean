import DialF.Bundle.Pulled

/-!
# What an export makes of jobs

A reference of a job stays as it is, or it becomes the way from the job's place in the archive to
the entry of what it refers to (`Led`). The job in the archive has the same steps but for their
references, for the scripts of the folder (`ships_of_normalizeScripts`) and for the jobs from
outside it that numbers are answered with (`answered_of_answerEntries`).
-/

set_option autoImplicit false

namespace DialF.Bundle

open DialF.Lib DialF.Jobs
open DialF.Daemon (isRelativePath)

/-! ## The steps of a job -/

/-- The same step, but for the file that it plays. -/
def Follows (R : String → String → Prop) (step step' : Step) : Prop :=
  match step.kind with
  | .audioPlay file => ∃ file', step' = { step with kind := .audioPlay file' } ∧ R file file'
  | _ => step' = step

theorem Follows.mono {R R' : String → String → Prop}
    (h : ∀ file file', R file file' → R' file file') {step step' : Step} (hf : Follows R step step') :
    Follows R' step step' := by
  rw [Follows] at *
  split at hf
  · obtain ⟨file', heq, hR⟩ := hf
    exact ⟨file', heq, h _ _ hR⟩
  · exact hf

section Steps

variable {P : Project} {fmt : Formats} {R : Gather → String → String → Prop}
  {ref : String → Gather → Option Str × Gather}

/-- A reference with what it becomes. -/
structure RefOk (P : Project) (fmt : Formats) (R : Gather → String → String → Prop)
    (ref : String → Gather → Option Str × Gather) : Prop where
  mono : ∀ g g' file file', g.Keeps (fun _ => False) g' → R g file file' → R g' file file'
  keeps : ∀ file g, g.Inv P fmt → g.Keeps (fun _ => False) (ref file g).2 ∧ (ref file g).2.Inv P fmt
  leads : ∀ file g, g.Inv P fmt →
    R (ref file g).2 file (((ref file g).1.map String.ofList).getD file)

/-- **The steps of a job**, one reference after the other. -/
theorem rewriteSteps_spec (h : RefOk P fmt R ref) (job : List Step) (g : Gather)
    (hg : g.Inv P fmt) :
    g.Keeps (fun _ => False) (rewriteSteps ref job g).2 ∧ (rewriteSteps ref job g).2.Inv P fmt ∧
      List.Forall₂ (Follows (R (rewriteSteps ref job g).2)) job (rewriteSteps ref job g).1.1 ∧
      ((rewriteSteps ref job g).1.2 = false → (rewriteSteps ref job g).1.1 = job) := by
  induction job generalizing g with
  | nil => exact ⟨Gather.Keeps.refl _ g, hg, List.Forall₂.nil, fun _ => rfl⟩
  | cons step job ih =>
      -- a step that stays, after what its reference has gathered
      have hplain : ∀ g' : Gather, g'.Inv P fmt → g.Keeps (fun _ => False) g' →
          (∀ g'' : Gather, g'.Keeps (fun _ => False) g'' → Follows (R g'') step step) →
          g.Keeps (fun _ => False) (rewriteSteps ref job g').2 ∧
            (rewriteSteps ref job g').2.Inv P fmt ∧
            List.Forall₂ (Follows (R (rewriteSteps ref job g').2)) (step :: job)
              (step :: (rewriteSteps ref job g').1.1) ∧
            ((rewriteSteps ref job g').1.2 = false →
              step :: (rewriteSteps ref job g').1.1 = step :: job) := by
        intro g' hg' hkeep hstep
        obtain ⟨hkeeps, hinv, hall, hsame⟩ := ih g' hg'
        exact ⟨hkeep.trans hkeeps, hinv, List.Forall₂.cons (hstep _ hkeeps) hall,
          fun hfalse => by rw [hsame hfalse]⟩
      rw [rewriteSteps]
      split
      · rename_i file hkind
        obtain ⟨hkeep, hinv⟩ := h.keeps file g hg
        have hleads := h.leads file g hg
        cases href : ref file g with
        | mk new g' =>
            rw [href] at hkeep hinv hleads
            cases new with
            | none =>
                apply hplain g' hinv hkeep
                intro g'' hk
                rw [Follows, hkind]
                exact ⟨file, by rw [← hkind], h.mono _ _ _ _ hk hleads⟩
            | some new =>
                obtain ⟨hkeeps, hinv', hall, -⟩ := ih g' hinv
                refine ⟨hkeep.trans hkeeps, hinv', List.Forall₂.cons ?_ hall, fun hfalse => ?_⟩
                · rw [Follows, hkind]
                  exact ⟨_, rfl, h.mono _ _ _ _ hkeeps hleads⟩
                · exact absurd hfalse (by simp)
      · rename_i hkind
        apply hplain g hg (Gather.Keeps.refl _ g)
        intro g'' _
        rw [Follows]
        split
        · rename_i file hplay
          exact absurd hplay (hkind file)
        · rfl

/-- Whether a job is rewritten depends on its references, where each of these is so on its own. -/
theorem rewriteSteps_rewritten {p : String → Bool} (h : ∀ file g, (ref file g).1.isSome = p file)
    (job : List Step) (g : Gather) : (rewriteSteps ref job g).1.2 = playsSome p job := by
  induction job generalizing g with
  | nil => rfl
  | cons step job ih =>
      rw [rewriteSteps, playsSome, List.any_cons]
      split
      · rename_i file hkind
        have hstep : playsFile p step = (ref file g).1.isSome := by
          rw [playsFile, hkind, h file g]
        rw [hstep]
        cases href : ref file g with
        | mk new g' =>
            cases new with
            | none => exact ih g'
            | some new => rfl
      · rename_i hkind
        have hstep : playsFile p step = false := by
          rw [playsFile]
          split
          · rename_i file hplay
            exact absurd hplay (hkind file)
          · rfl
        rw [hstep, Bool.false_or]
        exact ih g

end Steps

/-! ## References -/

/-- What a reference in a file of the directory `dir` becomes in an entry of the directory `zipDir`:
it may stay, where that is left to it; or it is the way to the entry of its target. -/
inductive Led (P : Project) (g : Gather) (stays : String → Prop) (dir zipDir : List Name)
    (file : String) : String → Prop where
  | stays : stays file → Led P g stays dir zipDir file file
  | inside (target : List Name) : ¬ stays file → P.resolve dir file.toList = some target →
      P.root <:+ target → Led P g stays dir zipDir file
        (String.ofList (relativeZipPath (zipName zipDir) (zipName (relOf P.root target))))
  | outside (target : List Name) (name : Str) : ¬ stays file →
      P.resolve dir file.toList = some target → ¬ P.root <:+ target →
      g.pulled.lookup target = some name →
      Led P g stays dir zipDir file (String.ofList (relativeZipPath (zipName zipDir) name))

/-- The reference of a script stays if it leads nowhere, or to what is left out of the bundle, or is
relative and stays in the folder. -/
def Project.staysInScript (P : Project) (dir : List Name) (file : String) : Prop :=
  ∀ target, P.resolve dir file.toList = some target → P.root <:+ target ∧
    (P.isLeftOut target = true ∨ isRelativePath file.toList = true)

/-- That of a job from outside the folder stays if it leads nowhere. -/
def Project.staysInJob (P : Project) (dir : List Name) (file : String) : Prop :=
  P.resolve dir file.toList = none

section Refs

variable {P : Project} {fmt : Formats} {g g' : Gather} {stays : String → Prop}
  {dir zipDir : List Name} {file file' : String}

theorem Led.mono {but : Str → Prop} (hkeeps : g.Keeps but g')
    (h : Led P g stays dir zipDir file file') : Led P g' stays dir zipDir file file' := by
  cases h with
  | stays h => exact .stays h
  | inside target hnot hres hin => exact .inside target hnot hres hin
  | outside target name hnot hres hout hpulled =>
      exact .outside target name hnot hres hout (hkeeps.pulled _ _ hpulled)

theorem Project.isPlace_of_resolve {P : Project} {dir target : List Name} {file : Str}
    (h : P.resolve dir file = some target) : P.disk.IsPlace target :=
  Disk.canonicalize_sound h

/-- **The references of a script.** -/
theorem refOk_scriptRef {script : List Name} (hscript : ∀ n ∈ script, IsName n) :
    RefOk P fmt (fun g => Led P g (P.staysInScript (below P.root script.dropLast))
      (below P.root script.dropLast) script.dropLast) (P.scriptRef script) := by
  have hparent : parentOfZipName (zipName script) = zipName script.dropLast :=
    parentOfZipName_zipName hscript
  refine ⟨fun g g' file file' hk h => h.mono hk, ?_, ?_⟩
  · intro file g hg
    rw [Project.scriptRef]
    split
    · exact ⟨(Gather.Keeps.refl _ g).warn _, hg.warn _⟩
    · rename_i target hres
      split
      · split
        · exact ⟨(Gather.Keeps.refl _ g).warn _, hg.warn _⟩
        · split
          · exact ⟨Gather.Keeps.refl _ g, hg⟩
          · exact ⟨Gather.Keeps.refl _ g, hg⟩
      · rename_i hout
        obtain ⟨hkeeps, hinv, -⟩ := pullExternal_spec (hg.warn (.pulledSample script target)) hout
          (P.isPlace_of_resolve hres) (Or.inl rfl)
        exact ⟨((Gather.Keeps.refl _ g).warn _).trans hkeeps, hinv⟩
  -- a reference stays if it leads nowhere, to a file left out, or inside by a relative path
  · intro file g hg
    rw [Project.scriptRef]
    split
    · rename_i hnone
      apply Led.stays
      intro target hres
      exact absurd (hnone.symm.trans hres) (by simp)
    · rename_i target hres
      split
      · rename_i hin
        split
        · rename_i hleft
          apply Led.stays
          intro target' hres'
          obtain rfl := Option.some.inj (hres.symm.trans hres')
          exact ⟨hin, Or.inl hleft⟩
        · rename_i hleft
          split
          · rename_i hrel
            apply Led.stays
            intro target' hres'
            obtain rfl := Option.some.inj (hres.symm.trans hres')
            exact ⟨hin, Or.inr hrel⟩
          · rename_i hrel
            rw [hparent]
            apply Led.inside target _ hres hin
            intro hstays
            rcases (hstays target hres).2 with h | h
            · exact hleft h
            · exact hrel h
      · rename_i hout
        obtain ⟨-, -, hpulled⟩ := pullExternal_spec (hg.warn (.pulledSample script target)) hout
          (P.isPlace_of_resolve hres) (Or.inl rfl)
        rw [hparent]
        apply Led.outside target _ _ hres hout hpulled
        intro hstays
        exact hout (hstays target hres).1

/-- **The references of a job** from outside the folder, at a name of the archive. -/
theorem refOk_jobRef (job : List Name) {zip : List Name} (hzip : ∀ n ∈ zip, IsName n) :
    RefOk P fmt (fun g => Led P g (P.staysInJob job.tail.reverse) job.tail.reverse zip.dropLast)
      (P.jobRef job (zipName zip)) := by
  have hparent : parentOfZipName (zipName zip) = zipName zip.dropLast :=
    parentOfZipName_zipName hzip
  refine ⟨fun g g' file file' hk h => h.mono hk, ?_, ?_⟩
  · intro file g hg
    rw [Project.jobRef]
    split
    · exact ⟨Gather.Keeps.refl _ g, hg⟩
    · rename_i target hres
      split
      · exact ⟨Gather.Keeps.refl _ g, hg⟩
      · rename_i hout
        obtain ⟨hkeeps, hinv, -⟩ :=
          pullExternal_spec hg hout (P.isPlace_of_resolve hres) (Or.inl rfl)
        exact ⟨hkeeps, hinv⟩
  · intro file g hg
    rw [Project.jobRef]
    split
    · rename_i hnone
      exact Led.stays hnone
    · rename_i target hres
      have hnot : ¬ P.staysInJob job.tail.reverse file := by
        intro hstays
        exact absurd (hres.symm.trans hstays) (by simp)
      split
      · rename_i hin
        rw [hparent]
        exact Led.inside target hnot hres hin
      · rename_i hout
        obtain ⟨-, -, hpulled⟩ := pullExternal_spec hg hout (P.isPlace_of_resolve hres) (Or.inl rfl)
        rw [hparent]
        exact Led.outside target _ hnot hres hout hpulled

end Refs

/-! ## The jobs in the archive -/

/-- The entry `zip` is the job of the file at `path`, with the same steps but for their references;
where none has changed, it is the file itself. -/
def Gather.Ships (P : Project) (fmt : Formats) (g : Gather) (stays : String → Prop)
    (path zip : List Name) : Prop :=
  ∀ text job, P.disk.readToString (path.map .into) = some text → fmt.parseJob text = some job →
    ∃ job', List.Forall₂ (Follows (Led P g stays path.dropLast zip.dropLast)) job job' ∧
      ((g.entries.lookup (zipName zip) = some (.file path) ∧ job' = job) ∨
        ∃ text', fmt.dumpJob job' = some text' ∧
          g.entries.lookup (zipName zip) = some (.bytes (utf8 text')))

/-- A script in the archive. -/
def Gather.ShipsScript (P : Project) (fmt : Formats) (g : Gather) (script : List Name) : Prop :=
  g.Ships P fmt (P.staysInScript (below P.root script.dropLast)) (below P.root script) script

section Ships

variable {P : Project} {fmt : Formats} {g g' : Gather} {stays : String → Prop}
  {path zip script : List Name} {but : Str → Prop}

theorem Gather.Ships.mono (hkeeps : g.Keeps but g') (hbut : ¬ but (zipName zip))
    (h : g.Ships P fmt stays path zip) : g'.Ships P fmt stays path zip := by
  intro text job htext hjob
  obtain ⟨job', hall, hentry⟩ := h text job htext hjob
  refine ⟨job', hall.imp fun _ _ hf => hf.mono fun _ _ hled => hled.mono hkeeps, ?_⟩
  rcases hentry with ⟨hfile, heq⟩ | ⟨text', hdump, hbytes⟩
  · exact Or.inl ⟨hkeeps.entries _ _ hbut hfile, heq⟩
  · exact Or.inr ⟨text', hdump, hkeeps.entries _ _ hbut hbytes⟩

theorem below_dropLast (root : List Name) (hne : script ≠ []) :
    (below root script).dropLast = below root script.dropLast :=
  List.dropLast_append_of_ne_nil hne

/-- One script: what is gathered, and the script in the archive. -/
theorem ships_of_normalizeScript (hg : g.Inv P fmt) (hscript : script ∈ P.files)
    (hfile : g.entries.lookup (zipName script) = some (.file (below P.root script)))
    {new : Option (List Step)} (h : P.normalizeScript fmt script g = .ok (new, g')) :
    g.Keeps (fun _ => False) g' ∧ g'.Inv P fmt ∧
      (new = none → g'.ShipsScript P fmt script) ∧
      ∀ job, new = some job → P.IsJob fmt (below P.root script) ∧
        ∀ text w, fmt.dumpJob job = some text →
          ((g'.warn w).insert (zipName script) (.bytes (utf8 text))).ShipsScript P fmt script := by
  obtain ⟨-, -, -, -, hne, hnames⟩ := P.file_of_mem hscript
  rw [Project.normalizeScript] at h
  split at h
  · simp at h
  · rename_i text htext
    split at h
    · rename_i hnot
      obtain ⟨rfl, rfl⟩ := Prod.mk.inj (Except.ok.inj h)
      refine ⟨Gather.Keeps.refl _ g, hg, fun _ => ?_, by simp⟩
      intro text' job htext' hjob
      obtain rfl := Option.some.inj (htext.symm.trans htext')
      exact absurd (hnot.symm.trans hjob) (by simp)
    · rename_i job hjob
      obtain ⟨hkeeps, hinv, hall, hsame⟩ := rewriteSteps_spec (refOk_scriptRef hnames) job g hg
      obtain ⟨hnew, rfl⟩ := Prod.mk.inj (Except.ok.inj h)
      refine ⟨hkeeps, hinv, ?_, ?_⟩
      -- no reference is new: the file itself is in the archive
      · rintro rfl
        have hfalse : (rewriteSteps (P.scriptRef script) job g).1.2 = false := by
          by_contra htrue
          rw [if_pos (eq_true_of_ne_false htrue)] at hnew
          exact absurd hnew (by simp)
        intro text' job' htext' hjob'
        obtain rfl := Option.some.inj (htext.symm.trans htext')
        obtain rfl := Option.some.inj (hjob.symm.trans hjob')
        rw [below_dropLast _ hne]
        exact ⟨_, hall, Or.inl ⟨hkeeps.entries _ _ not_false hfile, hsame hfalse⟩⟩
      -- the text of the new job takes the place of the file
      · rintro job' rfl
        have hdone : (rewriteSteps (P.scriptRef script) job g).1.1 = job' := by
          split at hnew
          · exact Option.some.inj hnew
          · simp at hnew
        refine ⟨⟨text, job, htext, hjob⟩, ?_⟩
        intro text' w hdump text'' job'' htext'' hjob''
        obtain rfl := Option.some.inj (htext.symm.trans htext'')
        obtain rfl := Option.some.inj (hjob.symm.trans hjob'')
        rw [hdone] at hall
        rw [below_dropLast _ hne]
        exact ⟨job', hall.imp fun _ _ hf => hf.mono fun _ _ hled =>
            hled.mono (((Gather.Keeps.refl _ _).warn w).trans (Gather.keeps_insert _ _ _)),
          Or.inr ⟨text', hdump, AList.lookup_insert _⟩⟩

/-- **The scripts of the folder** are all in the archive. -/
theorem ships_of_normalizeScripts (scripts : List (List Name)) (hg : g.Inv P fmt)
    (hsub : ∀ f ∈ scripts, f ∈ P.files) (hnodup : scripts.Nodup)
    (hfile : ∀ f ∈ scripts, g.entries.lookup (zipName f) = some (.file (below P.root f)))
    (h : P.normalizeScripts fmt scripts g = .ok g') :
    g.Keeps (fun name => ∃ f ∈ scripts, name = zipName f) g' ∧ g'.Inv P fmt ∧
      ∀ f ∈ scripts, isYaml f = true → g'.ShipsScript P fmt f := by
  induction scripts generalizing g with
  | nil =>
      obtain rfl := Except.ok.inj h
      exact ⟨Gather.Keeps.refl _ g, hg, by simp⟩
  | cons script scripts ih =>
      have hscript := hsub script List.mem_cons_self
      obtain ⟨hnotin, hnodup⟩ := List.nodup_cons.1 hnodup
      have hrest : ∀ f ∈ scripts, f ∈ P.files := fun f hf => hsub f (List.mem_cons_of_mem _ hf)
      -- the names of the other scripts are other names
      have hother : ∀ f ∈ scripts, zipName f ≠ zipName script := by
        rintro f hf heq
        exact hnotin (P.zipName_inj (hrest f hf) hscript heq ▸ hf)
      have hmore : ∀ name, (∃ f ∈ scripts, name = zipName f) →
          ∃ f ∈ script :: scripts, name = zipName f :=
        fun name ⟨f, hf, heq⟩ => ⟨f, List.mem_cons_of_mem _ hf, heq⟩
      -- what is left of the work when this script is done
      have hstep : ∀ g₁ : Gather, g.Keeps (· = zipName script) g₁ → g₁.Inv P fmt →
          (isYaml script = true → g₁.ShipsScript P fmt script) →
          P.normalizeScripts fmt scripts g₁ = .ok g' →
          g.Keeps (fun name => ∃ f ∈ script :: scripts, name = zipName f) g' ∧ g'.Inv P fmt ∧
            ∀ f ∈ script :: scripts, isYaml f = true → g'.ShipsScript P fmt f := by
        intro g₁ hkeeps hinv hships hdone
        obtain ⟨hkeeps', hinv', hall⟩ := ih hinv hrest hnodup
          (fun f hf => hkeeps.entries _ _ (hother f hf) (hfile f (List.mem_cons_of_mem _ hf))) hdone
        refine ⟨(hkeeps.mono fun name hname => ⟨script, List.mem_cons_self, hname⟩).trans
          (hkeeps'.mono hmore), hinv', ?_⟩
        intro f hf hyaml
        rcases List.mem_cons.1 hf with rfl | hf
        · refine Gather.Ships.mono hkeeps' ?_ (hships hyaml)
          rintro ⟨f', hf', heq⟩
          exact hother f' hf' heq.symm
        · exact hall f hf hyaml
      rw [Project.normalizeScripts] at h
      split at h
      · split at h
        · simp at h
        · rename_i g₁ hok
          obtain ⟨hkeeps, hinv, hships, -⟩ := ships_of_normalizeScript hg hscript
            (hfile script List.mem_cons_self) hok
          exact hstep g₁ (hkeeps.mono fun _ hfalse => hfalse.elim) hinv (fun _ => hships rfl) h
        · rename_i job g₁ hok
          obtain ⟨hkeeps, hinv, -, hships⟩ := ships_of_normalizeScript hg hscript
            (hfile script List.mem_cons_self) hok
          obtain ⟨hjob, hships⟩ := hships job rfl
          split at h
          · simp at h
          · rename_i text hdump
            refine hstep _ ?_ ?_ (fun _ => hships text _ hdump) h
            · exact ((hkeeps.mono fun _ hfalse => hfalse.elim).warn _).trans
                (Gather.keeps_insert _ _ _)
            · apply (hinv.warn (.rewritten script)).insert
              · exact (hinv.shipped script hscript).mem
              · intro f hf heq
                rw [P.zipName_inj hf hscript heq]
                exact hjob
              · intro target hpulled
                exact absurd rfl (hinv.fresh target _ hpulled script hscript)
      · rename_i hplain
        exact hstep g (Gather.Keeps.refl _ g) hg (fun hyaml => absurd hyaml hplain) h

end Ships

/-! ## The jobs that numbers are answered with -/

/-- What the config calls the job at a location: its path in the folder, or the entry that it has
been pulled in as, which is the job. -/
def Gather.AnsweredAs (P : Project) (fmt : Formats) (g : Gather) (target : List Name) (name : Str) :
    Prop :=
  (P.root <:+ target ∧ name = zipName (relOf P.root target)) ∨
    (¬ P.root <:+ target ∧ g.pulled.lookup target = some name ∧ P.IsJob fmt target.reverse ∧
      ∀ zip, (∀ n ∈ zip, IsName n) → name = zipName zip →
        g.Ships P fmt (P.staysInJob target.reverse.dropLast) target.reverse zip)

/-- An entry of `autoanswer`, and what it becomes: where it names a job, that job in the archive. -/
def AnswerOk (P : Project) (fmt : Formats) (g : Gather) (e e' : Yaml × Yaml) : Prop :=
  e'.1 = e.1 ∧
    match e.2.asStr.bind (P.resolve P.config.tail.reverse) with
    | none => e'.2 = e.2
    | some target => ∃ name, e'.2.asStr = some name ∧ g.AnsweredAs P fmt target name

section Answers

variable {P : Project} {fmt : Formats} {g g' : Gather} {target : List Name} {name number : Str}

theorem isSome_jobRef (job : List Name) (jobZip : Str) (file : String) (g : Gather) :
    (P.jobRef job jobZip file g).1.isSome =
      (P.resolve job.tail.reverse file.toList).isSome := by
  rw [Project.jobRef]
  split
  · rename_i hnone
    rw [hnone]
    rfl
  · rename_i target hres
    rw [hres]
    split <;> rfl

/-- A job that is pulled in. -/
theorem ships_of_normalizeOutOfTreeJob {zip : List Name} (hg : g.Inv P fmt)
    (hzip : ∀ n ∈ zip, IsName n) (hpulled : g.pulled.lookup target = some (zipName zip))
    {new : Option Str} (h : P.normalizeOutOfTreeJob fmt target (zipName zip) g = .ok (new, g')) :
    g.Keeps (fun _ => False) g' ∧ g'.Inv P fmt ∧ P.IsJob fmt target.reverse ∧
      (new = none → g'.Ships P fmt (P.staysInJob target.reverse.dropLast) target.reverse zip) ∧
      ∀ text, new = some text → P.HasRefs fmt target ∧
        (g'.insert (zipName zip) (.bytes (utf8 text))).Ships P fmt
          (P.staysInJob target.reverse.dropLast) target.reverse zip := by
  have hdir : target.tail.reverse = target.reverse.dropLast := List.dropLast_reverse.symm
  rw [Project.normalizeOutOfTreeJob] at h
  split at h
  · simp at h
  · rename_i text htext
    split at h
    · simp at h
    · rename_i job hjob
      obtain ⟨hkeeps, hinv, hall, hsame⟩ := rewriteSteps_spec (refOk_jobRef target hzip) job g hg
      have hrewritten := rewriteSteps_rewritten (isSome_jobRef (P := P) target (zipName zip)) job g
      rw [hdir] at hall
      simp only at h
      split at h
      -- with a reference of its own, the job has a new text
      · rename_i htrue
        split at h
        · simp at h
        · rename_i text' hdump
          obtain ⟨rfl, rfl⟩ := Prod.mk.inj (Except.ok.inj h)
          refine ⟨hkeeps, hinv, ⟨text, job, htext, hjob⟩, by simp, ?_⟩
          intro text₁ heq
          obtain rfl := Option.some.inj heq
          refine ⟨⟨text, job, htext, hjob, hrewritten ▸ htrue⟩, ?_⟩
          intro text₂ job₂ htext₂ hjob₂
          obtain rfl := Option.some.inj (htext.symm.trans htext₂)
          obtain rfl := Option.some.inj (hjob.symm.trans hjob₂)
          exact ⟨_, hall.imp fun _ _ hf => hf.mono fun _ _ hled =>
              hled.mono (Gather.keeps_insert _ _ _),
            Or.inr ⟨text', hdump, AList.lookup_insert _⟩⟩
      -- without one, it is in the archive as it was pulled in
      · rename_i hfalse
        obtain ⟨rfl, rfl⟩ := Prod.mk.inj (Except.ok.inj h)
        refine ⟨hkeeps, hinv, ⟨text, job, htext, hjob⟩, ?_, by simp⟩
        intro _ text₂ job₂ htext₂ hjob₂
        have hrefs : ¬ P.HasRefs fmt target := by
          rintro ⟨text₃, job₃, htext₃, hjob₃, hplays⟩
          obtain rfl := Option.some.inj (htext.symm.trans htext₃)
          obtain rfl := Option.some.inj (hjob.symm.trans hjob₃)
          exact hfalse (hrewritten.trans hplays)
        obtain rfl := Option.some.inj (htext.symm.trans htext₂)
        obtain rfl := Option.some.inj (hjob.symm.trans hjob₂)
        exact ⟨_, hall, Or.inl ⟨hinv.plain _ _ (hkeeps.pulled _ _ hpulled) hrefs,
          hsame (eq_false_of_ne_true hfalse)⟩⟩

/-- **The job of one number.** -/
theorem answeredAs_of_answerName (hg : g.Inv P fmt) (htarget : P.disk.IsPlace target)
    (h : P.answerName fmt number target g = .ok (name, g')) :
    g.Keeps (fun name' => ∃ t, ¬ P.root <:+ t ∧ g'.pulled.lookup t = some name') g' ∧
      g'.Inv P fmt ∧ g'.AnsweredAs P fmt target name ∧
      ∀ t name', g.AnsweredAs P fmt t name' → g'.AnsweredAs P fmt t name' := by
  rw [Project.answerName] at h
  split at h
  · rename_i hin
    obtain ⟨rfl, rfl⟩ := Prod.mk.inj (Except.ok.inj h)
    exact ⟨Gather.Keeps.refl _ g, hg, Or.inl ⟨hin, rfl⟩, fun _ _ h => h⟩
  · rename_i hout
    obtain ⟨hpullkeeps, hpullinv, hpulled⟩ := pullExternal_spec hg hout htarget (Or.inr rfl)
    generalize pullExternal target "scripts".toList g = pulled at h hpullkeeps hpullinv hpulled
    obtain ⟨pulledAs, g₁⟩ := pulled
    obtain ⟨zip, -, hzip, rfl⟩ := hpullinv.named pulledAs (hpullinv.sent _ _ hpulled).mem
    -- the entry of this job may change, and no other one
    have hwhole : ∀ g₂ : Gather, g₁.Keeps (· = zipName zip) g₂ → g₂.Inv P fmt →
        P.IsJob fmt target.reverse →
        g₂.Ships P fmt (P.staysInJob target.reverse.dropLast) target.reverse zip →
        g.Keeps (fun name' => ∃ t, ¬ P.root <:+ t ∧ g₂.pulled.lookup t = some name') g₂ ∧
          g₂.Inv P fmt ∧ g₂.AnsweredAs P fmt target (zipName zip) ∧
          ∀ t name', g.AnsweredAs P fmt t name' → g₂.AnsweredAs P fmt t name' := by
      intro g₂ hkeeps hinv hjob hships
      have hpulled₂ := hkeeps.pulled _ _ hpulled
      have hshipsAll : ∀ zip', (∀ n ∈ zip', IsName n) → zipName zip = zipName zip' →
          g₂.Ships P fmt (P.staysInJob target.reverse.dropLast) target.reverse zip' := by
        intro zip' hzip' heq
        rw [← zipName_injective hzip hzip' heq]
        exact hships
      refine ⟨?_, hinv, Or.inr ⟨hout, hpulled₂, hjob, hshipsAll⟩, ?_⟩
      · refine (hpullkeeps.mono fun _ hfalse => hfalse.elim).trans (hkeeps.mono ?_)
        rintro name' rfl
        exact ⟨target, hout, hpulled₂⟩
      · rintro t name' (hin | ⟨hout', hpulled', hjob', hships'⟩)
        · exact Or.inl hin
        · have hpulled'₂ := hkeeps.pulled _ _ (hpullkeeps.pulled _ _ hpulled')
          refine Or.inr ⟨hout', hpulled'₂, hjob', ?_⟩
          intro zip' hzip' heq
          by_cases hsame : t = target
          · subst hsame
            obtain rfl := Option.some.inj (hpulled₂.symm.trans hpulled'₂)
            exact hshipsAll zip' hzip' heq
          · refine Gather.Ships.mono hkeeps ?_
              (Gather.Ships.mono hpullkeeps not_false (hships' zip' hzip' heq))
            intro hname
            rw [heq, hname] at hpulled'₂
            exact hsame (hinv.unique _ _ _ hpulled'₂ hpulled₂)
    simp only at h
    split at h
    · simp at h
    · rename_i g₂ hok
      obtain ⟨rfl, rfl⟩ := Prod.mk.inj (Except.ok.inj h)
      obtain ⟨hkeeps, hinv, hjob, hships, -⟩ :=
        ships_of_normalizeOutOfTreeJob hpullinv hzip hpulled hok
      exact hwhole _ ((hkeeps.mono fun _ hfalse => hfalse.elim).warn _) (hinv.warn _) hjob
        (Gather.Ships.mono ((Gather.Keeps.refl (fun _ => False) g₂).warn _) not_false (hships rfl))
    · rename_i text g₂ hok
      obtain ⟨rfl, rfl⟩ := Prod.mk.inj (Except.ok.inj h)
      obtain ⟨hkeeps, hinv, hjob, -, hships⟩ :=
        ships_of_normalizeOutOfTreeJob hpullinv hzip hpulled hok
      obtain ⟨hrefs, hships⟩ := hships text rfl
      refine hwhole _ ?_ ?_ hjob
        (Gather.Ships.mono ((Gather.Keeps.refl (fun _ => False) _).warn _) not_false hships)
      · exact ((hkeeps.mono fun _ hfalse => hfalse.elim).trans (Gather.keeps_insert _ _ _)).warn _
      · apply Gather.Inv.warn
        have hpulled₂ := hkeeps.pulled _ _ hpulled
        apply hinv.insert (hinv.sent _ _ hpulled₂).mem
        · intro f hf heq
          exact absurd heq.symm (hinv.fresh _ _ hpulled₂ f hf)
        · intro t ht
          rw [hinv.unique _ _ _ ht hpulled₂]
          exact hrefs

theorem Gather.AnsweredAs.warn (h : g.AnsweredAs P fmt target name) (w : Warning) :
    (g.warn w).AnsweredAs P fmt target name := by
  rcases h with hin | ⟨hout, hpulled, hjob, hships⟩
  · exact Or.inl hin
  · exact Or.inr ⟨hout, hpulled, hjob, fun zip hzip heq => Gather.Ships.mono
      ((Gather.Keeps.refl (fun _ => False) g).warn w) not_false (hships zip hzip heq)⟩

theorem exists_of_map_ok {ε α β : Type} {x : Except ε α} {f : α → β} {y : β}
    (h : x.map f = .ok y) : ∃ r, x = .ok r ∧ f r = y := by
  cases x with
  | error e => simp [Except.map] at h
  | ok r => exact ⟨r, rfl, Except.ok.inj h⟩

theorem AnswerOk.mono {e e' : Yaml × Yaml}
    (hmono : ∀ t name, g.AnsweredAs P fmt t name → g'.AnsweredAs P fmt t name)
    (h : AnswerOk P fmt g e e') : AnswerOk P fmt g' e e' := by
  obtain ⟨hkey, h⟩ := h
  refine ⟨hkey, ?_⟩
  split at h
  · exact h
  · obtain ⟨name, hname, hanswered⟩ := h
    exact ⟨name, hname, hmono _ _ hanswered⟩

/-- **The jobs of all numbers**, one after the other. -/
theorem answered_of_answerEntries {entries entries' : YamlEntries} {edits : List (Str × Str)}
    (hg : g.Inv P fmt) (h : P.answerEntries fmt entries g = .ok (entries', edits, g')) :
    g.Keeps (fun name' => ∃ t, ¬ P.root <:+ t ∧ g'.pulled.lookup t = some name') g' ∧
      g'.Inv P fmt ∧ List.Forall₂ (AnswerOk P fmt g') entries.toList entries'.toList ∧
      ∀ t name', g.AnsweredAs P fmt t name' → g'.AnsweredAs P fmt t name' := by
  induction entries using entries_rec generalizing g entries' edits with
  | nil =>
      obtain ⟨rfl, hrest⟩ := Prod.mk.inj (Except.ok.inj h)
      obtain ⟨-, rfl⟩ := Prod.mk.inj hrest
      exact ⟨Gather.Keeps.refl _ g, hg, List.Forall₂.nil, fun _ _ h => h⟩
  | cons k v entries ih =>
      -- the other entries, and what this one becomes
      have hrest : ∀ (g₁ : Gather) (v' : Yaml) (r : YamlEntries × List (Str × Str) × Gather),
          g.Keeps (fun name' => ∃ t, ¬ P.root <:+ t ∧ g₁.pulled.lookup t = some name') g₁ →
          g₁.Inv P fmt → (∀ t name', g.AnsweredAs P fmt t name' → g₁.AnsweredAs P fmt t name') →
          P.answerEntries fmt entries g₁ = .ok r →
          (AnswerOk P fmt g₁ (k, v) (k, v')) → entries' = .cons k v' r.1 → g' = r.2.2 →
          g.Keeps (fun name' => ∃ t, ¬ P.root <:+ t ∧ g'.pulled.lookup t = some name') g' ∧
            g'.Inv P fmt ∧
            List.Forall₂ (AnswerOk P fmt g') (YamlEntries.cons k v entries).toList entries'.toList ∧
            ∀ t name', g.AnsweredAs P fmt t name' → g'.AnsweredAs P fmt t name' := by
        rintro g₁ v' ⟨es, eds, g₂⟩ hkeeps hinv hmono hdone hok rfl rfl
        obtain ⟨hkeeps', hinv', hall, hmono'⟩ := ih hinv hdone
        refine ⟨(hkeeps.mono ?_).trans hkeeps', hinv', ?_,
          fun t name' h => hmono' _ _ (hmono _ _ h)⟩
        · rintro name' ⟨t, hout, hpulled⟩
          exact ⟨t, hout, hkeeps'.pulled _ _ hpulled⟩
        · exact List.Forall₂.cons (hok.mono hmono') hall
      rw [Project.answerEntries] at h
      split at h
      · rename_i hnone
        obtain ⟨r, hr, heq⟩ := exists_of_map_ok h
        obtain ⟨rfl, hrest'⟩ := Prod.mk.inj heq
        obtain ⟨-, rfl⟩ := Prod.mk.inj hrest'
        exact hrest g v r (Gather.Keeps.refl _ g) hg (fun _ _ h => h) hr
          ⟨rfl, by rw [hnone]; rfl⟩ rfl rfl
      · rename_i path hpath
        simp only at h
        split at h
        · rename_i hnone
          obtain ⟨r, hr, heq⟩ := exists_of_map_ok h
          obtain ⟨rfl, hrest'⟩ := Prod.mk.inj heq
          obtain ⟨-, rfl⟩ := Prod.mk.inj hrest'
          exact hrest _ v r ((Gather.Keeps.refl _ g).warn _) (hg.warn _) (fun _ _ h => h.warn _) hr
            ⟨rfl, by simp [hpath, hnone]⟩ rfl rfl
        · rename_i target hres
          split at h
          · simp at h
          · rename_i new g₁ hname
            obtain ⟨hkeeps, hinv, hanswered, hmono⟩ :=
              answeredAs_of_answerName hg (P.isPlace_of_resolve hres) hname
            obtain ⟨r, hr, heq⟩ := exists_of_map_ok h
            split at heq
            · obtain ⟨rfl, hrest'⟩ := Prod.mk.inj heq
              obtain ⟨-, rfl⟩ := Prod.mk.inj hrest'
              refine hrest g₁ (.string new) r hkeeps hinv hmono hr ⟨rfl, ?_⟩ rfl rfl
              simp only [hpath, Option.bind_some, hres]
              exact ⟨new, rfl, hanswered⟩
            · rename_i hsame
              obtain ⟨rfl, hrest'⟩ := Prod.mk.inj heq
              obtain ⟨-, rfl⟩ := Prod.mk.inj hrest'
              refine hrest g₁ v r hkeeps hinv hmono hr ⟨rfl, ?_⟩ rfl rfl
              simp only [hpath, Option.bind_some, hres]
              exact ⟨path, rfl, not_not.1 hsame ▸ hanswered⟩

end Answers

end DialF.Bundle
