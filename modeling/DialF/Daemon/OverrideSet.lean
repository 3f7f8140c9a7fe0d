import DialF.Daemon.Serve
import DialF.Lib.Machine

/-!
# Setting overrides

`override.set` with what it does to the file system: the record directory is created as soon as it
is validated, before the auto-answer entries are. A request that is rejected behind that leaves the
directory; `meetsSet_iff_harmless` has the exact condition. The store itself is touched at the end
only, and an inline job in it plays no relative path (`sound_step`). What it says among the layers
of a serve session is the same (`set_carried`).
-/

set_option autoImplicit false

namespace DialF.Daemon

open DialF.Lib

/-! ## The request, on a host -/

/-- A number's handler in the runtime map, with the steps of an inline job. -/
inductive StoredJob where
  | answerOnly
  | path (path : String)
  | steps (steps : List Jobs.Step)
  deriving DecidableEq

/-- `RuntimeOverrides`. -/
structure StoredOverrides where
  recordDir : Option String
  autoanswer : Option (AList fun _ : String => StoredJob)

/-- The fields of `override.set`. -/
structure SetRequest where
  recordDir : Option String
  autoanswer : Option (AList fun _ : String => Option AutoanswerValue)

/-- A host whose file system has the states `σ`, and the parser of job files. -/
structure Host (σ : Type) where
  createDirAll : String → σ → Except String Unit × σ
  readToString : String → σ → Except String String
  parse : String → Except String (List Jobs.Step)

namespace Host

variable {σ : Type}

/-- `validate_record_dir`. -/
def validateRecordDir (host : Host σ) (dir : String) (fs : σ) : Except String String × σ :=
  if isRelativePath dir.toList then
    (.error ("record_dir must be an absolute path (the daemon runs with cwd=/): `" ++ dir ++ "`"), fs)
  else
    match host.createDirAll dir fs with
    | (.error e, fs) => (.error ("create record_dir `" ++ dir ++ "`: " ++ e), fs)
    | (.ok _, fs) => (.ok dir, fs)

/-- One entry of `validate_autoanswer`. -/
def validateEntry (host : Host σ) (fs : σ) (number : String) (value : Option AutoanswerValue) :
    Except String StoredJob :=
  if trim number.toList = [] then .error "autoanswer: empty phone number key"
  else
    match value with
    | none => .ok .answerOnly
    | some (.path p) =>
        if isRelativePath p.toList then
          .error ("autoanswer " ++ number ++ ": job path must be absolute (socket callers have no " ++
            "working directory to resolve `" ++ p ++ "` against)")
        else
          match host.readToString p fs with
          | .error e => .error ("autoanswer " ++ number ++ ": read job file " ++ p ++ ": " ++ e)
          | .ok text =>
              match host.parse text with
              | .error e => .error ("autoanswer " ++ number ++ ": parse job file " ++ p ++ ": " ++ e)
              | .ok _ => .ok (.path p)
    | some (.yaml yaml) =>
        match host.parse yaml with
        | .error e => .error ("autoanswer " ++ number ++ ": parse job content: " ++ e)
        | .ok steps => (checkInlinePaths number 0 steps).map fun _ => .steps steps
    | some (.steps steps) => (checkInlinePaths number 0 steps).map fun _ => .steps steps

/-- `validate_autoanswer`: the first bad entry fails the request. -/
def validateAutoanswer (host : Host σ) (fs : σ) :
    List (Sigma fun _ : String => Option AutoanswerValue) → (AList fun _ : String => StoredJob) →
      Except String (AList fun _ : String => StoredJob)
  | [], out => .ok out
  | ⟨number, value⟩ :: rest, out =>
      match host.validateEntry fs number value with
      | .error e => .error e
      | .ok job => host.validateAutoanswer fs rest (out.insert number job)

/-- `record_dir.as_deref().map(validate_record_dir).transpose()`. -/
def validateDir (host : Host σ) (fs : σ) : Option String → Except String (Option String) × σ
  | none => (.ok none, fs)
  | some dir =>
      match host.validateRecordDir dir fs with
      | (.error e, fs) => (.error e, fs)
      | (.ok dir, fs) => (.ok (some dir), fs)

/-- `override.set`: the answer, the store and the file system. -/
def set (host : Host σ) (s : StoredOverrides × σ) (req : SetRequest) :
    Except String Unit × StoredOverrides × σ :=
  if req.recordDir = none ∧ req.autoanswer.isNone then
    (.error "override.set requires `record_dir` and/or `autoanswer`", s)
  else
    match host.validateDir s.2 req.recordDir with
    | (.error e, fs) => (.error e, s.1, fs)
    | (.ok dir, fs) =>
        match req.autoanswer.mapM fun map => host.validateAutoanswer fs map.entries ∅ with
        | .error e => (.error e, s.1, fs)
        | .ok map => (.ok (), ⟨dir.or s.1.recordDir, map.or s.1.autoanswer⟩, fs)

end Host

/-- `override.clear`. -/
def StoredOverrides.clear (ovr : StoredOverrides) (recordDir autoanswer : Bool) : StoredOverrides :=
  let all := !recordDir && !autoanswer
  ⟨if recordDir || all then none else ovr.recordDir,
    if autoanswer || all then none else ovr.autoanswer⟩

/-! ## What is acceptable -/

/-- No step plays a relative path. -/
def NoRelativePlay (steps : List Jobs.Step) : Prop :=
  ∀ step ∈ steps, ∀ file, step.kind = .audioPlay file → isRelativePath file.toList = false

theorem checkInlinePaths_eq_ok_iff (number : String) (i : Nat) (steps : List Jobs.Step) :
    checkInlinePaths number i steps = .ok () ↔ NoRelativePlay steps := by
  induction steps generalizing i with
  | nil => simp [checkInlinePaths, NoRelativePlay]
  | cons step steps ih =>
      rw [NoRelativePlay, List.forall_mem_cons]
      change _ ↔ _ ∧ NoRelativePlay steps
      rw [← ih (i + 1), checkInlinePaths]
      cases hkind : step.kind with
      | audioPlay file =>
          cases hrel : isRelativePath file.toList with
          | true => simp [hrel]
          | false => simp [hrel]
      | _ => simp

namespace Host

variable {σ : Type} {host : Host σ} {fs : σ} {number : String} {value : Option AutoanswerValue}

/-- An entry that the file system bears out: a number, and a job that is there and sound. -/
def Acceptable (host : Host σ) (fs : σ) (number : String) (value : Option AutoanswerValue) : Prop :=
  trim number.toList ≠ [] ∧
    match value with
    | none => True
    | some (.path p) => isRelativePath p.toList = false ∧
        ∃ text steps, host.readToString p fs = .ok text ∧ host.parse text = .ok steps
    | some (.yaml yaml) => ∃ steps, host.parse yaml = .ok steps ∧ NoRelativePlay steps
    | some (.steps steps) => NoRelativePlay steps

/-- What an entry stands for. -/
def job (host : Host σ) : Option AutoanswerValue → StoredJob
  | none => .answerOnly
  | some (.path p) => .path p
  | some (.yaml yaml) =>
      match host.parse yaml with
      | .ok steps => .steps steps
      | .error _ => .steps []
  | some (.steps steps) => .steps steps

theorem map_checkInlinePaths_eq_ok_iff (number : String) (steps : List Jobs.Step)
    (stored job : StoredJob) :
    (checkInlinePaths number 0 steps).map (fun _ => stored) = .ok job ↔
      NoRelativePlay steps ∧ job = stored := by
  rw [← checkInlinePaths_eq_ok_iff number 0]
  cases checkInlinePaths number 0 steps with
  | error e => simp [Except.map]
  | ok u => simp [Except.map, eq_comm]

/-- **An entry is validated** exactly where it is acceptable. -/
theorem validateEntry_eq_ok_iff {stored : StoredJob} :
    host.validateEntry fs number value = .ok stored ↔
      host.Acceptable fs number value ∧ stored = host.job value := by
  rw [validateEntry.eq_def, Acceptable.eq_def]
  by_cases hempty : trim number.toList = []
  · simp [hempty]
  · rw [if_neg hempty]
    cases value with
    | none => simp [hempty, job, eq_comm]
    | some value =>
        cases value with
        | steps steps =>
            rw [map_checkInlinePaths_eq_ok_iff]
            simp [hempty, job]
        | yaml yaml =>
            cases hparse : host.parse yaml with
            | error e => simp [hparse]
            | ok steps =>
                have hmap := map_checkInlinePaths_eq_ok_iff number steps (.steps steps) stored
                simpa [hempty, job, hparse] using hmap
        | path p =>
            cases hrel : isRelativePath p.toList with
            | true => simp [hrel]
            | false =>
                cases hread : host.readToString p fs with
                | error e => simp [hrel, hread]
                | ok text =>
                    cases hparse : host.parse text with
                    | error e => simp [hrel, hread, hparse]
                    | ok steps => simp [hempty, hrel, hread, hparse, job, eq_comm]

/-- A map is validated where all its entries are, and says of each number what its entry does. -/
theorem validateAutoanswer_spec (host : Host σ) (fs : σ)
    (entries : List (Sigma fun _ : String => Option AutoanswerValue))
    (hnodup : entries.NodupKeys) (out : AList fun _ : String => StoredJob) :
    (∀ stored, host.validateAutoanswer fs entries out = .ok stored →
      (∀ e ∈ entries, host.Acceptable fs e.1 e.2) ∧
        ∀ n, stored.lookup n = ((entries.dlookup n).map host.job).or (out.lookup n)) ∧
    ((∀ e ∈ entries, host.Acceptable fs e.1 e.2) →
      ∃ stored, host.validateAutoanswer fs entries out = .ok stored) := by
  induction entries generalizing out with
  | nil =>
      refine ⟨?_, fun _ => ⟨out, rfl⟩⟩
      intro stored h
      obtain rfl := Except.ok.inj h
      exact ⟨fun e he => absurd he List.not_mem_nil, fun n => rfl⟩
  | cons e entries ih =>
      obtain ⟨number, value⟩ := e
      obtain ⟨hnew, hnodup⟩ := List.nodupKeys_cons.1 hnodup
      rw [validateAutoanswer]
      cases hentry : host.validateEntry fs number value with
      | error e =>
          refine ⟨fun stored h => (nomatch h), fun hall => ?_⟩
          have hok := validateEntry_eq_ok_iff.2 ⟨hall _ List.mem_cons_self, rfl⟩
          exact absurd (hentry.symm.trans hok) (by simp)
      | ok job =>
          obtain ⟨hacceptable, rfl⟩ := validateEntry_eq_ok_iff.1 hentry
          obtain ⟨hstored, hexists⟩ := ih hnodup (out.insert number (host.job value))
          refine ⟨fun stored h => ?_, fun hall => ?_⟩
          · obtain ⟨hall, hlookup⟩ := hstored stored h
            refine ⟨List.forall_mem_cons.2 ⟨hacceptable, hall⟩, fun n => ?_⟩
            rw [hlookup n]
            by_cases hn : n = number
            · subst hn
              rw [List.dlookup_eq_none.2 hnew, List.dlookup_cons_eq, AList.lookup_insert]
              rfl
            · rw [List.dlookup_cons_ne _ _ hn, AList.lookup_insert_ne hn]
          · exact hexists fun e he => hall e (List.mem_cons_of_mem _ he)

/-! ## All or nothing -/

/-- A request that is rejected changes nothing; one that is accepted replaces the fields it names,
and no others. -/
structure MeetsSet (host : Host σ) (s : StoredOverrides × σ) (req : SetRequest) : Prop where
  rejected : ∀ e t, host.set s req = (.error e, t) → t = s
  accepted : ∀ t, host.set s req = (.ok (), t) →
    t.1.recordDir = req.recordDir.or s.1.recordDir ∧
      (req.autoanswer = none → t.1.autoanswer = s.1.autoanswer) ∧
        ∀ map, req.autoanswer = some map → ∃ stored, t.1.autoanswer = some stored ∧
          ∀ number, stored.lookup number = (map.lookup number).map host.job

/-- Creating the directory that a request names changes nothing, or it succeeds and the entries are
acceptable behind it. -/
def Harmless (host : Host σ) (fs : σ) (req : SetRequest) : Prop :=
  ∀ dir, req.recordDir = some dir → isRelativePath dir.toList = false →
    (host.createDirAll dir fs).2 = fs ∨
      (host.createDirAll dir fs).1 = .ok () ∧
        ∀ map, req.autoanswer = some map →
          ∀ e ∈ map.entries, host.Acceptable (host.createDirAll dir fs).2 e.1 e.2

/-- The file system behind the validation of the directory. -/
def afterDir (host : Host σ) (fs : σ) : Option String → σ
  | none => fs
  | some dir => if isRelativePath dir.toList then fs else (host.createDirAll dir fs).2

/-- The directory is one that can be created. -/
def DirOk (host : Host σ) (fs : σ) (recordDir : Option String) : Prop :=
  ∀ dir, recordDir = some dir →
    isRelativePath dir.toList = false ∧ (host.createDirAll dir fs).1 = .ok ()

theorem validateDir_of_ok {recordDir : Option String} (h : host.DirOk fs recordDir) :
    host.validateDir fs recordDir = (.ok recordDir, host.afterDir fs recordDir) := by
  cases recordDir with
  | none => rfl
  | some dir =>
      obtain ⟨hrel, hcreate⟩ := h dir rfl
      rw [validateDir, validateRecordDir, afterDir, hrel]
      rcases hr : host.createDirAll dir fs with ⟨r, fs'⟩
      rw [hr] at hcreate
      obtain rfl : r = .ok () := hcreate
      rfl

theorem validateDir_of_not_ok {recordDir : Option String} (h : ¬ host.DirOk fs recordDir) :
    ∃ e, host.validateDir fs recordDir = (.error e, host.afterDir fs recordDir) := by
  cases recordDir with
  | none => exact absurd (fun dir hdir => nomatch hdir) h
  | some dir =>
      rw [validateDir, validateRecordDir, afterDir]
      cases hrel : isRelativePath dir.toList with
      | true => exact ⟨_, rfl⟩
      | false =>
          rcases hr : host.createDirAll dir fs with ⟨_ | u, fs'⟩
          · exact ⟨_, rfl⟩
          · refine absurd ?_ h
            rintro _ ⟨⟩
            exact ⟨hrel, by rw [hr]⟩

/-- **What a request does.** Whatever becomes of it, its directory has been created. -/
theorem set_spec (host : Host σ) (s : StoredOverrides × σ) (req : SetRequest)
    (hnamed : ¬ (req.recordDir = none ∧ req.autoanswer.isNone)) :
    (¬ host.DirOk s.2 req.recordDir ∧
      ∃ e, host.set s req = (.error e, s.1, host.afterDir s.2 req.recordDir)) ∨
    host.DirOk s.2 req.recordDir ∧
      ((∃ map, req.autoanswer = some map ∧
        (∃ e ∈ map.entries, ¬ host.Acceptable (host.afterDir s.2 req.recordDir) e.1 e.2) ∧
          ∃ e, host.set s req = (.error e, s.1, host.afterDir s.2 req.recordDir)) ∨
      ((∀ map, req.autoanswer = some map →
        ∀ e ∈ map.entries, host.Acceptable (host.afterDir s.2 req.recordDir) e.1 e.2) ∧
          ∃ stored : Option (AList fun _ : String => StoredJob),
            stored.isSome = req.autoanswer.isSome ∧
              (∀ map, req.autoanswer = some map → ∀ jobs, stored = some jobs →
                ∀ number, jobs.lookup number = (map.lookup number).map host.job) ∧
                  host.set s req = (.ok (), ⟨req.recordDir.or s.1.recordDir,
                    stored.or s.1.autoanswer⟩, host.afterDir s.2 req.recordDir))) := by
  by_cases hdir : host.DirOk s.2 req.recordDir
  · refine .inr ⟨hdir, ?_⟩
    rw [set, if_neg hnamed, validateDir_of_ok hdir]
    cases hmap : req.autoanswer with
    | none => exact .inr ⟨fun map h => (nomatch h), none, rfl, fun map h => (nomatch h), rfl⟩
    | some map =>
        obtain ⟨hstored, hexists⟩ := validateAutoanswer_spec host
          (host.afterDir s.2 req.recordDir) map.entries map.nodupKeys ∅
        by_cases hall : ∀ e ∈ map.entries,
            host.Acceptable (host.afterDir s.2 req.recordDir) e.1 e.2
        · obtain ⟨jobs, hjobs⟩ := hexists hall
          refine .inr ⟨?_, some jobs, rfl, ?_, ?_⟩
          · rintro _ ⟨⟩
            exact hall
          · rintro _ ⟨⟩ _ ⟨⟩ number
            rw [(hstored jobs hjobs).2 number]
            exact Option.or_none
          · simp only [Option.mapM_some, hjobs]
            rfl
        · refine .inl ⟨map, rfl, by simpa using hall, ?_⟩
          cases hjobs : host.validateAutoanswer (host.afterDir s.2 req.recordDir) map.entries ∅ with
          | error e =>
              simp only [Option.mapM_some, hjobs]
              exact ⟨e, rfl⟩
          | ok jobs => exact absurd (hstored jobs hjobs).1 hall
  · obtain ⟨e, he⟩ := validateDir_of_not_ok hdir
    refine .inl ⟨hdir, e, ?_⟩
    rw [set, if_neg hnamed, he]

/-- **A request meets its specification** exactly where creating its directory is harmless. -/
theorem meetsSet_iff_harmless (s : StoredOverrides × σ) (req : SetRequest) :
    host.MeetsSet s req ↔ host.Harmless s.2 req := by
  by_cases hnamed : req.recordDir = none ∧ req.autoanswer.isNone
  · have hset : host.set s req =
        (.error "override.set requires `record_dir` and/or `autoanswer`", s) := by
      rw [set, if_pos hnamed]
    refine iff_of_true ⟨?_, ?_⟩ fun dir hdir => absurd (hnamed.1.symm.trans hdir) (by simp)
    · intro e t h
      exact (Prod.mk.inj (hset.symm.trans h)).2.symm
    · intro t h
      exact absurd (Prod.mk.inj (hset.symm.trans h)).1 (by simp)
  · have hafter : ∀ dir, req.recordDir = some dir → isRelativePath dir.toList = false →
        host.afterDir s.2 req.recordDir = (host.createDirAll dir s.2).2 := by
      intro dir hdir hrel
      rw [hdir, afterDir, hrel]
      rfl
    -- where it is rejected, all depends on whether creating the directory has changed anything
    have hrejected : ∀ e, host.set s req = (.error e, s.1, host.afterDir s.2 req.recordDir) →
        (host.MeetsSet s req ↔ host.afterDir s.2 req.recordDir = s.2) := by
      intro e hset
      constructor
      · intro hmeets
        exact congrArg Prod.snd (hmeets.rejected e _ hset)
      · intro hsame
        refine ⟨fun e' t h => ?_, fun t h => ?_⟩
        · rw [← (Prod.mk.inj (hset.symm.trans h)).2, hsame]
        · exact absurd (Prod.mk.inj (hset.symm.trans h)).1 (by simp)
    rcases set_spec host s req hnamed with
      ⟨hdir, e, hset⟩ | ⟨hdir, ⟨map, hmap, hbad, e, hset⟩ | ⟨hall, stored, hsome, hjobs, hset⟩⟩
    · rw [hrejected e hset]
      constructor
      · intro hsame dir hrec hrel
        exact .inl ((hafter dir hrec hrel).symm.trans hsame)
      · intro hharmless
        cases hrec : req.recordDir with
        | none => rfl
        | some dir =>
            cases hrel : isRelativePath dir.toList with
            | true =>
                rw [afterDir, hrel]
                rfl
            | false =>
                rw [← hrec, hafter dir hrec hrel]
                rcases hharmless dir hrec hrel with hsame | ⟨hcreate, -⟩
                · exact hsame
                · refine absurd ?_ hdir
                  rw [hrec]
                  rintro _ ⟨⟩
                  exact ⟨hrel, hcreate⟩
    · rw [hrejected e hset]
      obtain ⟨entry, hentry, hnot⟩ := hbad
      constructor
      · intro hsame dir hrec hrel
        exact .inl ((hafter dir hrec hrel).symm.trans hsame)
      · intro hharmless
        cases hrec : req.recordDir with
        | none => rfl
        | some dir =>
            have hrel := (hdir dir hrec).1
            rw [← hrec, hafter dir hrec hrel]
            rcases hharmless dir hrec hrel with hsame | ⟨-, hacceptable⟩
            · exact hsame
            · rw [hafter dir hrec hrel] at hnot
              exact absurd (hacceptable map hmap entry hentry) hnot
    · refine iff_of_true ⟨fun e t h => ?_, fun t h => ?_⟩ fun dir hrec hrel => ?_
      · exact absurd (Prod.mk.inj (hset.symm.trans h)).1 (by simp)
      · obtain rfl := (Prod.mk.inj (hset.symm.trans h)).2
        refine ⟨rfl, fun hnone => ?_, fun map hmap => ?_⟩
        · rw [hnone, Option.isSome_none, Option.isSome_eq_false_iff, Option.isNone_iff_eq_none]
            at hsome
          rw [hsome]
          rfl
        · rw [hmap, Option.isSome_some, Option.isSome_iff_exists] at hsome
          obtain ⟨jobs, rfl⟩ := hsome
          exact ⟨jobs, rfl, hjobs map hmap jobs rfl⟩
      · rw [hafter dir hrec hrel] at hall
        exact .inr ⟨(hdir dir hrec).2, hall⟩

end Host

/-! ## The layers of a serve session -/

/-- How a stored job is carried among the layers. -/
def StoredJob.inbound (text : Jobs.Step → String) : StoredJob → InboundJob
  | .answerOnly => .answerOnly
  | .path p => .path p
  | .steps content => .steps (content.map text)

/-- The overrides as the layers have them. -/
structure StoredOverrides.Carried (text : Jobs.Step → String) (ovr : StoredOverrides)
    (carried : RuntimeOverrides) : Prop where
  recordDir : carried.recordDir = ovr.recordDir
  isSome : carried.autoanswer.isSome = ovr.autoanswer.isSome
  lookup : ∀ jobs jobs', ovr.autoanswer = some jobs → carried.autoanswer = some jobs' →
    ∀ number, jobs'.lookup number = (jobs.lookup number).map (·.inbound text)

namespace Host

variable {σ : Type} {host : Host σ} {fs : σ} {text : Jobs.Step → String}

/-- What a request finds on the host. -/
def env (host : Host σ) (fs : σ) (recordDir : Option String) (text : Jobs.Step → String) : SetEnv where
  createDirAll dir := (host.createDirAll dir fs).1
  readToString p := host.readToString p (host.afterDir fs recordDir)
  parse := host.parse
  text := text

theorem validateEntry_inbound (host : Host σ) (fs : σ) (text : Jobs.Step → String)
    (recordDir : Option String) (number : String)
    (value : Option AutoanswerValue) :
    (host.validateEntry (host.afterDir fs recordDir) number value).map (·.inbound text) =
      DialF.Daemon.validateEntry (host.env fs recordDir text) number value := by
  have hinline : ∀ steps : List Jobs.Step,
      ((checkInlinePaths number 0 steps).map fun _ => StoredJob.steps steps).map (·.inbound text) =
        (checkInlinePaths number 0 steps).map fun _ => InboundJob.steps (steps.map text) := by
    intro steps
    cases checkInlinePaths number 0 steps <;> rfl
  rw [validateEntry.eq_def, DialF.Daemon.validateEntry.eq_def]
  by_cases hempty : trim number.toList = []
  · rw [if_pos hempty, if_pos hempty]
    rfl
  · rw [if_neg hempty, if_neg hempty]
    cases value with
    | none => rfl
    | some value =>
        cases value with
        | steps steps => exact hinline steps
        | yaml yaml =>
            simp only [env]
            cases host.parse yaml with
            | error e => rfl
            | ok steps => exact hinline steps
        | path p =>
            simp only [env]
            split
            · rfl
            · cases host.readToString p (host.afterDir fs recordDir) with
              | error e => rfl
              | ok read =>
                  simp only
                  cases host.parse read <;> rfl

theorem validateAutoanswer_inbound (host : Host σ) (fs : σ) (text : Jobs.Step → String)
    (recordDir : Option String)
    (entries : List (Sigma fun _ : String => Option AutoanswerValue))
    (out : AList fun _ : String => StoredJob) (out' : AList fun _ : String => InboundJob)
    (hout : ∀ n, out'.lookup n = (out.lookup n).map (·.inbound text)) :
    (∀ e, host.validateAutoanswer (host.afterDir fs recordDir) entries out = .error e →
      DialF.Daemon.validateAutoanswer (host.env fs recordDir text)
        (entries.map fun e => (e.1, e.2)) out' = .error e) ∧
    ∀ jobs, host.validateAutoanswer (host.afterDir fs recordDir) entries out = .ok jobs →
      ∃ jobs', DialF.Daemon.validateAutoanswer (host.env fs recordDir text)
        (entries.map fun e => (e.1, e.2)) out' = .ok jobs' ∧
          ∀ n, jobs'.lookup n = (jobs.lookup n).map (·.inbound text) := by
  induction entries generalizing out out' with
  | nil =>
      refine ⟨fun e h => (nomatch h), fun jobs h => ?_⟩
      obtain rfl := Except.ok.inj h
      exact ⟨out', rfl, hout⟩
  | cons e entries ih =>
      obtain ⟨number, value⟩ := e
      have hentry := validateEntry_inbound host fs text recordDir number value
      rw [validateAutoanswer, List.map_cons, DialF.Daemon.validateAutoanswer, ← hentry]
      cases host.validateEntry (host.afterDir fs recordDir) number value with
      | error e =>
          exact ⟨fun e h => congrArg Except.error (Except.error.inj h), fun jobs h => (nomatch h)⟩
      | ok job =>
          apply ih
          intro n
          by_cases hn : n = number
          · subst hn
            rw [AList.lookup_insert, AList.lookup_insert]
            rfl
          · rw [AList.lookup_insert_ne hn, AList.lookup_insert_ne hn, hout n]

theorem validateDir_carried (host : Host σ) (fs : σ) (text : Jobs.Step → String)
    (recordDir : Option String) :
    (∃ e, host.validateDir fs recordDir = (.error e, host.afterDir fs recordDir) ∧
      recordDir.mapM (DialF.Daemon.validateRecordDir (host.env fs recordDir text)) = .error e) ∨
    ∃ dir, host.validateDir fs recordDir = (.ok dir, host.afterDir fs recordDir) ∧
      recordDir.mapM (DialF.Daemon.validateRecordDir (host.env fs recordDir text)) = .ok dir := by
  cases recordDir with
  | none => exact .inr ⟨none, rfl, rfl⟩
  | some dir =>
      rw [Option.mapM_some, validateDir, validateRecordDir, DialF.Daemon.validateRecordDir,
        afterDir]
      cases isRelativePath dir.toList with
      | true => exact .inl ⟨_, rfl, rfl⟩
      | false =>
          simp only [env]
          rcases host.createDirAll dir fs with ⟨_ | u, fs'⟩
          · exact .inl ⟨_, rfl, rfl⟩
          · exact .inr ⟨_, rfl, rfl⟩

/-- **Setting overrides is what it is among the layers**: the same answer, and the same store. -/
theorem set_carried {s : StoredOverrides × σ} {carried : RuntimeOverrides} (req : SetRequest)
    (h' : s.1.Carried text carried) :
    (∀ e t, host.set s req = (.error e, t) →
      carried.set (host.env s.2 req.recordDir text) req.recordDir
        (req.autoanswer.map fun map => map.entries.map fun e => (e.1, e.2)) = .error e) ∧
    ∀ t, host.set s req = (.ok (), t) →
      ∃ carried', carried.set (host.env s.2 req.recordDir text) req.recordDir
          (req.autoanswer.map fun map => map.entries.map fun e => (e.1, e.2)) = .ok carried' ∧
        t.1.Carried text carried' := by
  rw [set, RuntimeOverrides.set, Option.isNone_map]
  by_cases hnamed : req.recordDir = none ∧ req.autoanswer.isNone
  · rw [if_pos hnamed, if_pos hnamed]
    exact ⟨fun e t h => congrArg Except.error (Except.error.inj (Prod.mk.inj h).1),
      fun t h => absurd (Prod.mk.inj h).1 (by simp)⟩
  · rw [if_neg hnamed, if_neg hnamed]
    rcases validateDir_carried host s.2 text req.recordDir with
      ⟨e, hdir, hdir'⟩ | ⟨dir, hdir, hdir'⟩
    · rw [hdir, hdir']
      exact ⟨fun e t h => congrArg Except.error (Except.error.inj (Prod.mk.inj h).1),
      fun t h => absurd (Prod.mk.inj h).1 (by simp)⟩
    · rw [hdir, hdir']
      cases hmap : req.autoanswer with
      | none =>
          refine ⟨fun e t h => absurd (Prod.mk.inj h).1 (by simp), fun t h => ?_⟩
          obtain rfl := (Prod.mk.inj h).2
          exact ⟨_, rfl, by rw [h'.recordDir], h'.isSome, h'.lookup⟩
      | some map =>
          obtain ⟨herror, hok⟩ := validateAutoanswer_inbound host s.2
            text req.recordDir map.entries ∅ ∅ fun n => rfl
          simp only [Option.mapM_some, Option.map_some]
          cases hjobs : host.validateAutoanswer (host.afterDir s.2 req.recordDir) map.entries ∅ with
          | error e =>
              rw [herror e hjobs]
              exact ⟨fun e t h => congrArg Except.error (Except.error.inj (Prod.mk.inj h).1),
                fun t h => absurd (Prod.mk.inj h).1 (by simp)⟩
          | ok jobs =>
              obtain ⟨jobs', hjobs', hlookup⟩ := hok jobs hjobs
              rw [hjobs']
              refine ⟨fun e t h => absurd (Prod.mk.inj h).1 (by simp), fun t h => ?_⟩
              obtain rfl := (Prod.mk.inj h).2
              refine ⟨_, rfl, by rw [h'.recordDir], rfl, ?_⟩
              rintro _ _ ⟨⟩ ⟨⟩
              exact hlookup

end Host

/-! ## Runs -/

/-- What happens to the overrides, and to the file system by others. -/
inductive OverrideLabel (σ : Type) where
  | set (req : SetRequest)
  | clear (recordDir autoanswer : Bool)
  | disk (fs : σ)

/-- The overrides of a daemon, from its start on. -/
def overrideMachine {σ : Type} (host : Host σ) :
    Machine (StoredOverrides × σ) (OverrideLabel σ) where
  Init s := s.1 = ⟨none, none⟩
  step s
    | .set req => some (host.set s req).2
    | .clear recordDir autoanswer => some (s.1.clear recordDir autoanswer, s.2)
    | .disk fs => some (s.1, fs)

/-- No inline job plays a relative path. -/
def StoredOverrides.Sound (ovr : StoredOverrides) : Prop :=
  ∀ jobs, ovr.autoanswer = some jobs →
    ∀ number steps, jobs.lookup number = some (.steps steps) → NoRelativePlay steps

section Runs

variable {σ : Type} {host : Host σ}

theorem Host.noRelativePlay_of_acceptable {fs : σ} {number : String}
    {value : Option AutoanswerValue} {steps : List Jobs.Step}
    (h : host.Acceptable fs number value) (hjob : host.job value = .steps steps) :
    NoRelativePlay steps := by
  obtain ⟨-, h⟩ := h
  cases value with
  | none => exact nomatch hjob
  | some value =>
      cases value with
      | path p => exact nomatch hjob
      | steps steps' =>
          obtain rfl := StoredJob.steps.inj hjob
          exact h
      | yaml yaml =>
          obtain ⟨steps', hparse, hplay⟩ := h
          have hsteps : host.job (some (.yaml yaml)) = .steps steps' := by simp [Host.job, hparse]
          obtain rfl := StoredJob.steps.inj (hsteps.symm.trans hjob)
          exact hplay

theorem sound_set (s : StoredOverrides × σ) (req : SetRequest) (h : s.1.Sound) :
    (host.set s req).2.1.Sound := by
  by_cases hnamed : req.recordDir = none ∧ req.autoanswer.isNone
  · rw [Host.set, if_pos hnamed]
    exact h
  · rcases Host.set_spec host s req hnamed with
      ⟨-, e, hset⟩ | ⟨-, ⟨map, -, -, e, hset⟩ | ⟨hall, stored, hsome, hjobs, hset⟩⟩
    · rw [hset]
      exact h
    · rw [hset]
      exact h
    · rw [hset]
      intro jobs hstored number steps hlookup
      cases hmap : req.autoanswer with
      | none =>
          rw [hmap, Option.isSome_none, Option.isSome_eq_false_iff, Option.isNone_iff_eq_none]
            at hsome
          subst hsome
          exact h jobs hstored number steps hlookup
      | some map =>
          rw [hmap, Option.isSome_some, Option.isSome_iff_exists] at hsome
          obtain ⟨jobs', rfl⟩ := hsome
          obtain rfl : jobs' = jobs := Option.some.inj hstored
          rw [hjobs map hmap jobs' rfl number] at hlookup
          obtain ⟨value, hvalue, hjob⟩ := Option.map_eq_some_iff.1 hlookup
          have hmem := AList.mem_lookup_iff.1 hvalue
          exact Host.noRelativePlay_of_acceptable (hall map hmap _ hmem) hjob

theorem sound_step (s : StoredOverrides × σ) (a : OverrideLabel σ) (t : StoredOverrides × σ)
    (h : s.1.Sound) (hstep : (overrideMachine host).step s a = some t) : t.1.Sound := by
  cases a with
  | set req =>
      obtain rfl := Option.some.inj hstep
      exact sound_set s req h
  | clear recordDir autoanswer =>
      obtain rfl := Option.some.inj hstep
      intro jobs hjobs
      simp only [StoredOverrides.clear] at hjobs
      split at hjobs
      · exact nomatch hjobs
      · exact h jobs hjobs
  | disk fs =>
      obtain rfl := Option.some.inj hstep
      exact h

/-- **Setting overrides.** A request is all or nothing exactly where creating its directory is
harmless, and no inline job that is ever in the store plays a relative path. -/
theorem overrideSet_meets_iff (host : Host σ) :
    (∀ s req, host.MeetsSet s req ↔ host.Harmless s.2 req) ∧
      ∀ fs as s, (overrideMachine host).run (⟨none, none⟩, fs) as = some s → s.1.Sound := by
  refine ⟨Host.meetsSet_iff_harmless, fun fs as s hrun => ?_⟩
  have hstart : StoredOverrides.Sound ⟨none, none⟩ := fun jobs hjobs => nomatch hjobs
  exact Machine.run_invariant (P := fun s => s.1.Sound) sound_step hstart hrun

/-- A host of which nothing but its directories is known, and no file can be read. -/
def dirsHost : Host (List String) where
  createDirAll dir dirs := (.ok (), if dir ∈ dirs then dirs else dir :: dirs)
  readToString _ _ := .error "No such file or directory"
  parse _ := .error "empty job"

/-- A directory that is created, and an entry with nothing to read. -/
def unreadableJob : SetRequest :=
  ⟨some "/rec", some (AList.singleton "100" (some (.path "/job.yaml")))⟩

/-- The request is rejected, and its directory stays. -/
theorem not_meetsSet_unreadableJob :
    dirsHost.set (⟨none, none⟩, []) unreadableJob =
      (.error "autoanswer 100: read job file /job.yaml: No such file or directory", ⟨none, none⟩,
        ["/rec"]) ∧
    ¬ dirsHost.MeetsSet (⟨none, none⟩, []) unreadableJob := by
  have hset : dirsHost.set (⟨none, none⟩, []) unreadableJob =
      (.error "autoanswer 100: read job file /job.yaml: No such file or directory", ⟨none, none⟩,
        ["/rec"]) := rfl
  refine ⟨hset, fun hmeets => ?_⟩
  exact absurd (congrArg Prod.snd (hmeets.rejected _ _ hset)) (by decide)

/-- The directory, and then the same job without a directory. -/
theorem overrideSet_meets_iff_unreadableJob :
    dirsHost.MeetsSet (⟨none, none⟩, ["/rec"]) unreadableJob ∧
      (overrideMachine dirsHost).run (⟨none, none⟩, ["/rec"]) [.set unreadableJob] =
        some (⟨none, none⟩, ["/rec"]) ∧ StoredOverrides.Sound ⟨none, none⟩ := by
  have hrun : (overrideMachine dirsHost).run (⟨none, none⟩, ["/rec"]) [.set unreadableJob] =
      some (⟨none, none⟩, ["/rec"]) := rfl
  refine ⟨((overrideSet_meets_iff dirsHost).1 _ _).2 ?_, hrun,
    (overrideSet_meets_iff dirsHost).2 _ _ _ hrun⟩
  rintro _ ⟨⟩ -
  exact .inl rfl

end Runs

end DialF.Daemon
