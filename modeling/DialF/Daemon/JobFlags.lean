import DialF.Lib.Machine

/-!
# The flags that stop a job

The daemon keeps one flag that says whether a job holds the sound card, and three that ask the
running job to stop: `job_cancel` and `job_force`, which `job.cancel` sets, and `job_abort`, which a
relaunched phone app sets. A starting job clears the flags it looks at, after it has acquired the
card; an auto-answer job answers the call and loads its file in between.

A job that runs is answerable for every abort, and if it was started by `job.run` for every cancel,
that was processed since it acquired the card (`Heeds`). What the start-up has wiped is lost;
`heeds_along_iff` says that nothing else is.
-/

set_option autoImplicit false

namespace DialF.Daemon

open DialF.Lib

/-- How a job was started. -/
inductive JobKind where
  | run
  | autoAnswer
  deriving DecidableEq

/-- How far the start of a job has come. -/
inductive JobPhase where
  | acquired
  | answered
  | loaded
  | cancelCleared
  | forceCleared
  | running
  deriving DecidableEq

/-- The job that holds the card. `aborted` and `cancelRequested` remember what has been processed
since it acquired the card. -/
structure Holder where
  kind : JobKind
  phase : JobPhase
  aborted : Bool
  cancelRequested : Bool
  deriving DecidableEq

/-- The flags, the job that holds the card, and the handlers between two of their steps: relaunched
apps that have found the card busy, and forced cancels that have set `job_force`. -/
structure JobFlags where
  cardBusy : Bool
  jobCancel : Bool
  jobForce : Bool
  jobAbort : Bool
  holder : Option Holder
  aborting : Nat
  cancelling : Nat
  deriving DecidableEq

/-- One access to the flags. -/
inductive FlagLabel where
  | acquire (kind : JobKind)
  | answer
  | load
  | clearCancel
  | clearForce
  | clearAbort
  | release
  | relaunch
  | abort
  | cancel (force : Bool)
  | forcedCancel
  deriving DecidableEq

namespace JobFlags

/-- A daemon that has just started. -/
def start : JobFlags := ⟨false, false, false, false, none, 0, 0⟩

/-- `PhoneJobIo::cancelled`: an auto-answer job has a cancel and a force flag of its own, which
nothing sets. -/
def cancelled (s : JobFlags) : JobKind → Bool
  | .run => s.jobCancel || s.jobForce || s.jobAbort
  | .autoAnswer => false || false || s.jobAbort

/-- `acquire_card`. -/
def acquireCard (s : JobFlags) (kind : JobKind) : Option JobFlags :=
  if s.cardBusy then none
  else some { s with cardBusy := true, holder := some ⟨kind, .acquired, false, false⟩ }

/-- The store of `job_abort` by the handler of a relaunched app. -/
def storeAbort (s : JobFlags) : JobFlags :=
  { s with jobAbort := true, holder := s.holder.map fun h => { h with aborted := true } }

/-- The store of `job_cancel` by the handler of `job.cancel`. -/
def storeCancel (s : JobFlags) : JobFlags :=
  { s with jobCancel := true, holder := s.holder.map fun h => { h with cancelRequested := true } }

/-- The job that holds the card moves on, if it is where the step begins. -/
def advance (s : JobFlags) (kind : JobKind) (old new : JobPhase) (flags : JobFlags → JobFlags) :
    Option JobFlags :=
  match s.holder with
  | some h =>
      if h.kind = kind ∧ h.phase = old then
        some { flags s with holder := some { h with phase := new } }
      else none
  | none => none

/-- The phases in which a job may end: an auto-answer job also ends when the phone does not answer
and when its file cannot be loaded. -/
def mayEnd (h : Holder) : Bool :=
  match h.kind, h.phase with
  | _, .running => true
  | .autoAnswer, .acquired => true
  | .autoAnswer, .answered => true
  | _, _ => false

/-- What one step does to the flags, where it can be taken. -/
def step (s : JobFlags) : FlagLabel → Option JobFlags
  | .acquire kind => s.acquireCard kind
  | .answer => s.advance .autoAnswer .acquired .answered id
  | .load => s.advance .autoAnswer .answered .loaded id
  | .clearCancel =>
      s.advance .run .acquired .cancelCleared fun s => { s with jobCancel := false }
  | .clearForce =>
      s.advance .run .cancelCleared .forceCleared fun s => { s with jobForce := false }
  -- the last of the three for `job.run`, the only one for an auto-answer job
  | .clearAbort =>
      (s.advance .run .forceCleared .running fun s => { s with jobAbort := false }).or
        (s.advance .autoAnswer .loaded .running fun s => { s with jobAbort := false })
  | .release =>
      match s.holder with
      | some h => if mayEnd h then some { s with cardBusy := false, holder := none } else none
      | none => none
  -- the card is looked at here, and the flag is stored by `abort`
  | .relaunch => some (if s.cardBusy then { s with aborting := s.aborting + 1 } else s)
  | .abort => if 0 < s.aborting then some { s.storeAbort with aborting := s.aborting - 1 } else none
  | .cancel force =>
      some (if force then { s with jobForce := true, cancelling := s.cancelling + 1 }
        else s.storeCancel)
  | .forcedCancel =>
      if 0 < s.cancelling then some { s.storeCancel with cancelling := s.cancelling - 1 } else none

/-- The flags as a machine. -/
def machine : Machine JobFlags FlagLabel where
  Init s := s = start
  step := step

/-- The job has been asked to stop: by an abort, or for `job.run` by a cancel. -/
def Asked (h : Holder) : Prop :=
  h.aborted = true ∨ h.kind = .run ∧ h.cancelRequested = true

/-- A running job that has been asked to stop finds itself cancelled. -/
def Heeds (s : JobFlags) : Prop :=
  ∀ h, s.holder = some h → h.phase = .running → Asked h → s.cancelled h.kind = true

/-- A step that wipes nothing out: when the start-up of a job clears the abort flag, nothing has
been asked of the job yet, but for a `job.run` whose cancel or force flag stands. -/
def Spares (s : JobFlags) : FlagLabel → Prop
  | .clearAbort =>
      ∀ h, s.holder = some h → Asked h →
        h.kind = .run ∧ (s.jobCancel = true ∨ s.jobForce = true)
  | _ => True

variable {s t : JobFlags}

theorem advance_eq_some {kind : JobKind} {old new : JobPhase} {flags : JobFlags → JobFlags}
    (h : s.advance kind old new flags = some t) :
    ∃ job, s.holder = some job ∧ job.kind = kind ∧ job.phase = old ∧
      t = { flags s with holder := some { job with phase := new } } := by
  unfold advance at h
  split at h
  · rename_i job hjob
    split at h
    · rename_i hwhere
      exact ⟨job, hjob, hwhere.1, hwhere.2, (Option.some.inj h).symm⟩
    · simp at h
  · simp at h

/-- A job that has not come to run yet is answerable for nothing. -/
theorem heeds_of_advance {kind : JobKind} {old new : JobPhase} {flags : JobFlags → JobFlags}
    (hnew : new ≠ .running) (h : s.advance kind old new flags = some t) : Heeds t := by
  obtain ⟨job, -, -, -, rfl⟩ := advance_eq_some h
  intro job' hjob' hrunning
  obtain rfl := Option.some.inj hjob'
  exact absurd hrunning hnew

/-- The last reset leaves of the flags what `Spares` asks for. -/
theorem heeds_iff_of_clearAbort {kind : JobKind} {old : JobPhase}
    (h : (s.advance kind old .running fun s => { s with jobAbort := false }) = some t) :
    Heeds t ↔ Spares s .clearAbort := by
  obtain ⟨job, hjob, rfl, -, rfl⟩ := advance_eq_some h
  constructor
  · intro hheeds job' hjob' hasked
    obtain rfl : job = job' := Option.some.inj (hjob.symm.trans hjob')
    -- what is left to cancel the job by are the flags that this reset leaves
    have hcancelled := hheeds _ rfl rfl hasked
    cases hkind : job.kind with
    | run =>
        refine ⟨rfl, ?_⟩
        simpa [cancelled, hkind] using hcancelled
    | autoAnswer => simp [cancelled, hkind] at hcancelled
  · intro hspares job' hjob' _ hasked
    obtain rfl := Option.some.inj hjob'
    obtain ⟨hkind, hflags⟩ := hspares job hjob hasked
    simpa [cancelled, hkind] using hflags

theorem heeds_storeAbort (s : JobFlags) : Heeds s.storeAbort := by
  intro job hjob _ _
  cases hkind : job.kind <;> simp [storeAbort, cancelled]

/-- A cancel concerns a job started by `job.run` only. -/
theorem heeds_storeCancel (hs : Heeds s) : Heeds s.storeCancel := by
  intro job hjob hrunning hasked
  cases hkind : job.kind with
  | run => simp [storeCancel, cancelled]
  | autoAnswer =>
      cases hold : s.holder with
      | none => simp [storeCancel, hold] at hjob
      | some old =>
          simp only [storeCancel, hold, Option.map_some, Option.some.injEq] at hjob
          subst hjob
          -- an auto-answer job is asked by an abort only
          have haborted : old.aborted = true := by
            rcases hasked with h | ⟨h, -⟩
            · exact h
            · rw [hkind] at h
              exact absurd h (by simp)
          have hheeds := hs old hold hrunning (Or.inl haborted)
          rw [show old.kind = .autoAnswer from hkind] at hheeds
          exact hheeds

/-- **A step leaves a job heedful exactly when it spares what has been asked.** -/
theorem heeds_iff_of_step {a : FlagLabel} (hs : Heeds s) (h : s.step a = some t) :
    Heeds t ↔ Spares s a := by
  cases a with
  | acquire kind =>
      refine iff_of_true ?_ trivial
      simp only [step, acquireCard] at h
      split at h
      · simp at h
      · obtain rfl := Option.some.inj h
        intro job hjob hrunning
        obtain rfl := Option.some.inj hjob
        exact absurd hrunning (by simp)
  | answer => exact iff_of_true (heeds_of_advance (by simp) h) trivial
  | load => exact iff_of_true (heeds_of_advance (by simp) h) trivial
  | clearCancel =>
      simp only [step] at h
      exact iff_of_true (heeds_of_advance (by simp) h) trivial
  | clearForce =>
      simp only [step] at h
      exact iff_of_true (heeds_of_advance (by simp) h) trivial
  | clearAbort =>
      rcases Option.or_eq_some_iff.1 h with h | ⟨-, h⟩
      · exact heeds_iff_of_clearAbort h
      · exact heeds_iff_of_clearAbort h
  | release =>
      refine iff_of_true ?_ trivial
      simp only [step] at h
      split at h
      · split at h
        · obtain rfl := Option.some.inj h
          intro job hjob
          simp at hjob
        · simp at h
      · simp at h
  | relaunch =>
      refine iff_of_true ?_ trivial
      simp only [step] at h
      obtain rfl := Option.some.inj h
      split
      · exact hs
      · exact hs
  | abort =>
      refine iff_of_true ?_ trivial
      simp only [step] at h
      split at h
      · obtain rfl := Option.some.inj h
        exact heeds_storeAbort s
      · simp at h
  | cancel force =>
      refine iff_of_true ?_ trivial
      simp only [step] at h
      obtain rfl := Option.some.inj h
      cases force with
      | false => exact heeds_storeCancel hs
      | true =>
          intro job hjob hrunning hasked
          have hold := hs job hjob hrunning hasked
          cases hkind : job.kind with
          | run => simp [cancelled]
          | autoAnswer =>
              rw [hkind] at hold
              exact hold
  | forcedCancel =>
      refine iff_of_true ?_ trivial
      simp only [step] at h
      split at h
      · obtain rfl := Option.some.inj h
        exact heeds_storeCancel hs
      · simp at h

/-- **A job heeds what it is asked in the runs whose start-ups spare it, and in no others.** -/
theorem heeds_along_iff (as : List FlagLabel) :
    machine.Along Heeds start as ↔ machine.Meets Spares start as := by
  refine Machine.along_iff_meets (I := fun _ => True) (fun _ _ _ _ _ => trivial) ?_ trivial ?_ as
  · intro s a t _ hs h
    exact heeds_iff_of_step hs h
  · intro job hjob
    simp [start] at hjob

/-- An abort between a job's acquiring the card and its clearing the flag. -/
theorem exists_not_heeds :
    ∃ t, machine.run start
        [.acquire .autoAnswer, .relaunch, .abort, .answer, .load, .clearAbort] = some t ∧
      ¬ Heeds t := by
  refine ⟨_, rfl, fun hheeds => ?_⟩
  exact absurd (hheeds _ rfl rfl (Or.inl rfl)) (by decide)

end JobFlags

end DialF.Daemon
