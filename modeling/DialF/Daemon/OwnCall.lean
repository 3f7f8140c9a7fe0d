import DialF.Lib.Machine
import DialF.Daemon.PhoneJob

/-!
# A job and the calls of its device

Phones send `call_state` frames about any number of calls; a job dials, answers, hangs up and polls.
The machine adds to the registry and the job what neither of them records: which call the job
dialled or answered (`own`), and whether it has been reported ended since (`ownEnded`).

The slot that a job polls is cleared by the end of any call, so a job may take another call's end
for its own. `truthful_along_iff` says that it does so for no other reason.
-/

set_option autoImplicit false

namespace DialF.Daemon

open DialF.Lib

/-- The registry, a job, and the history of the job's call. -/
structure OwnCall where
  registry : Registry
  job : PhoneJobIo
  own : Option String
  ownEnded : Bool

/-- One step of a phone or of the job. A record goes when its connection is torn down or reaped. -/
inductive CallLabel where
  | frame (device : String) (nowMs : Int) (report : CallReport)
  | heartbeat (device : String) (nowMs : Int)
  | gone (device : String)
  | dial (now : Nat) (number : String) (own : String)
  | answer (own : String)
  | hangup (now : Nat)
  | callEnded (now : Nat)

namespace OwnCall

/-- A job that starts on a device, an inbound one with the call that has been answered for it. -/
def start (registry : Registry) (device : String) (call : Option String) (now : Nat) : OwnCall where
  registry := registry
  job := .new device call.isSome now
  own := call
  ownEnded := false

/-- What one step does to the job and to what is remembered of its own call. -/
def step (s : OwnCall) : CallLabel → Option OwnCall
  | .frame device nowMs report =>
      some { s with
        registry := s.registry.onCallState device nowMs report
        ownEnded := s.ownEnded ||
          decide (device = s.job.deviceId ∧ report.state = .ended ∧
            s.own = some report.callId) }
  | .heartbeat device nowMs => some { s with registry := s.registry.onHeartbeat device nowMs }
  | .gone device => some { s with registry := s.registry.remove device }
  | .dial now number own =>
      some { s with job := (s.job.dial now number).1, own := some own, ownEnded := false }
  | .answer own => some { s with job := s.job.answer.1, own := some own, ownEnded := false }
  | .hangup now => some { s with job := (s.job.hangup now).1 }
  | .callEnded now => some { s with job := (s.job.callEnded now s.registry).1 }

/-- All runs of a job's calls, from any registry. -/
def machine : Machine OwnCall CallLabel where
  Init s := ∃ registry device call now, s = start registry device call now
  step := step

/-- What `call_ended` says is about the job's own call: it is true only when that call has been
reported ended or the device is gone. -/
def Truthful (s : OwnCall) : Prop :=
  ∀ now, (s.job.callEnded now s.registry).2 = true →
    s.ownEnded = true ∨ s.registry.get s.job.deviceId = none

/-- The job watches its call: it is in it, has seen the slot active, and the call has not been
reported ended. -/
def Watching (s : OwnCall) : Prop :=
  s.job.inCall = true ∧ s.job.sawActive = true ∧ s.ownEnded = false

/-- A step that does not clear the slot under a watching job for the end of another call. -/
def SparesSlot (s : OwnCall) : CallLabel → Prop
  | .frame device _ report =>
      device = s.job.deviceId → s.registry.get device ≠ none → report.state = .ended →
        s.own ≠ some report.callId → ¬ Watching s
  | _ => True

variable {s t : OwnCall}

/-- A truthful state, in terms of the slot. -/
theorem truthful_iff :
    Truthful s ↔
      (Watching s → s.registry.currentCall s.job.deviceId = none →
        s.registry.get s.job.deviceId = none) := by
  simp only [Truthful, PhoneJobIo.callEnded_eq_true]
  constructor
  · rintro h ⟨hin, hsaw, hnot⟩ hnone
    rcases h 0 ⟨hin, hsaw, hnone⟩ with hended | hgone
    · rw [hended] at hnot
      exact absurd hnot (by simp)
    · exact hgone
  · rintro h - ⟨hin, hsaw, hnone⟩
    cases hended : s.ownEnded with
    | true => exact Or.inl rfl
    | false => exact Or.inr (h ⟨hin, hsaw, hended⟩ hnone)

/-- A job that watches nothing is truthful. -/
theorem truthful_of_not_watching (h : ¬ Watching s) : Truthful s :=
  truthful_iff.2 fun hw => absurd hw h

/-- The step lemma for frames of the job's device. -/
theorem truthful_frame_self {nowMs : Int} {report : CallReport}
    (h : s.step (.frame s.job.deviceId nowMs report) = some t) :
    Truthful t ↔ SparesSlot s (.frame s.job.deviceId nowMs report) := by
  obtain rfl := Option.some.inj h
  rw [truthful_iff]
  by_cases hdev : s.registry.get s.job.deviceId = none
  · -- without a record the frame is lost, and the device is gone
    refine iff_of_true ?_ ?_
    · intro _ _
      exact Registry.get_onCallState_eq_none.2 hdev
    · intro _ hrecord
      exact absurd hdev hrecord
  · simp only [SparesSlot, Watching, Registry.currentCall_onCallState hdev,
      Registry.get_onCallState_eq_none, Registry.slot_eq_none, hdev]
    constructor
    · rintro h - - hended hother ⟨hin, hsaw, hnot⟩
      refine h ⟨hin, hsaw, ?_⟩ hended
      simp [hnot, hother]
    · rintro h ⟨hin, hsaw, hnot⟩ hended
      simp only [Bool.or_eq_false_iff, decide_eq_false_iff_not, true_and, hended] at hnot
      exact h trivial hdev hended hnot.2 ⟨hin, hsaw, hnot.1⟩

/-- **A step keeps `call_ended` truthful exactly when it spares the slot.** -/
theorem truthful_iff_of_step {a : CallLabel} (hs : Truthful s) (h : s.step a = some t) :
    Truthful t ↔ SparesSlot s a := by
  cases a with
  | frame device nowMs report =>
      by_cases hdevice : device = s.job.deviceId
      · subst hdevice
        exact truthful_frame_self h
      · refine iff_of_true ?_ fun heq => absurd heq hdevice
        obtain rfl := Option.some.inj h
        rw [truthful_iff] at hs ⊢
        simpa [Watching, hdevice, Registry.get_onCallState_eq_none,
          Registry.currentCall_onCallState_of_ne (Ne.symm hdevice)] using hs
  | heartbeat device nowMs =>
      refine iff_of_true ?_ trivial
      obtain rfl := Option.some.inj h
      rw [truthful_iff] at hs ⊢
      simpa [Watching] using hs
  | gone device =>
      refine iff_of_true ?_ trivial
      obtain rfl := Option.some.inj h
      rw [truthful_iff] at hs ⊢
      by_cases hdevice : s.job.deviceId = device
      · subst hdevice
        intro _ _
        exact Registry.get_remove
      · simpa [Watching, Registry.get_remove_of_ne hdevice,
          Registry.currentCall_remove_of_ne hdevice] using hs
  | dial now number own =>
      refine iff_of_true (truthful_of_not_watching ?_) trivial
      obtain rfl := Option.some.inj h
      rintro ⟨-, hsaw, -⟩
      simp [PhoneJobIo.dial] at hsaw
  | answer own =>
      refine iff_of_true (truthful_of_not_watching ?_) trivial
      obtain rfl := Option.some.inj h
      rintro ⟨-, hsaw, -⟩
      simp [PhoneJobIo.answer] at hsaw
  | hangup now =>
      refine iff_of_true (truthful_of_not_watching ?_) trivial
      obtain rfl := Option.some.inj h
      rintro ⟨-, hsaw, -⟩
      simp [PhoneJobIo.hangup] at hsaw
  | callEnded now =>
      refine iff_of_true ?_ trivial
      obtain rfl := Option.some.inj h
      intro later hended
      exact hs now (PhoneJobIo.callEnded_callEnded.1 hended)

theorem truthful_start (registry : Registry) (device : String) (call : Option String) (now : Nat) :
    Truthful (start registry device call now) := by
  apply truthful_of_not_watching
  rintro ⟨-, hsaw, -⟩
  simp [start, PhoneJobIo.new] at hsaw

/-- **`call_ended` speaks about the job's own call in the runs that spare its slot, and in no
others.** -/
theorem truthful_along_iff (registry : Registry) (device : String) (call : Option String)
    (now : Nat) (as : List CallLabel) :
    machine.Along Truthful (start registry device call now) as ↔
      machine.Meets SparesSlot (start registry device call now) as := by
  refine Machine.along_iff_meets (I := fun _ => True) (fun _ _ _ _ _ => trivial) ?_ trivial
    (truthful_start registry device call now) as
  intro s a t _ hs h
  exact truthful_iff_of_step hs h

/-- Call waiting: a second call rings and ends while the job's own is up. -/
theorem exists_not_truthful :
    ∃ t, machine.run
        (start ⟨AList.singleton "p" ⟨"p", "phone", none, 0, none⟩⟩ "p" none 0)
        [.dial 0 "100" "a", .frame "p" 1 ⟨"a", .active, some "100", .outgoing⟩, .callEnded 1,
          .frame "p" 2 ⟨"b", .ringing, some "200", .incoming⟩,
          .frame "p" 3 ⟨"b", .ended, some "200", .incoming⟩] = some t ∧
      ¬ Truthful t := by
  refine ⟨_, rfl, fun htruthful => ?_⟩
  rcases htruthful 4 (by decide) with hended | hgone
  · exact absurd hended (by decide)
  · exact absurd hgone (by decide)

end OwnCall

end DialF.Daemon
