import DialF.Lib.Machine
import DialF.Daemon.PhoneServer

/-!
# Plain reconnects under a running job

A job drives a phone whose app stays the same process (`inst`) and whose call (`own`) stays up,
while the phone's connections drop and are replaced: handlers greet, register, serve and tear down
in any order, frames of several sockets are still being read, the reaper passes, and other phones do
what they like. The daemon promises that such a blip is not taken for the end of the call.

`undisturbed_along_iff` gives the runs in which it is not. The job is lost when its call is taken
off the record it polls: by a teardown that still found itself current, by the record of a
connection that had read no call to carry over, by the reaper, or by the end of another call.
-/

set_option autoImplicit false

namespace DialF.Daemon

open DialF.Lib

/-- The daemon, its handlers in the order of their hellos, the devices that the reaper has still to
drop from the hub, and a job. -/
structure Reconnect where
  daemon : DaemonState
  handlers : List Handler
  reaped : List String
  job : PhoneJobIo

/-- What can happen at the daemon's end of the phones' connections. -/
inductive ReconnectLabel where
  | hello (hello : Hello)
  | advance (i : Nat) (nowMs : Int)
  | heartbeat (i : Nat) (nowMs : Int)
  | callState (i : Nat) (nowMs : Int) (report : CallReport)
  | stop (i : Nat)
  | reap (nowMs : Int)
  | dropReaped
  | setBusy (busy : Bool)
  | dial (now : Nat) (number : String)
  | answer
  | hangup (now : Nat)
  | callEnded (now : Nat)

namespace Reconnect

/-- A daemon that has just started, and the job that will run on the device. -/
def start (device : String) (inbound : Bool) (now : Nat) : Reconnect :=
  ⟨.start, [], [], .new device inbound now⟩

/-- A frame that a serving handler reads. -/
def read (s : Reconnect) (i : Nat) (f : Hello → Registry → Registry) : Option Reconnect :=
  match s.handlers[i]? with
  | some h =>
      if h.isServing then
        some { s with daemon := { s.daemon with registry := f h.hello s.daemon.registry } }
      else none
  | none => none

/-- What stays as it is on the phone: the app's process, and the job's call. -/
def SamePhone (inst own : String) (s : Reconnect) : ReconnectLabel → Prop
  | .hello hello => hello.deviceId = s.job.deviceId → hello.instanceId = inst
  | .callState i _ report =>
      match s.handlers[i]? with
      | some h =>
          h.hello.deviceId = s.job.deviceId → report.callId = own → report.state ≠ .ended
      | none => True
  | _ => True

instance (inst own : String) (s : Reconnect) (a : ReconnectLabel) :
    Decidable (SamePhone inst own s a) := by
  unfold SamePhone
  split
  · infer_instance
  · split <;> infer_instance
  · infer_instance

/-- One step of the daemon. -/
def next (s : Reconnect) : ReconnectLabel → Option Reconnect
  | .hello hello => some { s with handlers := s.handlers ++ [⟨hello, .greeted⟩] }
  | .advance i nowMs =>
      match s.handlers[i]? with
      | some h =>
          match h.advance nowMs s.daemon with
          | some (h', daemon) =>
              some { s with daemon := daemon, handlers := s.handlers.set i h' }
          | none => none
      | none => none
  | .heartbeat i nowMs => s.read i fun hello reg => reg.onHeartbeat hello.deviceId nowMs
  | .callState i nowMs report =>
      s.read i fun hello reg => reg.onCallState hello.deviceId nowMs report
  | .stop i =>
      match (s.handlers[i]?).bind Handler.stop with
      | some h => some { s with handlers := s.handlers.set i h }
      | none => none
  -- the reaper looks at the registry once more when it has dropped what it found last time
  | .reap nowMs =>
      match s.reaped with
      | [] =>
          let (registry, ids) := s.daemon.registry.reapOlderThan (nowMs - staleAfterMs)
          some { s with daemon := { s.daemon with registry := registry }, reaped := ids }
      | _ :: _ => none
  -- in the order of the list, where the source's `HashMap` has none: dropping one device leaves the
  -- connections of all others as they are
  | .dropReaped =>
      match s.reaped with
      | id :: ids =>
          some { s with
            daemon := { s.daemon with hub := s.daemon.hub.dropDevice id }
            reaped := ids }
      | [] => none
  | .setBusy busy => some { s with daemon := { s.daemon with cardBusy := busy } }
  | .dial now number => some { s with job := (s.job.dial now number).1 }
  | .answer => some { s with job := s.job.answer.1 }
  | .hangup now => some { s with job := (s.job.hangup now).1 }
  | .callEnded now => some { s with job := (s.job.callEnded now s.daemon.registry).1 }

/-- The runs of one app process with its call up. -/
def machine (inst own : String) : Machine Reconnect ReconnectLabel where
  Init s := ∃ device inbound now, s = start device inbound now
  step s a := if SamePhone inst own s a then s.next a else none

/-- The job's call is not taken for ended, and the phone has not aborted the job. -/
def Undisturbed (s : Reconnect) : Prop :=
  (∀ now, (s.job.callEnded now s.daemon.registry).2 = false) ∧
    s.job.deviceId ∉ s.daemon.abortedBy

/-- The step takes the call of the job's device off its record. -/
def ClearsCall (s : Reconnect) : ReconnectLabel → Prop
  | .callState i _ report =>
      ∃ h, s.handlers[i]? = some h ∧ h.hello.deviceId = s.job.deviceId ∧ report.state = .ended
  | .advance i _ =>
      ∃ h, s.handlers[i]? = some h ∧ h.hello.deviceId = s.job.deviceId ∧ h.ClearsCall
  | .reap nowMs =>
      ∃ dev, s.daemon.registry.get s.job.deviceId = some dev ∧
        dev.lastSeenMs < nowMs - staleAfterMs
  | _ => False

/-- The call stays on the record while the job is in it and has seen it active. -/
def KeepsCall (s : Reconnect) (a : ReconnectLabel) : Prop :=
  s.ClearsCall a → ¬ (s.job.inCall = true ∧ s.job.sawActive = true)

/-- What the app's being one process leaves of the daemon: no handler of the device has found a
relaunch or will find one. -/
structure OneProcess (inst : String) (s : Reconnect) : Prop where
  seen : ∀ x, s.daemon.instances.lookup s.job.deviceId = some x → x = inst
  hello : ∀ h ∈ s.handlers, h.hello.deviceId = s.job.deviceId → h.hello.instanceId = inst
  compared : ∀ h ∈ s.handlers, h.hello.deviceId = s.job.deviceId → h.phase.relaunched = false
  aborted : s.job.deviceId ∉ s.daemon.abortedBy

variable {inst own : String} {s t : Reconnect} {a : ReconnectLabel}

theorem read_eq_some {i : Nat} {f : Hello → Registry → Registry} (h : s.read i f = some t) :
    ∃ handler, s.handlers[i]? = some handler ∧ handler.isServing = true ∧
      t = { s with
        daemon := { s.daemon with registry := f handler.hello s.daemon.registry } } := by
  simp only [read] at h
  split at h
  · rename_i handler hi
    split at h
    · rename_i hserving
      exact ⟨handler, hi, hserving, (Option.some.inj h).symm⟩
    · simp at h
  · simp at h

/-- What a handler's section leaves. -/
theorem next_advance_eq_some {i : Nat} {nowMs : Int} (h : s.next (.advance i nowMs) = some t) :
    ∃ handler handler' daemon, s.handlers[i]? = some handler ∧
      handler.advance nowMs s.daemon = some (handler', daemon) ∧
      t = { s with daemon := daemon, handlers := s.handlers.set i handler' } := by
  simp only [next] at h
  split at h
  · rename_i handler hi
    split at h
    · rename_i handler' daemon hadv
      exact ⟨handler, handler', daemon, hi, hadv, (Option.some.inj h).symm⟩
    · simp at h
  · simp at h

/-- What the end of a reader loop leaves. -/
theorem next_stop_eq_some {i : Nat} (h : s.next (.stop i) = some t) :
    ∃ hello gen, s.handlers[i]? = some ⟨hello, .serving gen⟩ ∧
      t = { s with handlers := s.handlers.set i ⟨hello, .stopped gen⟩ } := by
  simp only [next] at h
  split at h
  · rename_i handler' hstop
    obtain ⟨handler, hi, hstopped⟩ := Option.bind_eq_some_iff.1 hstop
    obtain ⟨gen, hserving, rfl⟩ := Handler.stop_eq_some hstopped
    exact ⟨handler.hello, gen, hserving ▸ hi, (Option.some.inj h).symm⟩
  · simp at h

theorem undisturbed_iff :
    Undisturbed s ↔
      (s.job.inCall = true → s.job.sawActive = true →
        s.daemon.registry.currentCall s.job.deviceId ≠ none) ∧
      s.job.deviceId ∉ s.daemon.abortedBy := by
  simp only [Undisturbed, ← Bool.not_eq_true, PhoneJobIo.callEnded_eq_true]
  constructor
  · rintro ⟨h, habort⟩
    exact ⟨fun hin hsaw hnone => h 0 ⟨hin, hsaw, hnone⟩, habort⟩
  · rintro ⟨h, habort⟩
    exact ⟨fun _ hcall => h hcall.1 hcall.2.1 hcall.2.2, habort⟩

/-! ## One process -/

theorem oneProcess_start (device : String) (inbound : Bool) (now : Nat) :
    OneProcess inst (start device inbound now) where
  seen := by
    intro x hx
    simp [start, DaemonState.start] at hx
  hello := by
    intro h hmem
    simp [start] at hmem
  compared := by
    intro h hmem
    simp [start] at hmem
  aborted := by simp [start, DaemonState.start]

/-- The app's instance is the one last seen of its device, or none has been seen. -/
theorem OneProcess.isRelaunch (hI : OneProcess inst s) {h : Handler} (hmem : h ∈ s.handlers)
    (hdev : h.hello.deviceId = s.job.deviceId) :
    Daemon.isRelaunch h.hello.instanceId (s.daemon.instances.lookup h.hello.deviceId) = false := by
  rw [hdev, hI.hello h hmem hdev]
  cases hseen : s.daemon.instances.lookup s.job.deviceId with
  | none => rfl
  | some x => simp [Daemon.isRelaunch, hI.seen x hseen]

theorem oneProcess_advance {i : Nat} {nowMs : Int} (hI : OneProcess inst s)
    (h : s.next (.advance i nowMs) = some t) : OneProcess inst t := by
  obtain ⟨handler, handler', daemon, hi, hadv, rfl⟩ := next_advance_eq_some h
  have hmem : handler ∈ s.handlers := List.mem_of_getElem? hi
  have hhello := Handler.advance_hello hadv
  refine ⟨?_, ?_, ?_, ?_⟩
  · intro x hx
    rcases Handler.advance_instances hadv with hsame | hinsert
    · rw [hsame] at hx
      exact hI.seen x hx
    · rw [hinsert] at hx
      by_cases hdev : handler.hello.deviceId = s.job.deviceId
      · rw [← hdev, AList.lookup_insert] at hx
        exact (Option.some.inj hx).symm.trans (hI.hello handler hmem hdev)
      · rw [AList.lookup_insert_ne (Ne.symm hdev)] at hx
        exact hI.seen x hx
  · intro other hother hdev
    rcases List.mem_or_eq_of_mem_set hother with hold | rfl
    · exact hI.hello other hold hdev
    · rw [hhello] at hdev ⊢
      exact hI.hello handler hmem hdev
  · intro other hother hdev
    rcases List.mem_or_eq_of_mem_set hother with hold | rfl
    · exact hI.compared other hold hdev
    · rw [hhello] at hdev
      exact Handler.advance_relaunched hadv (hI.isRelaunch hmem hdev)
        (hI.compared handler hmem hdev)
  · rcases Handler.advance_abortedBy hadv with hsame | ⟨hrelaunched, hmore⟩
    · rw [hsame]
      exact hI.aborted
    · rw [hmore]
      intro habort
      rcases List.mem_append.1 habort with hold | hnew
      · exact hI.aborted hold
      · have hdev := (List.mem_singleton.1 hnew).symm
        rw [hI.compared handler hmem hdev] at hrelaunched
        exact absurd hrelaunched (by simp)

theorem oneProcess_stop {i : Nat} (hI : OneProcess inst s) (h : s.next (.stop i) = some t) :
    OneProcess inst t := by
  obtain ⟨hello, gen, hi, rfl⟩ := next_stop_eq_some h
  have hserving : ⟨hello, .serving gen⟩ ∈ s.handlers := List.mem_of_getElem? hi
  refine ⟨hI.seen, ?_, ?_, hI.aborted⟩
  · intro other hother hdev
    rcases List.mem_or_eq_of_mem_set hother with hold | rfl
    · exact hI.hello other hold hdev
    · exact hI.hello ⟨hello, .serving gen⟩ hserving hdev
  · intro other hother hdev
    rcases List.mem_or_eq_of_mem_set hother with hold | rfl
    · exact hI.compared other hold hdev
    · rfl

/-- A frame touches neither the handlers nor what they remember of the app. -/
theorem oneProcess_read {i : Nat} {f : Hello → Registry → Registry} (hI : OneProcess inst s)
    (h : s.read i f = some t) : OneProcess inst t := by
  obtain ⟨handler, -, -, rfl⟩ := read_eq_some h
  exact ⟨hI.seen, hI.hello, hI.compared, hI.aborted⟩

theorem oneProcess_step (hI : OneProcess inst s) (hsame : SamePhone inst own s a)
    (h : s.next a = some t) : OneProcess inst t := by
  cases a with
  | hello hello =>
      obtain rfl := Option.some.inj h
      refine ⟨hI.seen, ?_, ?_, hI.aborted⟩
      · intro other hother hdev
        rcases List.mem_append.1 hother with hold | hnew
        · exact hI.hello other hold hdev
        · obtain rfl := List.mem_singleton.1 hnew
          exact hsame hdev
      · intro other hother hdev
        rcases List.mem_append.1 hother with hold | hnew
        · exact hI.compared other hold hdev
        · obtain rfl := List.mem_singleton.1 hnew
          rfl
  | advance i nowMs => exact oneProcess_advance hI h
  | heartbeat i nowMs | callState i nowMs report =>
      simp only [next] at h
      exact oneProcess_read hI h
  | stop i => exact oneProcess_stop hI h
  | reap nowMs =>
      simp only [next] at h
      split at h
      · obtain rfl := Option.some.inj h
        exact ⟨hI.seen, hI.hello, hI.compared, hI.aborted⟩
      · simp at h
  | dropReaped =>
      simp only [next] at h
      split at h
      · obtain rfl := Option.some.inj h
        exact ⟨hI.seen, hI.hello, hI.compared, hI.aborted⟩
      · simp at h
  | setBusy busy | dial now number | answer | hangup now | callEnded now =>
      obtain rfl := Option.some.inj h
      exact ⟨hI.seen, hI.hello, hI.compared, hI.aborted⟩

/-! ## The record the job polls -/

/-- Where a step leaves the job alone, all that matters is whether it takes the call off. -/
theorem undisturbed_iff_of_slot (hjob : t.job = s.job) (hI : OneProcess inst t)
    (hs : Undisturbed s)
    (hslot : s.daemon.registry.currentCall s.job.deviceId ≠ none →
      (t.daemon.registry.currentCall s.job.deviceId = none ↔ s.ClearsCall a)) :
    Undisturbed t ↔ s.KeepsCall a := by
  rw [undisturbed_iff] at hs ⊢
  rw [hjob]
  constructor
  · rintro ⟨hkept, -⟩ hclears ⟨hin, hsaw⟩
    exact hkept hin hsaw ((hslot (hs.1 hin hsaw)).2 hclears)
  · intro hkeeps
    refine ⟨fun hin hsaw hnone => ?_, by simpa [hjob] using hI.aborted⟩
    exact hkeeps ((hslot (hs.1 hin hsaw)).1 hnone) ⟨hin, hsaw⟩

/-- Where a step leaves the registry and the job alone, nothing happens to the job. -/
theorem undisturbed_of_same (hjob : t.job = s.job)
    (hregistry : t.daemon.registry = s.daemon.registry) (hI : OneProcess inst t)
    (hs : Undisturbed s) : Undisturbed t := by
  refine ⟨?_, hI.aborted⟩
  rw [hjob, hregistry]
  exact hs.1

theorem undisturbed_of_not_watching (hI : OneProcess inst s) (h : s.job.sawActive = false) :
    Undisturbed s := by
  rw [undisturbed_iff]
  refine ⟨fun _ hsaw => ?_, hI.aborted⟩
  rw [h] at hsaw
  exact absurd hsaw (by simp)

theorem currentCall_read {i : Nat} {nowMs : Int} {report : CallReport}
    (h : s.next (.callState i nowMs report) = some t)
    (hslot : s.daemon.registry.currentCall s.job.deviceId ≠ none) :
    t.daemon.registry.currentCall s.job.deviceId = none ↔
      s.ClearsCall (.callState i nowMs report) := by
  simp only [next] at h
  obtain ⟨handler, hi, -, rfl⟩ := read_eq_some h
  have hclears : s.ClearsCall (.callState i nowMs report) ↔
      handler.hello.deviceId = s.job.deviceId ∧ report.state = .ended := by
    simp [ClearsCall, hi]
  rw [hclears]
  by_cases hdev : handler.hello.deviceId = s.job.deviceId
  · have hrecord : s.daemon.registry.get s.job.deviceId ≠ none := by
      intro hnone
      simp [Registry.currentCall, hnone] at hslot
    simp only [hdev, Registry.currentCall_onCallState hrecord, Registry.slot_eq_none, true_and]
  · simp only [Registry.currentCall_onCallState_of_ne (Ne.symm hdev), hdev, false_and, iff_false]
    exact hslot

theorem currentCall_reap {nowMs : Int} (h : s.next (.reap nowMs) = some t)
    (hslot : s.daemon.registry.currentCall s.job.deviceId ≠ none) :
    t.daemon.registry.currentCall s.job.deviceId = none ↔ s.ClearsCall (.reap nowMs) := by
  simp only [next] at h
  split at h
  · obtain rfl := Option.some.inj h
    cases hget : s.daemon.registry.get s.job.deviceId with
    | none => simp [Registry.currentCall, hget] at hslot
    | some dev =>
        simp only [Registry.currentCall, hget, Option.bind_some] at hslot
        by_cases hold : dev.lastSeenMs < nowMs - staleAfterMs
        · refine iff_of_true ?_ ⟨dev, hget, hold⟩
          simp only [Registry.currentCall, Registry.get_reapOlderThan_of_stale hget hold]
          rfl
        · refine iff_of_false ?_ ?_
          · simp only [Registry.currentCall, Registry.get_reapOlderThan_of_seen hget hold]
            exact hslot
          · rintro ⟨other, hother, hstale⟩
            obtain rfl := Option.some.inj (hget.symm.trans hother)
            exact hold hstale
  · simp at h

theorem currentCall_advance {i : Nat} {nowMs : Int} (h : s.next (.advance i nowMs) = some t)
    (hslot : s.daemon.registry.currentCall s.job.deviceId ≠ none) :
    t.daemon.registry.currentCall s.job.deviceId = none ↔ s.ClearsCall (.advance i nowMs) := by
  obtain ⟨handler, handler', daemon, hi, hadv, rfl⟩ := next_advance_eq_some h
  rw [Handler.advance_currentCall hadv hslot]
  simp [ClearsCall, hi]

/-- **A step leaves the job undisturbed exactly when it keeps the job's call on its record.** -/
theorem undisturbed_iff_of_step (hI : OneProcess inst s) (hs : Undisturbed s)
    (hsame : SamePhone inst own s a) (h : s.next a = some t) :
    Undisturbed t ↔ s.KeepsCall a := by
  have hIt := oneProcess_step hI hsame h
  cases a with
  | hello hello =>
      obtain rfl := Option.some.inj h
      exact iff_of_true (undisturbed_of_same rfl rfl hIt hs) fun hclears => hclears.elim
  | advance i nowMs =>
      refine undisturbed_iff_of_slot ?_ hIt hs (currentCall_advance h)
      obtain ⟨handler, handler', daemon, -, -, rfl⟩ := next_advance_eq_some h
      rfl
  | heartbeat i nowMs =>
      simp only [next] at h
      obtain ⟨handler, -, -, rfl⟩ := read_eq_some h
      refine undisturbed_iff_of_slot rfl hIt hs fun hslot => ?_
      simpa [ClearsCall] using hslot
  | callState i nowMs report =>
      refine undisturbed_iff_of_slot ?_ hIt hs (currentCall_read h)
      simp only [next] at h
      obtain ⟨handler, -, -, rfl⟩ := read_eq_some h
      rfl
  | stop i =>
      obtain ⟨hello, gen, -, rfl⟩ := next_stop_eq_some h
      exact iff_of_true (undisturbed_of_same rfl rfl hIt hs) fun hclears => hclears.elim
  | reap nowMs =>
      refine undisturbed_iff_of_slot ?_ hIt hs (currentCall_reap h)
      simp only [next] at h
      split at h
      · exact (Option.some.inj h) ▸ rfl
      · simp at h
  | dropReaped =>
      refine iff_of_true ?_ fun hclears => hclears.elim
      simp only [next] at h
      split at h
      · exact undisturbed_of_same ((Option.some.inj h) ▸ rfl) ((Option.some.inj h) ▸ rfl) hIt hs
      · simp at h
  | setBusy busy =>
      obtain rfl := Option.some.inj h
      exact iff_of_true (undisturbed_of_same rfl rfl hIt hs) fun hclears => hclears.elim
  | dial now number | answer | hangup now =>
      refine iff_of_true (undisturbed_of_not_watching hIt ?_) fun hclears => hclears.elim
      obtain rfl := Option.some.inj h
      rfl
  | callEnded now =>
      refine iff_of_true ⟨?_, hIt.aborted⟩ fun hclears => hclears.elim
      obtain rfl := Option.some.inj h
      intro later
      rw [← Bool.not_eq_true]
      intro hended
      have hearlier := PhoneJobIo.callEnded_callEnded.1 hended
      rw [hs.1 now] at hearlier
      exact absurd hearlier (by simp)

/-- **A reconnect does not end the job's call in the runs that keep the call on its record, and in
no others.** -/
theorem undisturbed_along_iff (inst own device : String) (inbound : Bool) (now : Nat)
    (as : List ReconnectLabel) :
    (machine inst own).Along Undisturbed (start device inbound now) as ↔
      (machine inst own).Meets KeepsCall (start device inbound now) as := by
  have hstart : OneProcess inst (start device inbound now) := oneProcess_start device inbound now
  refine Machine.along_iff_meets (I := OneProcess inst) ?_ ?_ hstart
    (undisturbed_of_not_watching hstart rfl) as
  · intro s a t hI h
    simp only [machine] at h
    split at h
    · rename_i hsame
      exact oneProcess_step hI hsame h
    · simp at h
  · intro s a t hI hs h
    simp only [machine] at h
    split at h
    · rename_i hsame
      exact undisturbed_iff_of_step hI hs hsame h
    · simp at h

/-- The old connection's teardown is noticed before the new hello: the record that the new
connection writes has no call, and the job's next poll ends it. -/
theorem exists_disturbed :
    ∃ t, (machine "app" "a").run (start "p" false 0)
        ([.hello ⟨"p", "phone", "app", "10.0.0.2"⟩] ++ List.replicate 6 (.advance 0 0) ++
          [.dial 0 "100", .callState 0 1 ⟨"a", .active, some "100", .outgoing⟩, .callEnded 1,
            .stop 0, .advance 0 2, .advance 0 2] ++
          [.hello ⟨"p", "phone", "app", "10.0.0.2"⟩] ++ List.replicate 6 (.advance 1 3)) =
        some t ∧
      ¬ Undisturbed t := by
  refine ⟨_, rfl, fun hcalm => ?_⟩
  exact absurd (hcalm.1 4) (by decide)

end Reconnect

end DialF.Daemon
