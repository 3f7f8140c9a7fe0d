import Mathlib.Data.List.AList
import DialF.Daemon.Protocol

/-!
# The device registry

The daemon keeps one record for each connected phone. A record has a single slot for the phone's
current call, which every `call_state` frame overwrites or clears, whatever call the frame is about.
Jobs read the slot (`Registry.callState`); connections write whole records (`upsert`, `remove`), and
the reaper removes those that have been silent for too long.
-/

set_option autoImplicit false

namespace DialF.Daemon

/-- State of the device's current call. -/
structure CallInfo where
  callId : String
  number : Option String
  state : CallState
  direction : Direction
  deriving DecidableEq

/-- A registered device. -/
structure DeviceInfo where
  id : String
  name : String
  addr : Option String
  lastSeenMs : Int
  currentCall : Option CallInfo
  deriving DecidableEq

/-- What a report leaves in the slot. -/
def CallReport.slot (report : CallReport) : Option CallInfo :=
  if report.state = .ended then none
  else some ⟨report.callId, report.number, report.state, report.direction⟩

/-- Registry of devices keyed by id. -/
structure Registry where
  devices : AList fun _ : String => DeviceInfo

namespace Registry

variable (reg : Registry)

/-- The registry of a daemon that has just started. -/
def new : Registry := ⟨∅⟩

/-- `get`. -/
def get (id : String) : Option DeviceInfo := reg.devices.lookup id

/-- `upsert`. -/
def upsert (dev : DeviceInfo) : Registry := ⟨reg.devices.insert dev.id dev⟩

/-- `remove`. -/
def remove (id : String) : Registry := ⟨reg.devices.erase id⟩

/-- `get_mut`, and what is done with the record it finds. -/
def modify (id : String) (f : DeviceInfo → DeviceInfo) : Registry :=
  match reg.get id with
  | some dev => ⟨reg.devices.insert id (f dev)⟩
  | none => reg

/-- The ids of the records that are strictly older than `cutoffMs`. -/
def stale (cutoffMs : Int) : List String :=
  (reg.devices.entries.filter fun e => decide (e.2.lastSeenMs < cutoffMs)).map Sigma.fst

/-- Remove the stale records and answer their ids. -/
def reapOlderThan (cutoffMs : Int) : Registry × List String :=
  ((reg.stale cutoffMs).foldl remove reg, reg.stale cutoffMs)

/-- The registry's part in a `heartbeat` frame. -/
def onHeartbeat (id : String) (nowMs : Int) : Registry :=
  reg.modify id fun dev => { dev with lastSeenMs := nowMs }

/-- The registry's part in a `call_state` frame. -/
def onCallState (id : String) (nowMs : Int) (report : CallReport) : Registry :=
  reg.modify id fun dev => { dev with lastSeenMs := nowMs, currentCall := report.slot }

/-- The slot of a device; a device without a record has none. -/
def currentCall (id : String) : Option CallInfo := (reg.get id).bind DeviceInfo.currentCall

/-- The state in the slot, which is all that jobs look at. -/
def callState (id : String) : Option CallState := (reg.currentCall id).map CallInfo.state

/-! ## Reading after writing -/

variable {reg} {id other : String} {dev : DeviceInfo}

@[simp]
theorem get_upsert : (reg.upsert dev).get dev.id = some dev :=
  AList.lookup_insert reg.devices

theorem get_upsert_of_ne (h : id ≠ dev.id) : (reg.upsert dev).get id = reg.get id :=
  AList.lookup_insert_ne h

@[simp]
theorem get_remove : (reg.remove id).get id = none :=
  AList.lookup_erase id reg.devices

theorem get_remove_of_ne (h : id ≠ other) : (reg.remove other).get id = reg.get id :=
  AList.lookup_erase_ne h

@[simp]
theorem get_modify (f : DeviceInfo → DeviceInfo) :
    (reg.modify id f).get id = (reg.get id).map f := by
  cases h : reg.get id with
  | none => simp [modify, h]
  | some dev =>
      simp only [modify, h, Option.map_some]
      exact AList.lookup_insert reg.devices

theorem get_modify_of_ne (h : id ≠ other) (f : DeviceInfo → DeviceInfo) :
    (reg.modify other f).get id = reg.get id := by
  cases hother : reg.get other with
  | none => simp [modify, hother]
  | some dev =>
      simp only [modify, hother]
      exact AList.lookup_insert_ne h

theorem mem_stale {cutoffMs : Int} :
    id ∈ reg.stale cutoffMs ↔ ∃ dev, reg.get id = some dev ∧ dev.lastSeenMs < cutoffMs := by
  simp only [stale, List.mem_map, List.mem_filter, decide_eq_true_eq]
  constructor
  · rintro ⟨⟨id', dev⟩, ⟨hmem, hold⟩, rfl⟩
    exact ⟨dev, AList.mem_lookup_iff.2 hmem, hold⟩
  · rintro ⟨dev, hget, hold⟩
    exact ⟨⟨id, dev⟩, ⟨AList.mem_lookup_iff.1 hget, hold⟩, rfl⟩

theorem get_foldl_remove (ids : List String) :
    (ids.foldl remove reg).get id = if id ∈ ids then none else reg.get id := by
  induction ids generalizing reg with
  | nil => simp
  | cons other ids ih =>
      rw [List.foldl_cons, ih]
      by_cases hmem : id ∈ ids
      · simp [hmem]
      · by_cases hid : id = other
        · subst hid
          simp
        · simp [hmem, hid, get_remove_of_ne hid]

/-- The reaper takes a record exactly when it is strictly older than the cutoff. -/
theorem get_reapOlderThan {cutoffMs : Int} :
    (reg.reapOlderThan cutoffMs).1.get id =
      (reg.get id).filter fun dev => decide (cutoffMs ≤ dev.lastSeenMs) := by
  simp only [reapOlderThan, get_foldl_remove, mem_stale]
  cases hget : reg.get id with
  | none => simp
  | some dev =>
      by_cases hold : dev.lastSeenMs < cutoffMs
      · simp [hold, Option.filter]
      · simp [hold, Option.filter, Int.not_lt.1 hold]

theorem get_reapOlderThan_of_none {cutoffMs : Int} (hget : reg.get id = none) :
    (reg.reapOlderThan cutoffMs).1.get id = none := by
  rw [get_reapOlderThan, hget]
  rfl

theorem get_reapOlderThan_of_stale {cutoffMs : Int} (hget : reg.get id = some dev)
    (hstale : dev.lastSeenMs < cutoffMs) : (reg.reapOlderThan cutoffMs).1.get id = none := by
  rw [get_reapOlderThan, hget, Option.filter, if_neg]
  simpa using hstale

theorem get_reapOlderThan_of_seen {cutoffMs : Int} (hget : reg.get id = some dev)
    (hseen : ¬ dev.lastSeenMs < cutoffMs) :
    (reg.reapOlderThan cutoffMs).1.get id = some dev := by
  rw [get_reapOlderThan, hget, Option.filter, if_pos]
  simpa using hseen

@[simp]
theorem currentCall_upsert : (reg.upsert dev).currentCall dev.id = dev.currentCall := by
  simp [currentCall]

theorem currentCall_upsert_of_ne (h : id ≠ dev.id) :
    (reg.upsert dev).currentCall id = reg.currentCall id := by
  simp [currentCall, get_upsert_of_ne h]

@[simp]
theorem currentCall_remove : (reg.remove id).currentCall id = none := by
  simp [currentCall]

theorem currentCall_remove_of_ne (h : id ≠ other) :
    (reg.remove other).currentCall id = reg.currentCall id := by
  simp [currentCall, get_remove_of_ne h]

@[simp]
theorem currentCall_onHeartbeat (nowMs : Int) :
    (reg.onHeartbeat other nowMs).currentCall id = reg.currentCall id := by
  by_cases h : id = other
  · subst h
    cases hget : reg.get id <;> simp [currentCall, onHeartbeat, hget]
  · simp [currentCall, onHeartbeat, get_modify_of_ne h]

@[simp]
theorem get_onHeartbeat_eq_none {nowMs : Int} :
    (reg.onHeartbeat other nowMs).get id = none ↔ reg.get id = none := by
  by_cases h : id = other
  · subst h
    simp [onHeartbeat]
  · simp [onHeartbeat, get_modify_of_ne h]

/-- A report is about the slot, whatever call the slot held. -/
theorem currentCall_onCallState (hdev : reg.get id ≠ none) (nowMs : Int) (report : CallReport) :
    (reg.onCallState id nowMs report).currentCall id = report.slot := by
  obtain ⟨dev, hget⟩ := Option.ne_none_iff_exists'.1 hdev
  simp [currentCall, onCallState, hget]

theorem currentCall_onCallState_of_ne (h : id ≠ other) (nowMs : Int) (report : CallReport) :
    (reg.onCallState other nowMs report).currentCall id = reg.currentCall id := by
  simp [currentCall, onCallState, get_modify_of_ne h]

/-- Frames make no record and take none away. -/
@[simp]
theorem get_onCallState_eq_none {nowMs : Int} {report : CallReport} :
    (reg.onCallState other nowMs report).get id = none ↔ reg.get id = none := by
  by_cases h : id = other
  · subst h
    simp [onCallState]
  · simp [onCallState, get_modify_of_ne h]

@[simp]
theorem slot_eq_none {report : CallReport} : report.slot = none ↔ report.state = .ended := by
  simp [CallReport.slot]

theorem callState_eq_none : reg.callState id = none ↔ reg.currentCall id = none := by
  simp [callState]

end Registry

end DialF.Daemon
