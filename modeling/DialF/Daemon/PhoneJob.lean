import DialF.Daemon.Registry

/-!
# A job's view of its call

`PhoneJobIo` drives one phone. It never learns the id of the call it dials or answers: it remembers
whether it is in a call and whether it has seen the device's slot active, and takes the call for
ended when the slot is empty after that (`callEndedDecision`). Times are read from a clock that the
caller passes in, and an operation that sends a command answers the command with the new state.
-/

set_option autoImplicit false

namespace DialF.Daemon

/-- How a call finished. -/
inductive CallEnd where
  | completed
  | farEndHangup
  | noAnswer
  deriving DecidableEq

/-- What the job observed about the call it placed or answered. -/
structure CallTrack where
  began : Option Nat := none
  answered : Option Nat := none
  ended : Option Nat := none
  remoteNumber : Option String := none
  sim : Option String := none
  endReason : Option CallEnd := none
  deriving DecidableEq

/-- `PhoneJobIo`: the device of a job, and what the job knows of its call. -/
structure PhoneJobIo where
  deviceId : String
  inCall : Bool
  sawActive : Bool
  inbound : Bool
  call : CallTrack
  deriving DecidableEq

/-- Only a call that was once active and is now gone counts as ended. Answers the new `saw_active`
with the verdict. -/
def callEndedDecision (inCall sawActive : Bool) (state : Option CallState) : Bool × Bool :=
  if inCall then
    match state with
    | some .active => (true, false)
    | none => (sawActive, sawActive)
    | _ => (sawActive, false)
  else (sawActive, false)

namespace PhoneJobIo

/-- A job on a device; an inbound job watches a call that is up already. -/
def new (deviceId : String) (inbound : Bool) (now : Nat) : PhoneJobIo where
  deviceId := deviceId
  inCall := inbound
  sawActive := false
  inbound := inbound
  call :=
    { began := if inbound then some now else none
      answered := if inbound then some now else none }

variable (io : PhoneJobIo)

/-- `dial`: a new call, of which nothing is known yet. -/
def dial (now : Nat) (number : String) : PhoneJobIo × Action :=
  ({ io with
      inCall := true
      sawActive := false
      call := { io.call with
        began := some now
        answered := none
        ended := none
        endReason := none
        remoteNumber := some number } },
    .dial number none)

/-- `answer`. -/
def answer : PhoneJobIo × Action :=
  ({ io with inCall := true, sawActive := false }, .answer none)

/-- `hangup`: the call is over for the job. -/
def hangup (now : Nat) : PhoneJobIo × Action :=
  ({ io with
      inCall := false
      sawActive := false
      call :=
        if io.call.ended = none then
          { io.call with ended := some now, endReason := some .completed }
        else io.call },
    .hangup none)

/-- One poll. The first sighting of an active call is its answer time, the first verdict that it has
ended its end. -/
def callEnded (now : Nat) (reg : Registry) : PhoneJobIo × Bool :=
  let state := reg.callState io.deviceId
  let call :=
    if state = some .active then { io.call with answered := some (io.call.answered.getD now) }
    else io.call
  let decision := callEndedDecision io.inCall io.sawActive state
  let call :=
    if decision.2 = true ∧ call.ended = none then
      { call with ended := some now, endReason := some .farEndHangup }
    else call
  ({ io with sawActive := decision.1, call := call }, decision.2)

end PhoneJobIo

/-! ## The verdict -/

theorem callEndedDecision_eq_true {inCall sawActive : Bool} {state : Option CallState} :
    (callEndedDecision inCall sawActive state).2 = true ↔
      inCall = true ∧ sawActive = true ∧ state = none := by
  cases inCall with
  | false => simp [callEndedDecision]
  | true =>
      rcases state with - | state
      · simp [callEndedDecision]
      · cases state <;> simp [callEndedDecision]

/-- A poll notices an active call and changes nothing else. -/
theorem callEndedDecision_sawActive {inCall sawActive : Bool} {state : Option CallState} :
    (callEndedDecision inCall sawActive state).1 =
      (sawActive || (inCall && decide (state = some .active))) := by
  cases inCall with
  | false => simp [callEndedDecision]
  | true =>
      rcases state with - | state
      · simp [callEndedDecision]
      · cases state <;> simp [callEndedDecision]

namespace PhoneJobIo

variable {io : PhoneJobIo} {reg : Registry} {now : Nat}

@[simp]
theorem callEnded_deviceId : (io.callEnded now reg).1.deviceId = io.deviceId := rfl

@[simp]
theorem callEnded_inCall : (io.callEnded now reg).1.inCall = io.inCall := rfl

/-- **The verdict of a poll.** -/
theorem callEnded_eq_true :
    (io.callEnded now reg).2 = true ↔
      io.inCall = true ∧ io.sawActive = true ∧ reg.currentCall io.deviceId = none := by
  show (callEndedDecision io.inCall io.sawActive (reg.callState io.deviceId)).2 = true ↔ _
  rw [callEndedDecision_eq_true, Registry.callState_eq_none]

/-- A poll that finds the slot empty leaves the job as watchful as it was. -/
theorem callEnded_sawActive_of_none (h : reg.currentCall io.deviceId = none) :
    (io.callEnded now reg).1.sawActive = io.sawActive := by
  show (callEndedDecision io.inCall io.sawActive (reg.callState io.deviceId)).1 = _
  rw [callEndedDecision_sawActive, Registry.callState_eq_none.2 h]
  simp

/-- Polling twice in one state gives one verdict. -/
theorem callEnded_callEnded {later : Nat} :
    ((io.callEnded now reg).1.callEnded later reg).2 = true ↔
      (io.callEnded now reg).2 = true := by
  rw [callEnded_eq_true, callEnded_eq_true, callEnded_deviceId, callEnded_inCall]
  constructor
  · rintro ⟨hin, hsaw, hnone⟩
    rw [callEnded_sawActive_of_none hnone] at hsaw
    exact ⟨hin, hsaw, hnone⟩
  · rintro ⟨hin, hsaw, hnone⟩
    have hsame : (io.callEnded now reg).1.sawActive = io.sawActive :=
      callEnded_sawActive_of_none hnone
    exact ⟨hin, hsame.trans hsaw, hnone⟩

end PhoneJobIo

end DialF.Daemon
