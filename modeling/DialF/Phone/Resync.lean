import DialF.Lib.Machine
import DialF.Daemon.PhoneServer
import DialF.Phone.Dialf
import DialF.Phone.Link

/-!
# The app and the daemon across reconnects

One app process and the daemon, with every socket that the app opens: the app's calls come, change
and go, its service connects, drops and reconnects, each socket's `onOpen` re-reports one tracked
call on whatever socket `ws` names at that time, and the daemon serves each socket with a handler of
its own. A frame that a socket has accepted may be read at any later time or never.

`calm` says that no call has changed since the socket opened. `Resynced` is what a reconnect is for:
where a socket's frames have all been read and no call has changed since it opened, the daemon's
slot agrees with the calls that the app tracks. `Spares` says which steps let it.
-/

set_option autoImplicit false

namespace DialF.Phone

open DialF.Lib DialF.Daemon

/-- How far `onOpen` has come on a socket. -/
inductive OpenStage where
  | waiting
  | greeted
  | picked (uid : Nat)
  | done
  deriving DecidableEq

/-- One socket, besides its frames: the app's `onOpen`, whether no call has changed since, how many
of its frames the daemon has read, and the daemon's handler. -/
structure Wire where
  stage : OpenStage
  calm : Bool
  read : Nat
  handler : Option Handler

/-- The app and the daemon, with the devices that the reaper has still to drop and the wires. -/
structure Resync where
  link : Link
  dialf : Dialf
  daemon : DaemonState
  reaped : List String
  wires : Nat → Wire

/-- What can happen to the app, to the daemon and between them. -/
inductive ResyncLabel where
  | link (a : LinkLabel)
  | onOpen (k : Nat) (nowMs : Int)
  | pick (k i : Nat)
  | report (k : Nat) (number : Option String) (direction : Direction)
  | callAdded (uid : Nat) (state : CallState) (number : Option String) (direction : Direction)
  | stateChanged (uid : Nat) (state : CallState) (number : Option String) (direction : Direction)
  | callRemoved (uid : Nat) (number : Option String)
  | accept (k : Nat) (peer : String)
  | advance (k : Nat) (nowMs : Int)
  | frame (k : Nat) (nowMs : Int)
  | stop (k : Nat)
  | reap (nowMs : Int)
  | dropReaped
  | setBusy (busy : Bool)

/-- What the daemon's registry makes of a frame. -/
def onFrame (reg : Registry) (id : String) (nowMs : Int) : PhoneToServer → Registry
  | .heartbeat _ _ => reg.onHeartbeat id nowMs
  | .callState report => reg.onCallState id nowMs report
  | _ => reg

/-- The handler has written the device's record, and has not begun to tear down. -/
def hasRecord (h : Handler) : Bool :=
  match h.phase with
  | .recorded _ _ => true
  | .serving _ => true
  | _ => false

namespace Wire

/-- A socket that has not opened, and that the daemon has not seen. -/
def fresh : Wire := ⟨.waiting, false, 0, none⟩

/-- The handler of the wire has written its record. -/
def recorded (w : Wire) : Bool := w.handler.any hasRecord

/-- The handler of the wire serves. -/
def serving (w : Wire) : Bool := w.handler.any Handler.isServing

end Wire

namespace Resync

/-- An app process that has just started, and a daemon. -/
def start (identity : Identity) (daemon : DaemonState) : Resync :=
  ⟨.start identity, .start, daemon, [], fun _ => .fresh⟩

variable (s : Resync)

/-- One wire, replaced. -/
def setWire (k : Nat) (w : Wire) : Resync := { s with wires := Function.update s.wires k w }

/-- A call has changed. -/
def disturb : Resync := { s with wires := fun k => { s.wires k with calm := false } }

/-- `emitCallState`: the call in its present state, on the current socket. -/
def emitCallState (uid : Nat) (state : CallState) (number : Option String)
    (direction : Direction) : Resync :=
  { s with
    dialf := (s.dialf.idFor uid state).1
    link := s.link.send (.callState ⟨(s.dialf.idFor uid state).2, state, number, direction⟩) }

/-- The frame that a serving handler reads next. -/
def nextFrame (k : Nat) : Option PhoneToServer := (s.link.socket k).written[(s.wires k).read]?

/-- What one step does to the app and to the daemon, where it can be taken. -/
def step (sharedKey : String) : ResyncLabel → Option Resync
  | .link a =>
      if a.IsPlain then
        match s.link.step a with
        | some l => some { s with link := l }
        | none => none
      else none
  | .onOpen k nowMs =>
      match s.link.step (.onOpen k nowMs) with
      | some l =>
          some ({ s with link := l }.setWire k
            { s.wires k with stage := .greeted, calm := true })
      | none => none
  -- `Dialf.call(null)`: the first value of a hash map is any of them
  | .pick k i =>
      match (s.wires k).stage with
      | .greeted =>
          match s.dialf.calls with
          | [] => some (s.setWire k { s.wires k with stage := .done })
          | _ :: _ =>
              match s.dialf.calls[i]? with
              | some c => some (s.setWire k { s.wires k with stage := .picked c.uid })
              | none => none
      | _ => none
  -- a call that has been removed since it was picked is tracked again
  | .report k number direction =>
      match (s.wires k).stage with
      | .picked uid =>
          some ((s.emitCallState uid (s.dialf.state uid) number direction).setWire k
            { s.wires k with stage := .done })
      | _ => none
  | .callAdded uid state number direction =>
      match s.dialf.find uid with
      | some _ => none
      | none => some (s.emitCallState uid state number direction).disturb
  | .stateChanged uid state number direction =>
      match s.dialf.find uid with
      | some _ =>
          some ({ s with dialf := s.dialf.setState uid state }.emitCallState uid state number
            direction).disturb
      | none => none
  | .callRemoved uid number =>
      match s.dialf.find uid with
      | some _ =>
          let s := (s.emitCallState uid .ended number .incoming).disturb
          some { s with dialf := s.dialf.forget uid }
      | none => none
  | .accept k peer =>
      match (s.wires k).handler, (s.link.socket k).written with
      | none, f :: _ =>
          match greet sharedKey peer f with
          | .ok hello =>
              some (s.setWire k { s.wires k with handler := some ⟨hello, .greeted⟩, read := 1 })
          | .error _ => none
      | _, _ => none
  | .advance k nowMs =>
      match (s.wires k).handler with
      | some h =>
          match h.advance nowMs s.daemon with
          | some (h', daemon) =>
              some ({ s with daemon := daemon }.setWire k { s.wires k with handler := some h' })
          | none => none
      | none => none
  | .frame k nowMs =>
      match (s.wires k).handler, s.nextFrame k with
      | some h, some f =>
          if h.isServing then
            let registry := onFrame s.daemon.registry h.hello.deviceId nowMs f
            some ({ s with daemon := { s.daemon with registry := registry } }.setWire k
              { s.wires k with read := (s.wires k).read + 1 })
          else none
      | _, _ => none
  | .stop k =>
      match (s.wires k).handler.bind Handler.stop with
      | some h => some (s.setWire k { s.wires k with handler := some h })
      | none => none
  | .reap nowMs =>
      match s.reaped with
      | [] =>
          let (registry, ids) := s.daemon.registry.reapOlderThan (nowMs - staleAfterMs)
          some { s with daemon := { s.daemon with registry := registry }, reaped := ids }
      | _ :: _ => none
  | .dropReaped =>
      match s.reaped with
      | id :: ids =>
          some { s with
            daemon := { s.daemon with hub := s.daemon.hub.dropDevice id }
            reaped := ids }
      | [] => none
  | .setBusy busy => some { s with daemon := { s.daemon with cardBusy := busy } }

/-- The runs of one app process with a daemon of the shared key, whatever the daemon holds from
before. -/
def machine (sharedKey : String) : Machine Resync ResyncLabel where
  Init s := ∃ identity daemon, s = start identity daemon
  step s a := s.step sharedKey a

/-! ## Agreement -/

/-- The device that the app says it is. -/
def deviceId : String := s.link.identity.deviceId

/-- The daemon's `current_call` for the device. -/
def slot : Option CallInfo := s.daemon.registry.currentCall s.deviceId

/-- The slot is empty if no call is tracked, and otherwise names a tracked call with its present
state. -/
def Agrees : Option CallInfo → Prop
  | none => s.dialf.calls = []
  | some info => ∃ c ∈ s.dialf.calls, info.callId = c.id ∧ info.state = c.state

/-- The frame reports the call in its present state. -/
def Tells (c : TrackedCall) : PhoneToServer → Prop
  | .callState report => report.callId = c.id ∧ report.state = c.state
  | _ => False

/-- The call has been reported, in its present state, on the socket. -/
def Reported (k : Nat) (c : TrackedCall) : Prop := ∃ f ∈ (s.link.socket k).frames, Tells c f

/-- The socket is the app's and open, `onOpen` has returned, no call has changed since, and the
daemon has read every frame of it. -/
structure Quiet (k : Nat) : Prop where
  current : s.link.ws = some k
  opened : (s.link.socket k).closing = false
  returned : (s.wires k).stage = .done
  calm : (s.wires k).calm = true
  serving : (s.wires k).serving = true
  read : (s.wires k).read = (s.link.socket k).frames.length

/-- The daemon and the app agree about the calls, and every ringing call has been reported on the
socket, so that a job whose call has gone is told so. -/
structure Synced (k : Nat) : Prop where
  agrees : s.Agrees s.slot
  ringing : ∀ c ∈ s.dialf.calls, c.state = .ringing → s.Reported k c
  ended : s.dialf.calls = [] → ∀ (io : PhoneJobIo) (now : Nat), io.deviceId = s.deviceId →
    io.inCall = true → io.sawActive = true → (io.callEnded now s.daemon.registry).2 = true

/-- **A reconnect resynchronises the call state.** -/
def Resynced : Prop := ∀ k, s.Quiet k → s.Synced k

/-! ## The condition -/

/-- The socket is the app's or about to be, takes frames, and no call has changed since it opened. -/
def Live (k : Nat) : Prop :=
  s.link.Current k ∧ (s.wires k).calm = true ∧ (s.link.socket k).closing = false

/-- The device's record has been written by the handler of the live socket. -/
def Attached (k : Nat) : Prop := s.Live k ∧ (s.wires k).recorded = true

/-- The frame reports a call. -/
def IsCallState : PhoneToServer → Prop
  | .callState _ => True
  | _ => False

/-- A report is on its way on the socket. -/
def Unread (k : Nat) : Prop :=
  ∃ f ∈ (s.link.socket k).frames.drop (s.wires k).read, IsCallState f

/-- A report of a tracked call is on its way on the socket, or will be made. -/
def Settling (k : Nat) : Prop :=
  ((s.wires k).stage ≠ .done ∧ s.dialf.calls ≠ []) ∨ s.Unread k

/-- The record of the device is gone, or will be: the socket that has written it stays without one,
which does no harm while no call is tracked. -/
def SparesRecord : Prop := ∀ k < s.link.sockets.length, s.Attached k → s.dialf.calls = []

/-- The re-report of one call is enough, and reaches the socket that opened. * A call that has been
removed since it was picked is not tracked again under a live socket. * No ended call is reported on
a live socket. * Every ringing call that the socket has not reported is the one that is re-reported,
on that socket. * Where `ws` does not yet name the socket, the daemon knows of the calls already. -/
def SparesReport (k uid : Nat) : Prop :=
  match s.dialf.find uid with
  | none => ∀ j < s.link.sockets.length, ¬ s.Live j
  | some c =>
      (∀ j < s.link.sockets.length, s.Live j → s.link.ws = some j → c.state ≠ .ended) ∧
        (s.Live k →
          (∀ other ∈ s.dialf.calls, other.state = .ringing →
            s.Reported k other ∨ (s.link.ws = some k ∧ other = c)) ∧
          (s.link.ws ≠ some k → (s.wires k).recorded = true → s.Unread k ∨ s.Agrees s.slot))

/-- The step leaves the two views in agreement, or a report on its way that will make them agree: *
the re-report of `onOpen` is enough, and reaches the socket that opened; * a record that is written
carries over a call that is right, or a report follows on the live socket; * a call state read on
another socket is right, or a report follows on the live socket; * the record is not removed, by a
teardown or by the reaper, while a call is tracked. -/
def Spares : ResyncLabel → Prop
  | .report k _ _ =>
      match (s.wires k).stage with
      | .picked uid => s.SparesReport k uid
      | _ => True
  | .advance k _ =>
      match (s.wires k).handler with
      | some ⟨_, .registered _ prior _⟩ =>
          ∀ j < s.link.sockets.length, s.Live j → j = k ∨ (s.wires j).recorded = true →
            s.Settling j ∨ s.Agrees prior
      | some ⟨_, .removing⟩ => s.SparesRecord
      | _ => True
  | .frame k _ =>
      match s.nextFrame k with
      | some (.callState report) =>
          ∀ j < s.link.sockets.length, s.Attached j → j ≠ k →
            s.Settling j ∨ s.Agrees report.slot
      | _ => True
  | .reap nowMs =>
      match s.daemon.registry.get s.deviceId with
      | some dev => dev.lastSeenMs < nowMs - staleAfterMs → s.SparesRecord
      | none => True
  | _ => True

/-! Conditions are decidable, so that the runs that meet them can be checked. -/

instance (o : Option CallInfo) : Decidable (s.Agrees o) := by
  unfold Agrees
  cases o <;> infer_instance

instance (c : TrackedCall) : ∀ f : PhoneToServer, Decidable (Tells c f)
  | .callState report =>
      inferInstanceAs (Decidable (report.callId = c.id ∧ report.state = c.state))
  | .hello _ _ _ _ | .heartbeat _ _ | .sms _ _ _ _ _ | .calls _ | .sims _ | .mmiResult _ _ _
  | .voicemailResult _ _ _ | .ack _ _ | .error _ _ => .isFalse id

instance (k : Nat) (c : TrackedCall) : Decidable (s.Reported k c) := by
  unfold Reported
  infer_instance

instance (k : Nat) : Decidable (s.Live k) := by
  unfold Live
  infer_instance

instance (k : Nat) : Decidable (s.Attached k) := by
  unfold Attached
  infer_instance

instance : ∀ f : PhoneToServer, Decidable (IsCallState f)
  | .callState _ => .isTrue trivial
  | .hello _ _ _ _ | .heartbeat _ _ | .sms _ _ _ _ _ | .calls _ | .sims _ | .mmiResult _ _ _
  | .voicemailResult _ _ _ | .ack _ _ | .error _ _ => .isFalse id

instance (k : Nat) : Decidable (s.Unread k) := by
  unfold Unread
  infer_instance

instance (k : Nat) : Decidable (s.Settling k) := by
  unfold Settling
  infer_instance

instance : Decidable s.SparesRecord := by
  unfold SparesRecord
  infer_instance

instance (k uid : Nat) : Decidable (s.SparesReport k uid) := by
  unfold SparesReport
  split <;> infer_instance

instance (a : ResyncLabel) : Decidable (s.Spares a) := by
  unfold Spares
  split
  · split <;> infer_instance
  · split <;> infer_instance
  · split <;> infer_instance
  · split <;> infer_instance
  · infer_instance

end Resync

end DialF.Phone
