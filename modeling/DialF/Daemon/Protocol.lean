/-!
# Wire types

The frames that phones send to the daemon and the commands that the daemon sends about calls. The
first frame on a socket must be a hello that carries the shared key; `greet` is the daemon's test.
-/

set_option autoImplicit false

namespace DialF.Daemon

/-- Call direction: `in` and `out` on the wire. -/
inductive Direction where
  | incoming
  | outgoing
  deriving DecidableEq

/-- Lifecycle state of a call leg, as reported by the phone. -/
inductive CallState where
  | dialing
  | ringing
  | active
  | ended
  deriving DecidableEq

/-- The payload of a `call_state` frame. -/
structure CallReport where
  callId : String
  state : CallState
  number : Option String
  direction : Direction
  deriving DecidableEq

/-- The phone's wireless-debugging state, as found by the app itself. -/
structure AdbReport where
  wifiEnabled : Bool
  port : Option Nat
  service : Option String
  deriving DecidableEq

/-- Messages a phone sends to the daemon. The call log and the SIM list are carried as texts. -/
inductive PhoneToServer where
  | hello (deviceId name key instanceId : String)
  | heartbeat (ts : Int) (adb : Option AdbReport)
  | callState (report : CallReport)
  | sms (direction : Direction) (sender recipient : Option String) (body : String) (ts : Int)
  | calls (entries : List String)
  | sims (entries : List String)
  | mmiResult (code : String) (success : Bool) (response : Option String)
  | voicemailResult (enabled success : Bool) (response : Option String)
  | ack (cmdId : String) (ok : Bool)
  | error (cmdId : Option String) (msg : String)
  deriving DecidableEq

/-- The commands the daemon sends about a call. -/
inductive Action where
  | answer (callId : Option String)
  | dial (number : String) (simSubId : Option Int)
  | hangup (callId : Option String)
  deriving DecidableEq

/-- What the first frame of a socket with the right key says, and the peer it came from. -/
structure Hello where
  deviceId : String
  name : String
  instanceId : String
  peer : String
  deriving DecidableEq

/-- Why the daemon drops a connection at its first frame. -/
inductive Rejection where
  | badSharedKey (deviceId : String)
  | expectedHello (got : PhoneToServer)
  deriving DecidableEq

/-- The daemon's test of the first frame. -/
def greet (sharedKey peer : String) : PhoneToServer → Except Rejection Hello
  | .hello deviceId name key instanceId =>
      if key ≠ sharedKey then .error (.badSharedKey deviceId)
      else .ok ⟨deviceId, name, instanceId, peer⟩
  | other => .error (.expectedHello other)

/-- The frame is a hello. -/
def PhoneToServer.IsHello : PhoneToServer → Prop
  | .hello _ _ _ _ => True
  | _ => False

instance (f : PhoneToServer) : Decidable f.IsHello := by
  cases f <;> unfold PhoneToServer.IsHello <;> infer_instance

/-- The frame answers a command on the socket that the command came on. -/
def PhoneToServer.IsReply : PhoneToServer → Prop
  | .calls _ => True
  | .sims _ => True
  | .mmiResult _ _ _ => True
  | .voicemailResult _ _ _ => True
  | .ack _ _ => True
  | .error _ _ => True
  | _ => False

instance (f : PhoneToServer) : Decidable f.IsReply := by
  cases f <;> unfold PhoneToServer.IsReply <;> infer_instance

theorem PhoneToServer.IsReply.not_isHello {f : PhoneToServer} (h : f.IsReply) : ¬ f.IsHello := by
  cases f with
  | hello deviceId name key instanceId => exact h.elim
  | _ => exact fun hhello => hhello

/-- The daemon asks for a hello exactly when it gets another frame. -/
theorem greet_eq_expectedHello {sharedKey peer : String} {f got : PhoneToServer} :
    greet sharedKey peer f = .error (.expectedHello got) ↔ f = got ∧ ¬ f.IsHello := by
  cases f with
  | hello deviceId name key instanceId =>
      have hnot : ¬ ¬ (PhoneToServer.hello deviceId name key instanceId).IsHello :=
        fun h => h trivial
      refine iff_of_false ?_ fun h => hnot h.2
      simp only [greet]
      split <;> simp
  | _ => simp [greet, PhoneToServer.IsHello]

end DialF.Daemon
