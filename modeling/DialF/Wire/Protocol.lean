import DialF.Daemon.Protocol
import DialF.Lib.Json

/-!
# The wire format, as the daemon has it

All frames between the phones and the daemon, with the daemon's reader for what a phone sends and
its writer for what it sends itself. `DialF.Daemon.Protocol` has the part of them that the daemon's
state depends on. A frame is read as a JSON value; the frames of the phone are generic in their
texts, since the app's texts are not the daemon's. The reader's other forms (a frame as an array, an
enum as an object with one key), which no phone sends, are left out.
-/

set_option autoImplicit false

namespace DialF.Wire

open DialF.Lib

universe u v

/-! ## Phone to daemon -/

/-- `AdbReport`, over the texts of either side. -/
structure AdbReport (τ : Type u) where
  wifiEnabled : Bool
  port : Option UInt16
  service : Option τ
  deriving DecidableEq

/-- A call-log entry reported by a device. -/
structure CallRecord (τ : Type u) where
  number : Option τ
  kind : τ
  ts : Int64
  duration : Int64
  deriving DecidableEq

/-- An active SIM on the device. -/
structure SimInfo (τ : Type u) where
  slot : Int32
  subId : Int32
  name : Option τ
  carrier : Option τ
  number : Option τ
  isDefault : Bool
  deriving DecidableEq

/-- Messages a phone sends to the daemon. -/
inductive PhoneToServer (τ : Type u) where
  | hello (deviceId name key : τ) (caps : List τ) (appVersion : Option τ) (instanceId : τ)
  | heartbeat (ts : Int64) (battery : Option UInt8) (adb : Option (AdbReport τ))
  | callState (callId : τ) (state : Daemon.CallState) (number : Option τ)
      (direction : Daemon.Direction)
  | sms (direction : Daemon.Direction) (sender recipient : Option τ) (body : τ) (ts : Int64)
  | calls (entries : List (CallRecord τ))
  | sims (entries : List (SimInfo τ))
  | mmiResult (code : τ) (success : Bool) (response : Option τ)
  | voicemailResult (enabled success : Bool) (response : Option τ)
  | ack (cmdId : τ) (ok : Bool)
  | error (cmdId : Option τ) (msg : τ)
  deriving DecidableEq

section Texts

variable {τ : Type u} {σ : Type v} (f : τ → σ)

/-- The report with its texts changed. -/
def AdbReport.map (r : AdbReport τ) : AdbReport σ := ⟨r.wifiEnabled, r.port, r.service.map f⟩

/-- The texts of the report. -/
def AdbReport.texts (r : AdbReport τ) : List τ := r.service.toList

/-- The record with its texts changed. -/
def CallRecord.map (r : CallRecord τ) : CallRecord σ :=
  ⟨r.number.map f, f r.kind, r.ts, r.duration⟩

/-- The texts of the record. -/
def CallRecord.texts (r : CallRecord τ) : List τ := r.kind :: r.number.toList

/-- The SIM with its texts changed. -/
def SimInfo.map (s : SimInfo τ) : SimInfo σ :=
  ⟨s.slot, s.subId, s.name.map f, s.carrier.map f, s.number.map f, s.isDefault⟩

/-- The texts of the SIM. -/
def SimInfo.texts (s : SimInfo τ) : List τ :=
  s.name.toList ++ s.carrier.toList ++ s.number.toList

namespace PhoneToServer

/-- The frame with its texts in another form. -/
def map : PhoneToServer τ → PhoneToServer σ
  | .hello deviceId name key caps appVersion instanceId =>
      .hello (f deviceId) (f name) (f key) (caps.map f) (appVersion.map f) (f instanceId)
  | .heartbeat ts battery adb => .heartbeat ts battery (adb.map fun r => r.map f)
  | .callState callId state number direction =>
      .callState (f callId) state (number.map f) direction
  | .sms direction sender recipient body ts =>
      .sms direction (sender.map f) (recipient.map f) (f body) ts
  | .calls entries => .calls (entries.map fun r => r.map f)
  | .sims entries => .sims (entries.map fun s => s.map f)
  | .mmiResult code success response => .mmiResult (f code) success (response.map f)
  | .voicemailResult enabled success response =>
      .voicemailResult enabled success (response.map f)
  | .ack cmdId ok => .ack (f cmdId) ok
  | .error cmdId msg => .error (cmdId.map f) (f msg)

/-- The texts of the frame. -/
def texts : PhoneToServer τ → List τ
  | .hello deviceId name key caps appVersion instanceId =>
      [deviceId, name, key, instanceId] ++ caps ++ appVersion.toList
  | .heartbeat _ _ adb => adb.toList.flatMap AdbReport.texts
  | .callState callId _ number _ => callId :: number.toList
  | .sms _ sender recipient body _ => body :: sender.toList ++ recipient.toList
  | .calls entries => entries.flatMap CallRecord.texts
  | .sims entries => entries.flatMap SimInfo.texts
  | .mmiResult code _ response => code :: response.toList
  | .voicemailResult _ _ response => response.toList
  | .ack cmdId _ => [cmdId]
  | .error cmdId msg => msg :: cmdId.toList

end PhoneToServer

end Texts

/-! ## The daemon's reader -/

open Json

/-- `Direction`, by its name. -/
def asDirection : Json → Option Daemon.Direction
  | .str s =>
      if s = "in" then some .incoming
      else if s = "out" then some .outgoing
      else none
  | _ => none

/-- `CallState`, by its name. -/
def asCallState : Json → Option Daemon.CallState
  | .str s =>
      if s = "dialing" then some .dialing
      else if s = "ringing" then some .ringing
      else if s = "active" then some .active
      else if s = "ended" then some .ended
      else none
  | _ => none

/-- `AdbReport`. -/
def asAdbReport : Json → Option (AdbReport String) :=
  asObject fun o => do
    let wifiEnabled ← required "wifi_enabled" asBool o
    let port ← Json.optional "port" asU16 o
    let service ← Json.optional "service" asStr o
    return ⟨wifiEnabled, port, service⟩

/-- `CallRecord`. -/
def asCallRecord : Json → Option (CallRecord String) :=
  asObject fun o => do
    let number ← Json.optional "number" asStr o
    let kind ← required "kind" asStr o
    let ts ← required "ts" asI64 o
    let duration ← required "duration" asI64 o
    return ⟨number, kind, ts, duration⟩

/-- `SimInfo`. -/
def asSimInfo : Json → Option (SimInfo String) :=
  asObject fun o => do
    let slot ← required "slot" asI32 o
    let subId ← required "sub_id" asI32 o
    let name ← Json.optional "name" asStr o
    let carrier ← Json.optional "carrier" asStr o
    let number ← Json.optional "number" asStr o
    let isDefault ← defaulted "is_default" asBool false o
    return ⟨slot, subId, name, carrier, number, isDefault⟩

namespace PhoneToServer

/-- The fields of a `hello`. -/
def asHello (o : Fields) : Option (PhoneToServer String) := do
  let deviceId ← required "device_id" asStr o
  let name ← required "name" asStr o
  let key ← required "key" asStr o
  let caps ← defaulted "caps" (asArray asStr) [] o
  let appVersion ← Json.optional "app_version" asStr o
  let instanceId ← required "instance_id" asStr o
  return .hello deviceId name key caps appVersion instanceId

/-- The fields of a `heartbeat`. -/
def asHeartbeat (o : Fields) : Option (PhoneToServer String) := do
  let ts ← required "ts" asI64 o
  let battery ← Json.optional "battery" asU8 o
  let adb ← Json.optional "adb" asAdbReport o
  return .heartbeat ts battery adb

/-- The fields of a `call_state`. -/
def asCallStateFrame (o : Fields) : Option (PhoneToServer String) := do
  let callId ← required "call_id" asStr o
  let state ← required "state" asCallState o
  let number ← Json.optional "number" asStr o
  let direction ← required "direction" asDirection o
  return .callState callId state number direction

/-- The fields of an `sms`. -/
def asSms (o : Fields) : Option (PhoneToServer String) := do
  let direction ← required "direction" asDirection o
  let sender ← Json.optional "from" asStr o
  let recipient ← Json.optional "to" asStr o
  let body ← required "body" asStr o
  let ts ← required "ts" asI64 o
  return .sms direction sender recipient body ts

/-- The fields of a `calls`. -/
def asCalls (o : Fields) : Option (PhoneToServer String) := do
  let entries ← required "entries" (asArray asCallRecord) o
  return .calls entries

/-- The fields of a `sims`. -/
def asSims (o : Fields) : Option (PhoneToServer String) := do
  let entries ← required "entries" (asArray asSimInfo) o
  return .sims entries

/-- The fields of an `mmi_result`. -/
def asMmiResult (o : Fields) : Option (PhoneToServer String) := do
  let code ← required "code" asStr o
  let success ← required "success" asBool o
  let response ← Json.optional "response" asStr o
  return .mmiResult code success response

/-- The fields of a `voicemail_result`. -/
def asVoicemailResult (o : Fields) : Option (PhoneToServer String) := do
  let enabled ← required "enabled" asBool o
  let success ← required "success" asBool o
  let response ← Json.optional "response" asStr o
  return .voicemailResult enabled success response

/-- The fields of an `ack`. -/
def asAck (o : Fields) : Option (PhoneToServer String) := do
  let cmdId ← required "cmd_id" asStr o
  let ok ← required "ok" asBool o
  return .ack cmdId ok

/-- The fields of an `error`. -/
def asError (o : Fields) : Option (PhoneToServer String) := do
  let cmdId ← Json.optional "cmd_id" asStr o
  let msg ← required "msg" asStr o
  return .error cmdId msg

/-- The kinds of frames, by their tags. -/
def variants : List (String × (Fields → Option (PhoneToServer String))) :=
  [("hello", asHello), ("heartbeat", asHeartbeat), ("call_state", asCallStateFrame),
    ("sms", asSms), ("calls", asCalls), ("sims", asSims), ("mmi_result", asMmiResult),
    ("voicemail_result", asVoicemailResult), ("ack", asAck), ("error", asError)]

/-- The daemon's reader of a frame. -/
def parse : Json → Option (PhoneToServer String) :=
  asObject fun o => do
    -- the tag says which fields are looked for; any others are ignored
    let type ← required "type" asStr o
    let variant ← variants.lookup type
    variant o

theorem parse_of_type {o : Fields} {type : String} {variant : Fields → Option (PhoneToServer String)}
    (htype : o.lookup "type" = some (.str type)) (hvariant : variants.lookup type = some variant) :
    parse (.obj o) = variant o := by
  simp [parse, asObject, required, htype, asStr, hvariant]

end PhoneToServer

/-! ## Daemon to phone -/

/-- The concrete action carried by a command. -/
inductive Action where
  | answer (callId : Option String)
  | dial (number : String) (simSubId : Option Int32)
  | hangup (callId : Option String)
  | reject (callId : Option String) (drop : Bool)
  | sendSms (recipient body : String)
  | listSms (since : Option Int64)
  | listCalls
  | listSims
  | mmi (code : String) (simSubId : Option Int32)
  | setVoicemail (enabled : Bool) (number : Option String) (simSubId : Option Int32)
  | setAutoanswer (numbers : List String)
  deriving DecidableEq

/-- Messages the daemon sends to a phone. -/
inductive ServerToPhone where
  | cmd (cmdId : String) (action : Action)
  | heartbeatAck
  deriving DecidableEq

namespace Action

/-- The wire action name. -/
def kind : Action → String
  | .answer _ => "answer"
  | .dial _ _ => "dial"
  | .hangup _ => "hangup"
  | .reject _ _ => "reject"
  | .sendSms _ _ => "send_sms"
  | .listSms _ => "list_sms"
  | .listCalls => "list_calls"
  | .listSims => "list_sims"
  | .mmi _ _ => "mmi"
  | .setVoicemail _ _ _ => "set_voicemail"
  | .setAutoanswer _ => "set_autoanswer"

/-- An `i32` as it is written. -/
def i32 (n : Int32) : Json := .int n.toInt

/-- Absent values are left out, but for `since`, which is null then. -/
def fields : Action → Fields
  | .answer callId => optField "call_id" .str callId
  | .dial number simSubId => ("number", .str number) :: optField "sim_sub_id" i32 simSubId
  | .hangup callId => optField "call_id" .str callId
  | .reject callId drop => optField "call_id" .str callId ++ [("drop", .bool drop)]
  | .sendSms recipient body => [("to", .str recipient), ("body", .str body)]
  -- the one optional field that is written when it is absent
  | .listSms since => [("since", ofOption (fun n => .int n.toInt) since)]
  | .listCalls => []
  | .listSims => []
  | .mmi code simSubId => ("code", .str code) :: optField "sim_sub_id" i32 simSubId
  | .setVoicemail enabled number simSubId =>
      ("enabled", .bool enabled) ::
        (optField "number" .str number ++ optField "sim_sub_id" i32 simSubId)
  | .setAutoanswer numbers => [("numbers", .arr (numbers.map .str))]

end Action

/-- What the daemon writes to the phone. -/
def ServerToPhone.serialize : ServerToPhone → Json
  | .cmd cmdId action =>
      .obj ([("type", .str "cmd"), ("cmd_id", .str cmdId), ("action", .str action.kind)] ++
        action.fields)
  | .heartbeatAck => .obj [("type", .str "heartbeat_ack")]

end DialF.Wire
