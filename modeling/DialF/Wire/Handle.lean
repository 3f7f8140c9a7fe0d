import DialF.Phone.Candidates
import DialF.Wire.Protocol

/-!
# The wire format, as the app has it

The frames that the app builds, from its settings, the calls, the rows of the phone's providers and
the commands that it answers, and `handle`, which takes a command of the daemon to the operation of
the phone and to the frames that answer it.

A text of the app is a Java string. UTF-8 has no form for an unpaired surrogate, and the socket
writes a question mark for it.
-/

set_option autoImplicit false

namespace DialF.Wire

open DialF.Lib DialF.Lib.Json

/-- A Java string by its code points; an unpaired surrogate is none of the characters. -/
abbrev JText := List (Option Char)

/-- What the socket writes of a text. -/
def written (t : JText) : String := String.ofList (t.map fun c => c.getD '?')

/-- A text that has come over the socket, or stands in the code. -/
def received (s : String) : JText := s.toList.map some

/-- `isBlank`. -/
def JText.isBlank (t : JText) : Bool := t.all fun c => c.any Phone.isBlank

/-- `ifBlank { null }`. -/
def JText.ifBlank (t : JText) : Option JText := if JText.isBlank t then none else some t

/-! ## What the app reports -/

/-- What a hello says: the saved settings, the version, and the nonce of the process. -/
structure Settings where
  deviceId : JText
  name : JText
  key : JText
  appVersion : JText
  instanceId : JText

/-- The wireless-debugging state. `pickOwn` adopts no port that is out of this range. -/
structure AdbState where
  wifiEnabled : Bool
  port : Option { n : Int // 1 ≤ n ∧ n ≤ 65535 }
  ownService : Option JText

/-- A call of the telephony system, with the id that it is reported under. -/
structure TelecomCall where
  id : JText
  state : Int32
  number : Option JText
  direction : Int32

/-- A row of the message store. -/
structure SmsRow where
  address : Option JText
  body : Option JText
  date : Int64
  type : Int32

/-- Messages that have come in together: the sender and the time of the first, and the parts. -/
structure SmsIntent where
  originatingAddress : Option JText
  timestampMillis : Int64
  parts : List (Option JText)

/-- A row of the call log. -/
structure CallRow where
  number : Option JText
  type : Int32
  date : Int64
  duration : Int64

/-- A subscription. -/
structure SimRow where
  simSlotIndex : Int32
  subscriptionId : Int32
  displayName : Option JText
  carrierName : Option JText
  number : Option JText

/-- A text field that may be null. -/
def textOrNull : Option JText → Json := ofOption fun t => .str (written t)

/-- `emitCallState`: a call that is neither ringing, on its way nor disconnected is active. -/
def TelecomCall.stateName (c : TelecomCall) : String :=
  if c.state = 2 then "ringing"
  else if c.state = 1 ∨ c.state = 9 then "dialing"
  else if c.state = 7 then "ended"
  else "active"

/-- The direction of a call as the phone names it. -/
def TelecomCall.directionName (c : TelecomCall) : String :=
  if c.direction = 0 then "in" else if c.direction = 1 then "out" else "in"

/-- The direction of a message as the phone names it. -/
def SmsRow.direction (row : SmsRow) : String := if row.type = 2 then "out" else "in"

/-- The text of a message that came in parts. -/
def SmsIntent.body (i : SmsIntent) : JText := i.parts.flatMap fun p => p.getD []

/-- The kind of a logged call as the phone names it. -/
def CallRow.kind (row : CallRow) : String :=
  if row.type = 1 then "incoming"
  else if row.type = 2 then "outgoing"
  else if row.type = 3 then "missed"
  else if row.type = 4 then "voicemail"
  else if row.type = 5 then "rejected"
  else if row.type = 6 then "blocked"
  else "unknown"

/-- One entry of `listCallLog`. -/
def CallRow.entry (row : CallRow) : Json :=
  .obj [("number", textOrNull row.number), ("kind", .str row.kind), ("ts", .int row.date.toInt),
    ("duration", .int row.duration.toInt)]

/-- One entry of `listSims`; a blank text is none. -/
def SimRow.entry (defaultVoice : Int32) (row : SimRow) : Json :=
  .obj [("slot", .int row.simSlotIndex.toInt), ("sub_id", .int row.subscriptionId.toInt),
    ("name", textOrNull (row.displayName.bind JText.ifBlank)),
    ("carrier", textOrNull (row.carrierName.bind JText.ifBlank)),
    ("number", textOrNull (row.number.bind JText.ifBlank)),
    ("is_default", .bool (decide (row.subscriptionId = defaultVoice)))]

/-- The frames that the app builds, by what it builds them from. -/
inductive AppFrame where
  | hello (s : Settings)
  | heartbeat (ts : Int64) (adb : AdbState)
  | callState (c : TelecomCall)
  | received (i : SmsIntent)
  | listed (row : SmsRow)
  | calls (rows : List CallRow)
  | sims (defaultVoice : Int32) (rows : List SimRow)
  | mmiResult (code : JText) (success : Bool) (response : Option JText)
  | voicemailResult (enabled success : Bool) (response : Option JText)
  | ack (cmdId : JText)
  | error (cmdId msg : JText)

/-- An `sms` event. The body of a listed message is the provider's, which may be null. -/
def smsEvent (direction : String) (sender body : Option JText) (ts : Int64) : Json :=
  .obj [("type", .str "sms"), ("direction", .str direction), ("from", textOrNull sender),
    ("body", textOrNull body), ("ts", .int ts.toInt)]

namespace AppFrame

/-- A text of the phone as it is written. -/
def text (t : JText) : Json := .str (written t)

/-- The frame as the app puts it together. -/
def build : AppFrame → Json
  | .hello s =>
      .obj [("type", .str "hello"), ("device_id", text s.deviceId), ("name", text s.name),
        ("key", text s.key), ("caps", .arr [.str "call", .str "sms"]),
        ("app_version", text s.appVersion), ("instance_id", text s.instanceId)]
  | .heartbeat ts adb =>
      let report :=
        ("wifi_enabled", .bool adb.wifiEnabled) ::
          (optField "port" (fun p => .int p.val) adb.port ++
            -- the name of the advert goes with its port only
            optField "service" text (if adb.port = none then none else adb.ownService))
      .obj [("type", .str "heartbeat"), ("ts", .int ts.toInt), ("adb", .obj report)]
  | .callState c =>
      .obj [("type", .str "call_state"), ("call_id", text c.id), ("state", .str c.stateName),
        ("number", textOrNull c.number), ("direction", .str c.directionName)]
  | .received i => smsEvent "in" i.originatingAddress (some i.body) i.timestampMillis
  | .listed row => smsEvent row.direction row.address row.body row.date
  | .calls rows => .obj [("type", .str "calls"), ("entries", .arr (rows.map CallRow.entry))]
  | .sims defaultVoice rows =>
      .obj [("type", .str "sims"), ("entries", .arr (rows.map (SimRow.entry defaultVoice)))]
  | .mmiResult code success response =>
      .obj ([("type", .str "mmi_result"), ("code", text code), ("success", .bool success)] ++
        optField "response" text response)
  | .voicemailResult enabled success response =>
      .obj ([("type", .str "voicemail_result"), ("enabled", .bool enabled),
        ("success", .bool success)] ++ optField "response" text response)
  | .ack cmdId => .obj [("type", .str "ack"), ("cmd_id", text cmdId), ("ok", .bool true)]
  | .error cmdId msg =>
      .obj [("type", .str "error"), ("cmd_id", text cmdId), ("msg", text msg)]

end AppFrame

/-! ## Commands -/

/-- The app's JSON library, as its documentation has it: a field of the kind that is asked for is
what it says, and an optional one that is absent is the fallback. -/
structure OrgJson where
  getString : Fields → String → Except JText String
  getInt : Fields → String → Except JText Int32
  getBoolean : Fields → String → Except JText Bool
  optString : Fields → String → String → String
  optBoolean : Fields → String → Bool → Bool
  getString_str : ∀ {o k s}, o.lookup k = some (.str s) → getString o k = .ok s
  getInt_int : ∀ {o k} {n : Int32}, o.lookup k = some (.int n.toInt) → getInt o k = .ok n
  getBoolean_bool : ∀ {o k b}, o.lookup k = some (.bool b) → getBoolean o k = .ok b
  optString_str : ∀ {o k s d}, o.lookup k = some (.str s) → optString o k d = s
  optString_absent : ∀ {o k d}, o.lookup k = none → optString o k d = d
  optBoolean_bool : ∀ {o k b d}, o.lookup k = some (.bool b) → optBoolean o k d = b

/-- What a command has the phone do. -/
inductive Operation where
  | placeCall (number : JText) (simSubId : Option Int32)
  | answer (callId : Option JText)
  | hangup (callId : Option JText)
  | reject (callId : Option JText) (drop : Bool)
  | sendSms (recipient body : JText)
  | listSms (limit : Nat)
  | listCallLog (limit : Nat)
  | listSims
  | sendMmi (code : JText) (simSubId : Option Int32)
  | setVoicemail (enabled : Bool) (number : Option JText) (simSubId : Option Int32)
  deriving DecidableEq

/-- The phone under the app: an operation throws, with or without a message, or returns, and the
answer of the network may be there at once; and the rows of the providers, newest first. -/
structure Device where
  run : Operation → Except (Option JText) (Option (Bool × Option JText))
  sms : List SmsRow
  callLog : List CallRow
  subscriptions : List SimRow
  defaultVoice : Int32

/-- What the app has done about a frame: the operations, the frames that it has sent, and whether
the daemon is known to ack heartbeats. -/
structure Handled where
  called : List Operation
  frames : List Json
  daemonAcksHeartbeats : Bool

section Handle

variable (lib : OrgJson) (device : Device)

/-- `optString(k).ifEmpty { null }`. -/
def idOrNull (o : Fields) (k : String) : Option JText :=
  let id := lib.optString o k ""
  if id = "" then none else some (received id)

/-- `has(k) && !isNull(k)`, and the value then. -/
def unlessNull {α : Type} (get : Fields → String → Except JText α) (o : Fields) (k : String) :
    Except JText (Option α) :=
  match o.lookup k with
  | none => .ok none
  | some .null => .ok none
  | some _ => (get o k).map some

/-- `getString`, as the phone holds texts. -/
def getText (o : Fields) (k : String) : Except JText JText := (lib.getString o k).map received

/-- The operation of an action; `set_autoanswer` has none, and any other name is unknown. -/
def operation (o : Fields) (action : String) : Except JText (Option Operation) :=
  if action = "dial" then do
    let number ← getText lib o "number"
    let sim ← unlessNull lib.getInt o "sim_sub_id"
    return some (.placeCall number sim)
  else if action = "answer" then .ok (some (.answer (idOrNull lib o "call_id")))
  else if action = "hangup" then .ok (some (.hangup (idOrNull lib o "call_id")))
  else if action = "reject" then
    .ok (some (.reject (idOrNull lib o "call_id") (lib.optBoolean o "drop" false)))
  else if action = "send_sms" then do
    let recipient ← getText lib o "to"
    let body ← getText lib o "body"
    return some (.sendSms recipient body)
  -- a `since` is not looked at
  else if action = "list_sms" then .ok (some (.listSms 20))
  else if action = "list_calls" then .ok (some (.listCallLog 50))
  else if action = "list_sims" then .ok (some .listSims)
  else if action = "mmi" then do
    let code ← getText lib o "code"
    let sim ← unlessNull lib.getInt o "sim_sub_id"
    return some (.sendMmi code sim)
  else if action = "set_voicemail" then do
    let enabled ← lib.getBoolean o "enabled"
    let number ← unlessNull (getText lib) o "number"
    let sim ← unlessNull lib.getInt o "sim_sub_id"
    return some (.setVoicemail enabled number sim)
  else if action = "set_autoanswer" then .ok none
  else .error (received ("unknown action " ++ action))

/-- What an operation that has returned has the app send before the ack. -/
def results (op : Operation) (answer : Option (Bool × Option JText)) : List AppFrame :=
  match op with
  -- these go out on the current socket, one frame for each row
  | .listSms limit => (device.sms.take limit).map .listed
  | .listCallLog limit => [.calls (device.callLog.take limit)]
  | .listSims => [.sims device.defaultVoice device.subscriptions]
  | .sendMmi code _ =>
      answer.toList.map fun r => .mmiResult code r.1 r.2
  | .setVoicemail enabled _ _ =>
      answer.toList.map fun r => .voicemailResult enabled r.1 r.2
  | _ => []

/-- The frames that answer a command, and the operation that was called. -/
def dispatch (o : Fields) : List Operation × List AppFrame :=
  let cmdId := received (lib.optString o "cmd_id" "")
  match operation lib o (lib.optString o "action" "") with
  | .error msg => ([], [.error cmdId msg])
  | .ok none => ([], [.ack cmdId])
  -- the ack comes after the operation has returned, an error where it has thrown
  | .ok (some op) =>
      match device.run op with
      | .error msg => ([op], [.error cmdId (msg.getD (received "command failed"))])
      | .ok answer => ([op], results device op answer ++ [.ack cmdId])

/-- `handle`: a frame that is no object, or of another type, is ignored. -/
def handle : Json → Handled
  | .obj o =>
      let type := lib.optString o "type" ""
      if type = "heartbeat_ack" then ⟨[], [], true⟩
      else if type = "cmd" then
        let done := dispatch lib device o
        ⟨done.1, done.2.map AppFrame.build, false⟩
      else ⟨[], [], false⟩
  | _ => ⟨[], [], false⟩

end Handle

end DialF.Wire
