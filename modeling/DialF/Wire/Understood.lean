import DialF.Wire.Handle

/-!
# Both sides speak the same format

The app does with a command what its action asks for, and the daemon reads in a frame of the app
what the app has put there. `understood_iff` says for which frames: a listing that asks for the
messages since a time is not one, since the app has no such filter, and neither is a message whose
body the provider has as null.
-/

set_option autoImplicit false

namespace DialF.Wire

open DialF.Lib DialF.Lib.Json

/-! ## Texts -/

/-- The text has no unpaired surrogate. -/
def JText.WellFormed (t : JText) : Prop := none ∉ t

@[simp] theorem written_received (s : String) : written (received s) = s := by
  simp [written, received, Function.comp_def]

/-- The socket keeps the well-formed texts, and no others. -/
theorem received_written_iff {t : JText} : received (written t) = t ↔ t.WellFormed := by
  rw [received, written, String.toList_ofList, JText.WellFormed]
  -- by the code points: a question mark stands where a surrogate was, and is no surrogate
  induction t with
  | nil => simp
  | cons c t ih =>
      cases c with
      | none => simp
      | some c => simpa using ih

/-! ## What the app puts into its frames -/

/-- The state that `emitCallState` names. -/
def TelecomCall.reported (c : TelecomCall) : Daemon.CallState :=
  if c.state = 2 then .ringing
  else if c.state = 1 ∨ c.state = 9 then .dialing
  else if c.state = 7 then .ended
  else .active

/-- The direction that a call's report stands for. -/
def TelecomCall.reportedDirection (c : TelecomCall) : Daemon.Direction :=
  if c.direction = 0 then .incoming else if c.direction = 1 then .outgoing else .incoming

/-- The direction that a message's report stands for. -/
def SmsRow.reportedDirection (row : SmsRow) : Daemon.Direction :=
  if row.type = 2 then .outgoing else .incoming

/-- The report of wireless debugging that the state stands for. -/
def AdbState.report (adb : AdbState) : AdbReport JText :=
  ⟨adb.wifiEnabled, adb.port.map fun p => UInt16.ofNat p.val.toNat,
    if adb.port = none then none else adb.ownService⟩

/-- The record that a logged call stands for. -/
def CallRow.record (row : CallRow) : CallRecord JText :=
  ⟨row.number, Wire.received row.kind, row.date, row.duration⟩

/-- What a SIM's report stands for. -/
def SimRow.info (defaultVoice : Int32) (row : SimRow) : SimInfo JText :=
  ⟨row.simSlotIndex, row.subscriptionId, row.displayName.bind JText.ifBlank,
    row.carrierName.bind JText.ifBlank, row.number.bind JText.ifBlank,
    decide (row.subscriptionId = defaultVoice)⟩

namespace AppFrame

/-- The values of the frame's fields; none where the app has null for a body. -/
def fields : AppFrame → Option (PhoneToServer JText)
  | .hello s =>
      some (.hello s.deviceId s.name s.key [Wire.received "call", Wire.received "sms"]
        (some s.appVersion) s.instanceId)
  | .heartbeat ts adb => some (.heartbeat ts none (some adb.report))
  | .callState c => some (.callState c.id c.reported c.number c.reportedDirection)
  | .received i =>
      some (.sms .incoming i.originatingAddress none i.body i.timestampMillis)
  | .listed row =>
      row.body.map fun body => .sms row.reportedDirection row.address none body row.date
  | .calls rows => some (.calls (rows.map CallRow.record))
  | .sims defaultVoice rows => some (.sims (rows.map (SimRow.info defaultVoice)))
  | .mmiResult code success response => some (.mmiResult code success response)
  | .voicemailResult enabled success response =>
      some (.voicemailResult enabled success response)
  | .ack cmdId => some (.ack cmdId true)
  | .error cmdId msg => some (.error (some cmdId) msg)

/-- The daemon accepts the frame, and reads the values that the app has put there. -/
def Agrees (f : AppFrame) : Prop :=
  ∃ p q, PhoneToServer.parse f.build = some p ∧ f.fields = some q ∧ p.map Wire.received = q

/-- No listed message has null for its body, and no text has an unpaired surrogate. -/
def Carried (f : AppFrame) : Prop :=
  (∀ row, f = .listed row → row.body ≠ none) ∧
    ∀ q, f.fields = some q → ∀ t ∈ q.texts, JText.WellFormed t

end AppFrame

/-! ## The daemon reads what the app has put there -/

theorem asStr_text (t : JText) : asStr (AppFrame.text t) = some (written t) := rfl

theorem optional_textOrNull {k : String} {o : Fields} {t : Option JText}
    (h : o.lookup k = some (textOrNull t)) : Json.optional k asStr o = some (t.map written) := by
  rw [optional_of_lookup h]
  exact nullable_ofOption asStr_text (fun _ h => by cases h) t

theorem optional_text {k : String} {o : Fields} {t : Option JText}
    (h : o.lookup k = t.map AppFrame.text) : Json.optional k asStr o = some (t.map written) :=
  optional_of_optField asStr_text (fun _ h => by cases h) h

theorem asCallState_stateName (c : TelecomCall) :
    asCallState (.str c.stateName) = some c.reported := by
  unfold TelecomCall.stateName TelecomCall.reported
  split
  · rfl
  · split
    · rfl
    · split
      · rfl
      · rfl

theorem asDirection_directionName (c : TelecomCall) :
    asDirection (.str c.directionName) = some c.reportedDirection := by
  unfold TelecomCall.directionName TelecomCall.reportedDirection
  split
  · rfl
  · split
    · rfl
    · rfl

theorem asDirection_direction (row : SmsRow) :
    asDirection (.str row.direction) = some row.reportedDirection := by
  unfold SmsRow.direction SmsRow.reportedDirection
  split
  · rfl
  · rfl

theorem asCallRecord_entry (row : CallRow) :
    asCallRecord row.entry = some (row.record.map written) := by
  have hnumber := optional_textOrNull (k := "number") (t := row.number) (o := [("number",
    textOrNull row.number), ("kind", .str row.kind), ("ts", .int row.date.toInt),
    ("duration", .int row.duration.toInt)]) rfl
  simp [asCallRecord, CallRow.entry, asObject, hnumber, required, List.lookup_cons, asStr,
    CallRow.record, CallRecord.map]

theorem asSimInfo_entry (defaultVoice : Int32) (row : SimRow) :
    asSimInfo (row.entry defaultVoice) = some ((row.info defaultVoice).map written) := by
  simp only [asSimInfo, SimRow.entry, asObject]
  rw [optional_textOrNull (k := "name") rfl, optional_textOrNull (k := "carrier") rfl,
    optional_textOrNull (k := "number") rfl]
  simp [required, defaulted, List.lookup_cons, asBool, SimRow.info, SimInfo.map]

/-- The port is sent where there is one, and the name of the advert with it. -/
theorem asAdbReport_report (adb : AdbState) :
    asAdbReport (.obj (("wifi_enabled", .bool adb.wifiEnabled) ::
      (optField "port" (fun p => .int p.val) adb.port ++
        optField "service" AppFrame.text (if adb.port = none then none else adb.ownService)))) =
      some (adb.report.map written) := by
  have hport : ∀ p : { n : Int // 1 ≤ n ∧ n ≤ 65535 },
      asU16 (.int p.val) = some (UInt16.ofNat p.val.toNat) := by
    intro p
    have hp := p.property
    exact asU16_int (by omega) hp.2
  have hread : ∀ name : Option JText,
      Json.optional "port" asU16 (("wifi_enabled", .bool adb.wifiEnabled) ::
        (optField "port" (fun p => .int p.val) adb.port ++ optField "service" AppFrame.text name)) =
        some (adb.port.map fun p => UInt16.ofNat p.val.toNat) := by
    intro name
    apply optional_of_optField hport (fun _ h => by cases h)
    simp [List.lookup_cons, List.lookup_append, lookup_optField]
  have hname : ∀ name : Option JText,
      Json.optional "service" asStr (("wifi_enabled", .bool adb.wifiEnabled) ::
        (optField "port" (fun p => .int p.val) adb.port ++ optField "service" AppFrame.text name)) =
        some (name.map written) := by
    intro name
    apply optional_text
    simp [List.lookup_cons, List.lookup_append, lookup_optField]
  simp only [asAdbReport, asObject, hread, hname]
  simp [required, asBool, AdbState.report, AdbReport.map]

/-- An `sms` event is read unless its body is null. -/
theorem asSms_smsEvent {direction : String} {d : Daemon.Direction}
    (hd : asDirection (.str direction) = some d) (sender body : Option JText) (ts : Int64) :
    PhoneToServer.parse (smsEvent direction sender body ts) =
      body.map fun b => .sms d (sender.map written) none (written b) ts := by
  rw [smsEvent, PhoneToServer.parse_of_type rfl rfl]
  simp only [PhoneToServer.asSms]
  rw [optional_textOrNull (k := "from") rfl]
  cases body with
  -- `body` has no default, and null is no text
  | none => simp [required, hd, List.lookup_cons, textOrNull, ofOption, asStr,
      Json.optional, defaulted]
  | some b => simp [required, hd, List.lookup_cons, textOrNull, ofOption, asStr,
      Json.optional, defaulted]

/-- **The daemon's reading of a frame**: the values that the app has put there, as the socket has
written them; the frame is lost where there are none. -/
theorem parse_build (f : AppFrame) :
    PhoneToServer.parse f.build = f.fields.map fun q => q.map written := by
  cases f with
  | hello s =>
      rw [AppFrame.build, PhoneToServer.parse_of_type rfl rfl]
      simp [PhoneToServer.asHello, required, defaulted, Json.optional, nullable, List.lookup_cons,
        asStr, asArray, AppFrame.text, AppFrame.fields, PhoneToServer.map]
  | heartbeat ts adb =>
      rw [AppFrame.build, PhoneToServer.parse_of_type rfl rfl]
      simp [PhoneToServer.asHeartbeat, required, defaulted, Json.optional, nullable,
        List.lookup_cons, asAdbReport_report, AppFrame.fields, PhoneToServer.map]
  | callState c =>
      rw [AppFrame.build, PhoneToServer.parse_of_type rfl rfl, PhoneToServer.asCallStateFrame,
        optional_textOrNull (k := "number") rfl]
      simp [required, List.lookup_cons, asStr, AppFrame.text, asCallState_stateName,
        asDirection_directionName, AppFrame.fields, PhoneToServer.map]
  | received i =>
      rw [AppFrame.build, asSms_smsEvent (d := .incoming) rfl]
      simp [AppFrame.fields, PhoneToServer.map]
  | listed row =>
      -- the only frame with a null that can stand where a text is required
      rw [AppFrame.build, asSms_smsEvent (asDirection_direction row)]
      simp [AppFrame.fields, PhoneToServer.map, Function.comp_def]
  | calls rows =>
      rw [AppFrame.build, PhoneToServer.parse_of_type rfl rfl, PhoneToServer.asCalls,
        required_of_lookup (v := .arr (rows.map CallRow.entry)) rfl, asArray_map asCallRecord_entry]
      simp [AppFrame.fields, PhoneToServer.map]
  | sims defaultVoice rows =>
      rw [AppFrame.build, PhoneToServer.parse_of_type rfl rfl, PhoneToServer.asSims,
        required_of_lookup (v := .arr (rows.map (SimRow.entry defaultVoice))) rfl,
        asArray_map (asSimInfo_entry defaultVoice)]
      simp [AppFrame.fields, PhoneToServer.map]
  | mmiResult code success response =>
      rw [AppFrame.build, PhoneToServer.parse_of_type rfl rfl, PhoneToServer.asMmiResult,
        optional_text (k := "response") (t := response)]
      · simp [required, List.lookup_cons, asStr, asBool, AppFrame.text, AppFrame.fields,
          PhoneToServer.map]
      · simp [List.lookup_cons, lookup_optField]
  | voicemailResult enabled success response =>
      rw [AppFrame.build, PhoneToServer.parse_of_type rfl rfl, PhoneToServer.asVoicemailResult,
        optional_text (k := "response") (t := response)]
      · simp [required, List.lookup_cons, asBool, AppFrame.fields, PhoneToServer.map]
      · simp [List.lookup_cons, lookup_optField]
  | ack cmdId =>
      rw [AppFrame.build, PhoneToServer.parse_of_type rfl rfl]
      simp [PhoneToServer.asAck, required, List.lookup_cons, asStr, asBool, AppFrame.text,
        AppFrame.fields, PhoneToServer.map]
  | error cmdId msg =>
      rw [AppFrame.build, PhoneToServer.parse_of_type rfl rfl]
      simp [PhoneToServer.asError, required, defaulted, Json.optional, nullable, List.lookup_cons,
        asStr, AppFrame.text, AppFrame.fields, PhoneToServer.map]

/-! ## Which frames of the app agree -/

section Maps

universe u

variable {τ : Type u} {f : τ → τ}

theorem map_toList_eq_self_iff {o : Option τ} : o.map f = o ↔ ∀ t ∈ o.toList, f t = t := by
  cases o with
  | none => simp
  | some t => simp

theorem map_list_eq_self_iff {σ : Type u} {g : σ → σ} {l : List σ} :
    l.map g = l ↔ ∀ a ∈ l, g a = a := by
  induction l with
  | nil => simp
  | cons a l ih => simp [ih]

theorem AdbReport.map_eq_self_iff {r : AdbReport τ} :
    r.map f = r ↔ ∀ t ∈ r.texts, f t = t := by
  obtain ⟨wifiEnabled, port, service⟩ := r
  simp [AdbReport.map, AdbReport.texts, map_toList_eq_self_iff]

theorem CallRecord.map_eq_self_iff {r : CallRecord τ} :
    r.map f = r ↔ ∀ t ∈ r.texts, f t = t := by
  obtain ⟨number, kind, ts, duration⟩ := r
  simp [CallRecord.map, CallRecord.texts, map_toList_eq_self_iff, and_comm]

theorem SimInfo.map_eq_self_iff {i : SimInfo τ} : i.map f = i ↔ ∀ t ∈ i.texts, f t = t := by
  obtain ⟨slot, subId, name, carrier, number, isDefault⟩ := i
  simp only [SimInfo.map, SimInfo.texts, SimInfo.mk.injEq, map_toList_eq_self_iff, true_and,
    and_true, List.forall_mem_append, and_assoc]

/-- A frame stays as it is exactly when its texts do. -/
theorem PhoneToServer.map_eq_self_iff {p : PhoneToServer τ} :
    p.map f = p ↔ ∀ t ∈ p.texts, f t = t := by
  cases p with
  | hello deviceId name key caps appVersion instanceId =>
      simp only [PhoneToServer.map, PhoneToServer.texts, PhoneToServer.hello.injEq,
        map_toList_eq_self_iff, map_list_eq_self_iff, List.forall_mem_append, List.forall_mem_cons,
        List.not_mem_nil, false_imp_iff, implies_true, and_true]
      tauto
  | heartbeat ts battery adb =>
      cases adb with
      | none => simp [PhoneToServer.map, PhoneToServer.texts]
      | some r => simp [PhoneToServer.map, PhoneToServer.texts, AdbReport.map_eq_self_iff]
  | callState callId state number direction =>
      simp [PhoneToServer.map, PhoneToServer.texts, map_toList_eq_self_iff]
  | sms direction sender recipient body ts =>
      simp only [PhoneToServer.map, PhoneToServer.texts, PhoneToServer.sms.injEq,
        map_toList_eq_self_iff, List.cons_append, List.forall_mem_append, List.forall_mem_cons]
      tauto
  | calls entries =>
      simp only [PhoneToServer.map, PhoneToServer.texts, PhoneToServer.calls.injEq,
        map_list_eq_self_iff, CallRecord.map_eq_self_iff, List.forall_mem_flatMap]
  | sims entries =>
      simp only [PhoneToServer.map, PhoneToServer.texts, PhoneToServer.sims.injEq,
        map_list_eq_self_iff, SimInfo.map_eq_self_iff, List.forall_mem_flatMap]
  | mmiResult code success response =>
      simp [PhoneToServer.map, PhoneToServer.texts, map_toList_eq_self_iff]
  | voicemailResult enabled success response =>
      simp [PhoneToServer.map, PhoneToServer.texts, map_toList_eq_self_iff]
  | ack cmdId ok => simp [PhoneToServer.map, PhoneToServer.texts]
  | error cmdId msg =>
      simp [PhoneToServer.map, PhoneToServer.texts, map_toList_eq_self_iff, and_comm]

end Maps

theorem PhoneToServer.map_map {τ σ ρ : Type} (g : σ → ρ) (f : τ → σ) (p : PhoneToServer τ) :
    (p.map f).map g = p.map fun t => g (f t) := by
  cases p with
  | heartbeat ts battery adb =>
      simp [PhoneToServer.map, AdbReport.map, Function.comp_def]
  | calls entries => simp [PhoneToServer.map, CallRecord.map, Function.comp_def]
  | sims entries => simp [PhoneToServer.map, SimInfo.map, Function.comp_def]
  | _ => simp [PhoneToServer.map, Function.comp_def]

theorem AppFrame.fields_eq_none_iff {f : AppFrame} :
    f.fields = none ↔ ∃ row, f = .listed row ∧ row.body = none := by
  cases f with
  | listed row => simp [AppFrame.fields]
  | _ => simp [AppFrame.fields]

/-- **A frame of the app agrees exactly when it carries its texts.** -/
theorem AppFrame.agrees_iff (f : AppFrame) : f.Agrees ↔ f.Carried := by
  have hroundTrip : ∀ q : PhoneToServer JText,
      (q.map written).map Wire.received = q ↔ ∀ t ∈ q.texts, JText.WellFormed t := by
    intro q
    rw [PhoneToServer.map_map, PhoneToServer.map_eq_self_iff]
    exact forall_congr' fun t => imp_congr_right fun _ => received_written_iff
  cases hfields : f.fields with
  | none =>
      -- the frame has a null for its body, so there is nothing to agree on
      obtain ⟨row, rfl, hbody⟩ := AppFrame.fields_eq_none_iff.1 hfields
      refine iff_of_false ?_ fun hcarried => hcarried.1 row rfl hbody
      rintro ⟨p, q, -, hq, -⟩
      rw [hfields] at hq
      cases hq
  | some q =>
      have hparse : PhoneToServer.parse f.build = some (q.map written) := by
        rw [parse_build, hfields]
        rfl
      constructor
      · rintro ⟨p, q', hp, hq', hsame⟩
        obtain rfl := Option.some.inj (hparse.symm.trans hp)
        obtain rfl := Option.some.inj (hfields.symm.trans hq')
        refine ⟨?_, ?_⟩
        · rintro row rfl hbody
          rw [AppFrame.fields, hbody] at hfields
          cases hfields
        · intro o ho
          obtain rfl := Option.some.inj (hfields.symm.trans ho)
          exact (hroundTrip q).1 hsame
      · intro hcarried
        exact ⟨q.map written, q, hparse, hfields, (hroundTrip q).2 (hcarried.2 q hfields)⟩

/-! ## The app does what the action asks for -/

/-- The operation is the action's, with the action's arguments: what is absent stays absent, and
what is present stays present. The listing of messages has no filter that a `since` could be passed
to. -/
def Action.Asks : Action → Option Operation → Prop
  | .answer callId, some (.answer id) => id = callId.map received
  | .dial number simSubId, some (.placeCall number' sim) =>
      number' = received number ∧ sim = simSubId
  | .hangup callId, some (.hangup id) => id = callId.map received
  | .reject callId drop, some (.reject id drop') => id = callId.map received ∧ drop' = drop
  | .sendSms recipient body, some (.sendSms recipient' body') =>
      recipient' = received recipient ∧ body' = received body
  | .listSms since, some (.listSms _) => since = none
  | .listCalls, some (.listCallLog _) => True
  | .listSims, some .listSims => True
  | .mmi code simSubId, some (.sendMmi code' sim) => code' = received code ∧ sim = simSubId
  | .setVoicemail enabled number simSubId, some (.setVoicemail enabled' number' sim) =>
      enabled' = enabled ∧ number' = number.map received ∧ sim = simSubId
  | .setAutoanswer _, none => True
  | _, _ => False

/-- The ids are not empty, and no listing is limited in time. -/
def Action.Carried : Action → Prop
  | .answer callId => callId ≠ some ""
  | .hangup callId => callId ≠ some ""
  | .reject callId _ => callId ≠ some ""
  | .listSms since => since = none
  | _ => True

/-- The daemon takes the frame for the answer to a command. -/
def isReply (v : Json) : Bool :=
  match PhoneToServer.parse v with
  | some (.ack _ _) => true
  | some (.error _ _) => true
  | _ => false

/-- The daemon takes the frame for the answer to the command with this id. -/
def RepliesTo (cmdId : String) (v : Json) : Prop :=
  PhoneToServer.parse v = some (.ack cmdId true) ∨
    ∃ msg, PhoneToServer.parse v = some (.error (some cmdId) msg)

/-- The app does what the frame asks for, and answers a command once. -/
def Served (lib : OrgJson) (device : Device) : ServerToPhone → Prop
  | .cmd cmdId action =>
      let h := handle lib device (ServerToPhone.cmd cmdId action).serialize
      (∃ op : Option Operation, h.called = op.toList ∧ action.Asks op) ∧
        ∃ reply, h.frames.filter isReply = [reply] ∧ RepliesTo cmdId reply
  | .heartbeatAck =>
      handle lib device ServerToPhone.heartbeatAck.serialize = ⟨[], [], true⟩

section Commands

variable {lib : OrgJson} {device : Device} {o : Fields} {k : String}

/-- An id that is empty is none. -/
def nonEmpty (id : Option String) : Option String := id.filter fun s => !decide (s = "")

theorem nonEmpty_eq_self_iff {id : Option String} :
    (nonEmpty id).map received = id.map received ↔ id ≠ some "" := by
  cases id with
  | none => simp [nonEmpty]
  | some s =>
      by_cases hs : s = ""
      · simp [nonEmpty, hs]
      · simp [nonEmpty, hs, Option.filter]

theorem idOrNull_of_lookup {id : Option String} (h : o.lookup k = id.map .str) :
    idOrNull lib o k = (nonEmpty id).map received := by
  cases id with
  | none => simp [idOrNull, nonEmpty, lib.optString_absent h]
  | some s =>
      simp only [idOrNull, lib.optString_str h]
      by_cases hs : s = ""
      · simp [nonEmpty, hs, Option.filter]
      · simp [nonEmpty, hs, Option.filter]

theorem getText_of_lookup {s : String} (h : o.lookup k = some (.str s)) :
    getText lib o k = .ok (received s) := by
  rw [getText, lib.getString_str h]
  rfl

theorem unlessNull_getInt {n : Option Int32} (h : o.lookup k = n.map Action.i32) :
    unlessNull lib.getInt o k = .ok n := by
  cases n with
  | none => simp [unlessNull, h]
  | some n =>
      simp only [unlessNull, h, Option.map_some, Action.i32, lib.getInt_int h]
      rfl

theorem unlessNull_getText {s : Option String} (h : o.lookup k = s.map .str) :
    unlessNull (getText lib) o k = .ok (s.map received) := by
  cases s with
  | none => simp [unlessNull, h]
  | some s =>
      simp only [unlessNull, h, Option.map_some, getText_of_lookup h]
      rfl

/-- What the app calls for an action. -/
def Action.called : Action → Option Operation
  | .answer callId => some (.answer ((nonEmpty callId).map received))
  | .dial number simSubId => some (.placeCall (received number) simSubId)
  | .hangup callId => some (.hangup ((nonEmpty callId).map received))
  | .reject callId drop =>
      some (.reject ((nonEmpty callId).map received) drop)
  | .sendSms recipient body => some (.sendSms (received recipient) (received body))
  | .listSms _ => some (.listSms 20)
  | .listCalls => some (.listCallLog 50)
  | .listSims => some .listSims
  | .mmi code simSubId => some (.sendMmi (received code) simSubId)
  | .setVoicemail enabled number simSubId =>
      some (.setVoicemail enabled (number.map received) simSubId)
  | .setAutoanswer _ => none

/-- The fields of a command. -/
def cmdFields (cmdId : String) (a : Action) : Fields :=
  [("type", .str "cmd"), ("cmd_id", .str cmdId), ("action", .str a.kind)] ++ a.fields

theorem lookup_cmdFields {cmdId : String} {a : Action} (htype : k ≠ "type") (hid : k ≠ "cmd_id")
    (haction : k ≠ "action") : (cmdFields cmdId a).lookup k = a.fields.lookup k := by
  have hne : ∀ s : String, k ≠ s → (k == s) = false := fun s h => by simpa using h
  simp [cmdFields, List.lookup_cons, hne _ htype, hne _ hid, hne _ haction]

/-- **Every command reaches its operation.** The arguments are read as they were written, but an
empty id is none and a `since` is not looked at. -/
theorem operation_cmdFields (cmdId : String) (a : Action) :
    operation lib (cmdFields cmdId a) a.kind = .ok a.called := by
  have hlookup : ∀ k, k ≠ "type" → k ≠ "cmd_id" → k ≠ "action" →
      (cmdFields cmdId a).lookup k = a.fields.lookup k :=
    fun k htype hid haction => lookup_cmdFields htype hid haction
  cases a with
  | answer callId =>
      have hid := hlookup "call_id" (by decide) (by decide) (by decide)
      rw [Action.fields, lookup_optField, if_pos rfl] at hid
      simp [operation, Action.kind, Action.called, idOrNull_of_lookup hid]
  | dial number simSubId =>
      have hnumber := hlookup "number" (by decide) (by decide) (by decide)
      have hsim := hlookup "sim_sub_id" (by decide) (by decide) (by decide)
      simp only [Action.fields, List.lookup_cons, lookup_optField] at hnumber hsim
      simp only [operation, Action.kind, if_true, getText_of_lookup hnumber,
        unlessNull_getInt hsim]
      rfl
  | hangup callId =>
      have hid := hlookup "call_id" (by decide) (by decide) (by decide)
      rw [Action.fields, lookup_optField, if_pos rfl] at hid
      simp [operation, Action.kind, Action.called, idOrNull_of_lookup hid]
  | reject callId drop =>
      have hid := hlookup "call_id" (by decide) (by decide) (by decide)
      have hdrop := hlookup "drop" (by decide) (by decide) (by decide)
      simp [Action.fields, List.lookup_cons, List.lookup_append, lookup_optField] at hid hdrop
      simp [operation, Action.kind, Action.called, idOrNull_of_lookup hid,
        lib.optBoolean_bool hdrop]
  | sendSms recipient body =>
      have hto := hlookup "to" (by decide) (by decide) (by decide)
      have hbody := hlookup "body" (by decide) (by decide) (by decide)
      simp [Action.fields, List.lookup_cons] at hto hbody
      simp only [operation, Action.kind, getText_of_lookup hto, getText_of_lookup hbody]
      rfl
  -- the handler asks for twenty messages and reads no field
  | listSms since => rfl
  | listCalls => rfl
  | listSims => rfl
  | mmi code simSubId =>
      have hcode := hlookup "code" (by decide) (by decide) (by decide)
      have hsim := hlookup "sim_sub_id" (by decide) (by decide) (by decide)
      simp [Action.fields, List.lookup_cons, lookup_optField] at hcode hsim
      simp only [operation, Action.kind, getText_of_lookup hcode, unlessNull_getInt hsim]
      rfl
  | setVoicemail enabled number simSubId =>
      have henabled := hlookup "enabled" (by decide) (by decide) (by decide)
      have hnumber := hlookup "number" (by decide) (by decide) (by decide)
      have hsim := hlookup "sim_sub_id" (by decide) (by decide) (by decide)
      simp [Action.fields, List.lookup_cons, List.lookup_append, lookup_optField]
        at henabled hnumber hsim
      simp only [operation, Action.kind, lib.getBoolean_bool henabled,
        unlessNull_getText hnumber, unlessNull_getInt hsim]
      rfl
  | setAutoanswer numbers => rfl

theorem asks_called_iff (a : Action) : a.Asks a.called ↔ a.Carried := by
  cases a with
  | answer callId => exact nonEmpty_eq_self_iff
  | hangup callId => exact nonEmpty_eq_self_iff
  | reject callId drop =>
      simp only [Action.Asks, Action.called, Action.Carried, and_true]
      exact nonEmpty_eq_self_iff
  | _ => simp [Action.Asks, Action.called, Action.Carried]

/-- What an operation reports is no answer to its command. -/
theorem isReply_results {op : Operation} {answer : Option (Bool × Option JText)} {f : AppFrame}
    (hf : f ∈ results device op answer) : isReply f.build = false := by
  have hkind : ∀ q, f.fields = some q → (∀ cmdId ok, q ≠ .ack cmdId ok) ∧
      ∀ cmdId msg, q ≠ .error cmdId msg := by
    intro q hq
    cases op with
    | listSms limit =>
        obtain ⟨row, -, rfl⟩ := List.mem_map.1 hf
        obtain ⟨body, -, rfl⟩ := Option.map_eq_some_iff.1 hq
        exact ⟨fun _ _ h => (by cases h), fun _ _ h => by cases h⟩
    | listCallLog limit =>
        obtain rfl := List.mem_singleton.1 hf
        obtain rfl := Option.some.inj hq
        exact ⟨fun _ _ h => (by cases h), fun _ _ h => by cases h⟩
    | listSims =>
        obtain rfl := List.mem_singleton.1 hf
        obtain rfl := Option.some.inj hq
        exact ⟨fun _ _ h => (by cases h), fun _ _ h => by cases h⟩
    | sendMmi code sim =>
        obtain ⟨r, -, rfl⟩ := List.mem_map.1 hf
        obtain rfl := Option.some.inj hq
        exact ⟨fun _ _ h => (by cases h), fun _ _ h => by cases h⟩
    | setVoicemail enabled number sim =>
        obtain ⟨r, -, rfl⟩ := List.mem_map.1 hf
        obtain rfl := Option.some.inj hq
        exact ⟨fun _ _ h => (by cases h), fun _ _ h => by cases h⟩
    | _ => exact absurd hf List.not_mem_nil
  rw [isReply, parse_build]
  cases hfields : f.fields with
  | none => rfl
  | some q =>
      -- what the daemon reads is of the kind that the app has built
      obtain ⟨hack, herror⟩ := hkind q hfields
      cases q with
      | ack cmdId ok => exact absurd rfl (hack cmdId ok)
      | error cmdId msg => exact absurd rfl (herror cmdId msg)
      | _ => rfl

/-- The app calls the operation, and its one answer comes last. -/
theorem dispatch_cmdFields (lib : OrgJson) (device : Device) (cmdId : String) (a : Action) :
    ∃ before reply, dispatch lib device (cmdFields cmdId a) = (a.called.toList, before ++ [reply]) ∧
      (∀ f ∈ before, isReply f.build = false) ∧
      (reply = .ack (received cmdId) ∨ ∃ msg, reply = .error (received cmdId) msg) := by
  have hid : lib.optString (cmdFields cmdId a) "cmd_id" "" = cmdId := lib.optString_str rfl
  have haction : lib.optString (cmdFields cmdId a) "action" "" = a.kind := lib.optString_str rfl
  simp only [dispatch, hid, haction, operation_cmdFields]
  cases a.called with
  | none => exact ⟨[], .ack (received cmdId), rfl, fun _ h => absurd h List.not_mem_nil, Or.inl rfl⟩
  | some op =>
      cases hrun : device.run op with
      | error msg =>
          exact ⟨[], .error (received cmdId) (msg.getD (received "command failed")),
            by simp [hrun], fun _ h => absurd h List.not_mem_nil, Or.inr ⟨_, rfl⟩⟩
      | ok answer =>
          exact ⟨results device op answer, .ack (received cmdId), by simp [hrun],
            fun _ h => isReply_results h, Or.inl rfl⟩

theorem repliesTo_of_reply {cmdId : String} {reply : AppFrame}
    (h : reply = .ack (received cmdId) ∨ ∃ msg, reply = .error (received cmdId) msg) :
    isReply reply.build = true ∧ RepliesTo cmdId reply.build := by
  rcases h with rfl | ⟨msg, rfl⟩
  · have hparse : PhoneToServer.parse (AppFrame.ack (received cmdId)).build =
        some (.ack cmdId true) := by
      rw [parse_build]
      simp [AppFrame.fields, PhoneToServer.map]
    exact ⟨by rw [isReply, hparse], Or.inl hparse⟩
  · have hparse : PhoneToServer.parse (AppFrame.error (received cmdId) msg).build =
        some (.error (some cmdId) (written msg)) := by
      rw [parse_build]
      simp [AppFrame.fields, PhoneToServer.map]
    exact ⟨by rw [isReply, hparse], Or.inr ⟨_, hparse⟩⟩

/-- A command is served exactly when the app can carry it out as it asks. -/
theorem served_cmd_iff (lib : OrgJson) (device : Device) (cmdId : String) (a : Action) :
    Served lib device (.cmd cmdId a) ↔ a.Carried := by
  obtain ⟨before, reply, hdone, hbefore, hreply⟩ := dispatch_cmdFields lib device cmdId a
  have hhandle : handle lib device (ServerToPhone.cmd cmdId a).serialize =
      ⟨a.called.toList, (before ++ [reply]).map AppFrame.build, false⟩ := by
    have htype : lib.optString (cmdFields cmdId a) "type" "" = "cmd" := lib.optString_str rfl
    rw [show (ServerToPhone.cmd cmdId a).serialize = .obj (cmdFields cmdId a) from rfl]
    simp [handle, htype, hdone]
  simp only [Served, hhandle]
  rw [← asks_called_iff]
  constructor
  · rintro ⟨⟨op, hop, hasks⟩, -⟩
    -- one operation at most is called, so it is the one that is asked for
    have hsame : a.called = op := by
      have hhead := congrArg List.head? hop
      simpa using hhead
    rwa [hsame]
  · intro hasks
    obtain ⟨hmark, hreplies⟩ := repliesTo_of_reply hreply
    refine ⟨⟨a.called, rfl, hasks⟩, reply.build, ?_, hreplies⟩
    -- of what the app sends only the last frame answers the command
    rw [List.map_append, List.filter_append, List.filter_eq_nil_iff.2, List.nil_append]
    · simp [hmark]
    · intro v hv
      obtain ⟨f, hf, rfl⟩ := List.mem_map.1 hv
      simp [hbefore f hf]

theorem served_heartbeatAck (lib : OrgJson) (device : Device) :
    Served lib device .heartbeatAck := by
  have htype : lib.optString [("type", .str "heartbeat_ack")] "type" "" = "heartbeat_ack" :=
    lib.optString_str rfl
  simp [Served, ServerToPhone.serialize, handle, htype]

end Commands

/-! ## Both directions -/

/-- A frame of either side, with the phone that it finds. -/
inductive WireFrame where
  | toPhone (device : Device) (f : ServerToPhone)
  | toDaemon (f : AppFrame)

/-- The other side does what the frame asks for, or reads what it says. -/
def Understood (lib : OrgJson) : WireFrame → Prop
  | .toPhone device f => Served lib device f
  | .toDaemon f => f.Agrees

/-- A command asks for nothing that the app cannot carry out; a frame of the app has no null where
the daemon wants a text, and no text that UTF-8 cannot carry. -/
def WireFrame.Carried : WireFrame → Prop
  | .toPhone _ (.cmd _ action) => action.Carried
  | .toPhone _ .heartbeatAck => True
  | .toDaemon f => f.Carried

/-- **The two sides understand each other exactly on the frames that carry what they say.** -/
theorem understood_iff (lib : OrgJson) (f : WireFrame) : Understood lib f ↔ f.Carried := by
  cases f with
  | toPhone device f =>
      cases f with
      | cmd cmdId action => exact served_cmd_iff lib device cmdId action
      | heartbeatAck => exact iff_of_true (served_heartbeatAck lib device) trivial
  | toDaemon f => exact f.agrees_iff

/-- The library on objects whose fields are of the kinds that are asked for. -/
def OrgJson.plain : OrgJson where
  getString o k := match o.lookup k with
    | some (.str s) => .ok s
    | _ => .error (received ("No value for " ++ k))
  getInt o k := match (o.lookup k).bind asI32 with
    | some n => .ok n
    | none => .error (received ("No value for " ++ k))
  getBoolean o k := match o.lookup k with
    | some (.bool b) => .ok b
    | _ => .error (received ("No value for " ++ k))
  optString o k d := match o.lookup k with
    | some (.str s) => s
    | _ => d
  optBoolean o k d := match o.lookup k with
    | some (.bool b) => b
    | _ => d
  getString_str h := by simp [h]
  getInt_int h := by simp [h]
  getBoolean_bool h := by simp [h]
  optString_str h := by simp [h]
  optString_absent h := by simp [h]
  optBoolean_bool h := by simp [h]

/-- A message in the store whose body is null: the app reports it, and the daemon drops the frame. -/
theorem not_understood_nullBody :
    ¬ Understood OrgJson.plain (.toDaemon (.listed ⟨some (received "+15550100"), none, 1, 1⟩)) := by
  rintro ⟨p, q, hparse, -, -⟩
  rw [parse_build] at hparse
  cases hparse

end DialF.Wire
