import DialF.Daemon.Reconnect
import DialF.Daemon.CallMarkers
import DialF.Daemon.Inbound

/-!
# Frames of a superseded connection

A phone that opens a new socket leaves its old one behind. The new connection tells the old reader
to close, and until the reader looks it goes on reading; `handle_phone_msg` is given the device id
and not the connection, so that a frame of the old socket is handled like one of the new.

The machine adds to the daemon and its connections all that frames change: the markers, the pending
orphans, the ack tables, the messages, the results, the links to adb and its status, and the jobs.
A frame is handled in stages, each a critical section of `handle_phone_msg` or of what it calls
(`exec`); a check of adb that a heartbeat starts goes on by itself. A frame is `late` where a newer
connection of the device has been registered before it is read, and `disturbed` records that a late
frame, or a check that it started, has changed the device (`view`).

`mute_along_iff` gives the runs in which a superseded connection is mute, by what each stage of
a late frame finds.
-/

set_option autoImplicit false

namespace DialF.Daemon

open DialF.Lib

/-- An SMS in an inbox. -/
structure SmsRecord where
  direction : Direction
  sender : Option String
  recipient : Option String
  body : String
  ts : Int
  deriving DecidableEq

/-- `MmiResult`. -/
structure MmiResult where
  code : String
  success : Bool
  response : Option String
  deriving DecidableEq

/-- `VoicemailResult`. -/
structure VoicemailResult where
  enabled : Bool
  success : Bool
  response : Option String
  deriving DecidableEq

/-- `AdbState`. -/
inductive AdbState where
  | off
  | available
  | connecting
  | connected
  | needsPairing
  | blockedLocalNetwork
  | adbNotFound
  | error
  deriving DecidableEq

/-- What `devices.list` shows under `adb`. -/
structure AdbStatus where
  endpoint : Option String
  serial : Option String
  state : AdbState
  detail : Option String
  deriving DecidableEq

/-- `ip:port` as adb names it, bracketing IPv6. -/
def adbEndpoint (ip : String) (port : Nat) : String :=
  if ':' ∈ ip.toList then "[" ++ ip ++ "]:" ++ port.repr else ip ++ ":" ++ port.repr

/-- The link to a phone's adb. Its backoff bears only on what a check comes to. -/
structure AdbLink where
  endpoint : Option String
  busy : Bool
  deriving DecidableEq

/-- How many messages an inbox keeps. -/
def inboxCap : Nat := 200

/-- `record_sms`: append, and drop from the front what is too much. -/
def pushSms (inbox : List SmsRecord) (rec : SmsRecord) : List SmsRecord :=
  (inbox ++ [rec]).drop ((inbox ++ [rec]).length - inboxCap)

/-- What is left to do for a frame. -/
inductive FrameStage where
  | slot (nowMs : Int) (report : CallReport)
  | orphan (report : CallReport)
  | judge (report : CallReport) (marked : Option String)
  | mark (report : CallReport)
  | unmark
  | unpend
  | route (report : CallReport)
  | act (report : CallReport) (handler : InboundHandler)
  | seen (nowMs : Int) (adb : Option AdbReport)
  | addr (adb : AdbReport)
  | off (detail : Option String)
  | link (endpoint : String)
  | shown (endpoint : String)
  | available (endpoint : String)
  | check (endpoint : String)
  | sms (rec : SmsRecord)
  | calls (entries : List String)
  | sims (entries : List String)
  | mmi (result : MmiResult)
  | voicemail (result : VoicemailResult)
  | ack (cmdId : String)
  | resolve (gen : Nat) (cmdId : String)
  deriving DecidableEq

/-- The first stage of a frame. A second hello and an error that names no command are only logged. -/
def PhoneToServer.firstStage (nowMs : Int) : PhoneToServer → Option FrameStage
  | .hello _ _ _ _ => none
  | .heartbeat _ adb => some (.seen nowMs adb)
  | .callState report => some (.slot nowMs report)
  | .sms direction sender recipient body ts =>
      some (.sms ⟨direction, sender, recipient, body, ts⟩)
  | .calls entries => some (.calls entries)
  | .sims entries => some (.sims entries)
  | .mmiResult code success response => some (.mmi ⟨code, success, response⟩)
  | .voicemailResult enabled success response => some (.voicemail ⟨enabled, success, response⟩)
  | .ack cmdId _ => some (.ack cmdId)
  | .error (some cmdId) _ => some (.ack cmdId)
  | .error none _ => none

/-- A frame that a handler is handling. -/
structure FrameWork where
  socket : Nat
  device : String
  late : Bool
  stage : FrameStage
  deriving DecidableEq

/-- How far a check of adb has come. -/
inductive CheckPhase where
  | checking
  | reporting (status : AdbStatus)
  deriving DecidableEq

/-- A check of adb that a heartbeat has started. -/
structure AdbCheck where
  device : String
  endpoint : String
  late : Bool
  phase : CheckPhase
  deriving DecidableEq

/-- A command that awaits its ack in the table of a connection. -/
structure AckWaiter where
  device : String
  gen : Nat
  cmdId : String
  deriving DecidableEq

/-- The daemon and its connections, and what frames change besides. `registered` has the connections
in the order of their registration, `jobs` the auto-answer jobs with the device and the call. -/
structure Frames where
  net : Reconnect
  registered : List (String × Nat)
  work : List FrameWork
  waiters : List AckWaiter
  markers : MarkerDir
  pendingOrphans : AList fun _ : String => String
  routes : Routes
  jobs : List (String × String)
  inbox : AList fun _ : String => List SmsRecord
  callLog : AList fun _ : String => List String
  sims : AList fun _ : String => List String
  mmiResults : AList fun _ : String => MmiResult
  voicemailResults : AList fun _ : String => VoicemailResult
  adb : AList fun _ : String => AdbStatus
  links : AList fun _ : String => AdbLink
  checks : List AdbCheck
  disturbed : Bool

/-- What can happen to the frames of the phones and to who waits for them. -/
inductive FramesLabel where
  | net (a : ReconnectLabel)
  | read (i : Nat) (nowMs : Int) (f : PhoneToServer)
  | handle (j : Nat)
  | abandon (j : Nat)
  | await (device : String) (gen : Nat) (cmdId : String)
  | forget (j : Nat)
  | drain (device : String) (gen : Nat)
  | setRoutes (routes : Routes)
  | connecting (j : Nat)
  | checked (j : Nat) (outcome : Option AdbStatus)
  | report (j : Nat)

namespace Frames

/-- A daemon that has just started, with the markers and the configuration it finds. -/
def start (markers : MarkerDir) (routes : Routes) : Frames where
  net := .start "" false 0
  registered := []
  work := []
  waiters := []
  markers := markers
  pendingOrphans := markers.loadCallMarkers
  routes := routes
  jobs := []
  inbox := ∅
  callLog := ∅
  sims := ∅
  mmiResults := ∅
  voicemailResults := ∅
  adb := ∅
  links := ∅
  checks := []
  disturbed := false

/-- The registry of the daemon. -/
def registry (s : Frames) : Registry := s.net.daemon.registry

/-- The registry of the daemon, replaced. -/
def setRegistry (s : Frames) (registry : Registry) : Frames :=
  { s with net := { s.net with daemon := { s.net.daemon with registry := registry } } }

/-- `Hub::fire`. -/
def fire (s : Frames) (device : String) (action : Action) : Frames :=
  { s with net := { s.net with daemon := s.net.daemon.fire device action } }

/-- `set_status`: a device without a record has no status. -/
def setStatus (s : Frames) (device : String) (status : AdbStatus) : Frames :=
  match s.registry.get device with
  | some _ => { s with adb := s.adb.insert device status }
  | none => s

/-- The status in the device's record. -/
def adbStatus (s : Frames) (device : String) : Option AdbStatus :=
  (s.registry.get device).bind fun _ => s.adb.lookup device

/-- Take the card for an auto-answer job, and start it. -/
def startJob (s : Frames) (device callId : String) : Frames :=
  { s with
    net := { s.net with daemon := { s.net.daemon with cardBusy := true } }
    jobs := s.jobs ++ [(device, callId)] }

/-- `trigger_autoanswer`. -/
def triggerAutoanswer (s : Frames) (device : String) (report : CallReport) :
    InboundHandler → Frames
  | .answerOnly => s.fire device (.answer (some report.callId))
  | handler =>
      if Inbound.wantsOther device handler then s
      else if s.net.daemon.cardBusy then s
      else s.startJob device report.callId

/-- What follows the slot in the handling of a report: the markers, or the routing of a call that
rings. -/
def afterSlot (report : CallReport) : Option FrameStage :=
  match report.state with
  | .active => some (.orphan report)
  | .ended => some .unmark
  | .ringing =>
      match report.direction with
      | .incoming => some (.route report)
      | .outgoing => none
  | .dialing => none

/-- One stage of a frame of the device, and what is left to do after it. -/
def exec (s : Frames) (device : String) (late : Bool) : FrameStage → Frames × Option FrameStage
  | .slot nowMs report =>
      (s.setRegistry (s.registry.onCallState device nowMs report), afterSlot report)
  | .orphan report =>
      ({ s with pendingOrphans := s.pendingOrphans.erase device },
        some (.judge report (s.pendingOrphans.lookup device)))
  -- the marker of an earlier daemon: its call is hung up where no job has the card now
  | .judge report (some marked) =>
      let t := { s with markers := s.markers.removeCallMarker device }
      (if marked = report.callId ∧ s.net.daemon.cardBusy = false then
          t.fire device (.hangup (some report.callId))
        else t,
        some (.mark report))
  | .judge report none => (s, some (.mark report))
  | .mark report =>
      (if s.net.daemon.cardBusy then
          { s with markers := s.markers.writeCallMarker device report.callId }
        else s,
        none)
  | .unmark => ({ s with markers := s.markers.removeCallMarker device }, some .unpend)
  | .unpend => ({ s with pendingOrphans := s.pendingOrphans.erase device }, none)
  | .route report => (s, (report.number.bind s.routes.resolveInbound).map (.act report))
  | .act report handler => (s.triggerAutoanswer device report handler, none)
  -- a heartbeat does not touch the slot of the call
  | .seen nowMs adb => (s.setRegistry (s.registry.onHeartbeat device nowMs), adb.map .addr)
  | .addr adb =>
      (s,
        match (s.registry.get device).bind DeviceInfo.addr with
        | some ip =>
            match adb.wifiEnabled, adb.port with
            | false, _ => some (.off none)
            | true, none =>
                some (.off (some
                  "wireless debugging is on; the phone has not found its port yet"))
            | true, some port => some (.link (adbEndpoint ip port))
        | none => none)
  | .off detail => (s.setStatus device ⟨none, none, .off, detail⟩, none)
  | .link endpoint =>
      match s.links.lookup device with
      -- a check of the device is under way
      | some ⟨_, true⟩ => (s, none)
      | _ => ({ s with links := s.links.insert device ⟨some endpoint, true⟩ }, some (.shown endpoint))
  | .shown endpoint =>
      (s,
        if (s.adbStatus device).bind AdbStatus.endpoint = some endpoint then some (.check endpoint)
        else some (.available endpoint))
  | .available endpoint =>
      (s.setStatus device ⟨some endpoint, none, .available, none⟩, some (.check endpoint))
  | .check endpoint => ({ s with checks := s.checks ++ [⟨device, endpoint, late, .checking⟩] }, none)
  | .sms rec =>
      ({ s with inbox := s.inbox.insert device (pushSms ((s.inbox.lookup device).getD []) rec) },
        none)
  | .calls entries => ({ s with callLog := s.callLog.insert device entries }, none)
  | .sims entries => ({ s with sims := s.sims.insert device entries }, none)
  | .mmi result => ({ s with mmiResults := s.mmiResults.insert device result }, none)
  | .voicemail result =>
      ({ s with voicemailResults := s.voicemailResults.insert device result }, none)
  -- by the device's connection of now, whichever socket the ack came from
  | .ack cmdId => (s, (s.net.daemon.hub.conn device).map fun conn => .resolve conn.gen cmdId)
  | .resolve gen cmdId =>
      ({ s with waiters := s.waiters.filter fun w => !(w.gen == gen && w.cmdId == cmdId) }, none)

/-- What the daemon has for a device, and what it has done for its calls. -/
structure DeviceView where
  currentCall : Option CallInfo
  marker : Option (List Char)
  orphan : Option String
  waiters : List AckWaiter
  inbox : Option (List SmsRecord)
  mmi : Option MmiResult
  voicemail : Option VoicemailResult
  adb : Option AdbStatus
  answers : List (String × Action)
  jobs : List (String × String)
  deriving DecidableEq

/-- The command answers a call of the device. -/
def isAnswerOf (device : String) : String × Action → Bool
  | (other, .answer _) => other == device
  | _ => false

/-- All that the daemon holds of one device. -/
def view (s : Frames) (device : String) : DeviceView where
  currentCall := s.registry.currentCall device
  marker := s.markers.lookup (callMarkerFile device)
  orphan := s.pendingOrphans.lookup device
  waiters := s.waiters.filter fun w => w.device == device
  inbox := s.inbox.lookup device
  mmi := s.mmiResults.lookup device
  voicemail := s.voicemailResults.lookup device
  adb := s.adbStatus device
  answers := s.net.daemon.fired.filter (isAnswerOf device)
  jobs := s.jobs.filter fun j => j.1 == device

/-- The state `t` to which a late frame of the device, or one that is not late, leads. -/
def judged (s t : Frames) (device : String) (late : Bool) : Frames :=
  { t with disturbed := s.disturbed || (late && decide (t.view device ≠ s.view device)) }

/-- A newer connection of the device has been registered. -/
def isLate (s : Frames) (device : String) (gen : Nat) : Bool :=
  s.registered.any fun r => r.1 == device && decide (gen < r.2)

/-- The connections registered after a step of the handlers. -/
def registeredAfter (s : Frames) : ReconnectLabel → List (String × Nat)
  | .advance i _ =>
      match s.net.handlers[i]? with
      | some h =>
          match h.phase with
          | .looked _ _ => s.registered ++ [(h.hello.deviceId, s.net.daemon.hub.connGen)]
          | _ => s.registered
      | none => s.registered
  | _ => s.registered

/-- The adb statuses after a step of the handlers: a new record has none. -/
def adbAfter (s : Frames) : ReconnectLabel → AList fun _ : String => AdbStatus
  | .advance i _ =>
      match s.net.handlers[i]? with
      | some h =>
          match h.phase with
          | .registered _ _ _ => s.adb.erase h.hello.deviceId
          | _ => s.adb
      | none => s.adb
  | _ => s.adb

/-- The steps of the handlers, the reaper and the card; a handler stops between two frames. -/
def isServer (s : Frames) : ReconnectLabel → Bool
  | .hello _ | .advance _ _ | .reap _ | .dropReaped | .setBusy _ => true
  | .stop i => !s.work.any fun w => w.socket == i
  | _ => false

/-- One step. -/
def step (s : Frames) : FramesLabel → Option Frames
  | .net a =>
      if s.isServer a then
        match s.net.next a with
        | some net =>
            some { s with net := net, registered := s.registeredAfter a, adb := s.adbAfter a }
        | none => none
      else none
  | .read i nowMs f =>
      match s.net.handlers[i]? with
      | some ⟨hello, .serving gen⟩ =>
          -- a handler takes its frames one after another
          if s.work.any fun w => w.socket == i then none
          else
            match f.firstStage nowMs with
            | some stage =>
                some { s with
                  work := s.work ++
                    [⟨i, hello.deviceId, s.isLate hello.deviceId gen, stage⟩] }
            | none => some s
      | _ => none
  | .handle j =>
      match s.work[j]? with
      | some w =>
          let next := s.exec w.device w.late w.stage
          some { s.judged next.1 w.device w.late with
            work :=
              match next.2 with
              | some stage => s.work.set j { w with stage := stage }
              | none => s.work.eraseIdx j }
      | none => none
  -- a reader that is told to close is dropped where it waits
  | .abandon j => some { s with work := s.work.eraseIdx j }
  -- the waiters of all tables are one list, each with its table's connection
  | .await device gen cmdId =>
      if (device, gen) ∈ s.registered then
        some { s with waiters := s.waiters ++ [⟨device, gen, cmdId⟩] }
      else none
  | .forget j => some { s with waiters := s.waiters.eraseIdx j }
  -- the table of a connection that is no longer the device's
  | .drain device gen =>
      if (s.net.daemon.hub.conn device).map WsConn.gen = some gen then none
      else
        some { s with
          waiters := s.waiters.filter fun w => !(w.device == device && w.gen == gen) }
  | .setRoutes routes => some { s with routes := routes }
  | .connecting j =>
      match s.checks[j]? with
      | some ⟨device, endpoint, late, .checking⟩ =>
          some (s.judged (s.setStatus device ⟨some endpoint, none, .connecting, none⟩) device late)
      | _ => none
  | .checked j outcome =>
      match s.checks[j]? with
      | some ⟨device, endpoint, late, .checking⟩ =>
          some { s with
            links := s.links.insert device
              ⟨((s.links.lookup device).bind AdbLink.endpoint), false⟩
            checks :=
              match outcome with
              | some status => s.checks.set j ⟨device, endpoint, late, .reporting status⟩
              | none => s.checks.eraseIdx j }
      | _ => none
  | .report j =>
      match s.checks[j]? with
      | some ⟨device, _, late, .reporting status⟩ =>
          some { s.judged (s.setStatus device status) device late with
            checks := s.checks.eraseIdx j }
      | _ => none

/-- All runs, from any markers and routes. -/
def machine : Machine Frames FramesLabel where
  Init s := ∃ markers routes, s = start markers routes
  step := step

/-- **A superseded connection is mute.** No frame that was read from a socket after a newer
connection of the device had been registered has changed anything of the device. -/
def Undisturbed (s : Frames) : Prop := s.disturbed = false

/-- The status is the one that the record has, if there is a record. -/
def StatusStands (s : Frames) (device : String) (status : AdbStatus) : Prop :=
  s.registry.get device = none ∨ s.adb.lookup device = some status

/-- A stage finds nothing to change. -/
def Idle (s : Frames) (device : String) : FrameStage → Prop
  | .slot _ report =>
      s.registry.get device = none ∨ s.registry.currentCall device = report.slot
  | .orphan _ | .unpend => s.pendingOrphans.lookup device = none
  | .judge _ marked => marked = none ∨ s.markers.lookup (callMarkerFile device) = none
  | .mark report =>
      s.net.daemon.cardBusy = false ∨
        s.markers.lookup (callMarkerFile device) = some (markerText device report.callId)
  | .unmark => s.markers.lookup (callMarkerFile device) = none
  | .act _ .answerOnly => s.net.daemon.hub.conn device = none
  | .act _ handler => Inbound.wantsOther device handler = true ∨ s.net.daemon.cardBusy = true
  | .off detail => s.StatusStands device ⟨none, none, .off, detail⟩
  | .available endpoint => s.StatusStands device ⟨some endpoint, none, .available, none⟩
  | .sms rec => s.inbox.lookup device = some (List.replicate inboxCap rec)
  | .mmi result => s.mmiResults.lookup device = some result
  | .voicemail result => s.voicemailResults.lookup device = some result
  | .resolve gen cmdId => ∀ w ∈ s.waiters, w.device = device → ¬ (w.gen = gen ∧ w.cmdId = cmdId)
  | .route _ | .seen _ _ | .addr _ | .link _ | .shown _ | .check _ | .calls _ | .sims _ | .ack _ =>
      True

/-- Every stage of a late frame finds nothing to change, and neither does a check of adb that a late
frame has started. -/
def Mute (s : Frames) : FramesLabel → Prop
  | .handle j => ∀ w, s.work[j]? = some w → w.late = true → s.Idle w.device w.stage
  | .connecting j =>
      ∀ c, s.checks[j]? = some c → c.late = true →
        s.StatusStands c.device ⟨some c.endpoint, none, .connecting, none⟩
  | .report j =>
      ∀ c status, s.checks[j]? = some c → c.phase = .reporting status → c.late = true →
        s.StatusStands c.device status
  | _ => True

/-! ## What a stage changes -/

variable {s t : Frames} {device : String}

/-- A list that is its own shift repeats what comes in. -/
theorem eq_replicate_of_shift {α : Type} {l : List α} {x first : α} (h : l ++ [x] = first :: l) :
    first = x ∧ l = List.replicate l.length x := by
  induction l generalizing first with
  | nil => exact ⟨(List.head_eq_of_cons_eq h).symm, rfl⟩
  | cons second l ih =>
      obtain ⟨rfl, hrest⟩ := List.cons.inj h
      obtain ⟨rfl, hl⟩ := ih hrest
      refine ⟨rfl, ?_⟩
      rw [List.length_cons, List.replicate_succ, ← hl]

/-- Pushing into an inbox leaves it as it is exactly where it is full of that message. -/
theorem pushSms_eq_self {inbox : List SmsRecord} {rec : SmsRecord} :
    pushSms inbox rec = inbox ↔ inbox = List.replicate inboxCap rec := by
  have hcap : 0 < inboxCap := by decide
  constructor
  · intro h
    have hlength := congrArg List.length h
    simp only [pushSms, List.length_drop, List.length_append, List.length_singleton] at hlength
    -- what is pushed out is as much as comes in
    have hfull : inbox.length = inboxCap := by omega
    cases inbox with
    | nil =>
        rw [List.length_nil] at hfull
        omega
    | cons first inbox =>
        rw [pushSms, List.length_append, List.length_singleton, hfull,
          Nat.add_sub_cancel_left] at h
        obtain ⟨rfl, hrest⟩ := eq_replicate_of_shift h
        rw [hrest, ← List.replicate_succ, ← hfull, List.length_cons]
  · rintro rfl
    rw [pushSms, List.length_append, List.length_replicate, List.length_singleton,
      Nat.add_sub_cancel_left, ← List.replicate_succ', List.drop_replicate]
    rfl

/-- The status is the record's, so only whether there is one matters to it. -/
theorem adbStatus_setRegistry {registry : Registry}
    (h : registry.get device = none ↔ s.registry.get device = none) :
    (s.setRegistry registry).adbStatus device = s.adbStatus device := by
  show (registry.get device).bind _ = (s.registry.get device).bind _
  cases hget : s.registry.get device with
  | none =>
      rw [h.2 hget]
      rfl
  | some dev =>
      obtain ⟨dev', hdev'⟩ : ∃ dev', registry.get device = some dev' := by
        apply Option.ne_none_iff_exists'.1
        intro hnone
        simp [h.1 hnone] at hget
      rw [hdev']
      rfl

/-- A status changes the device unless it stands already. -/
theorem view_setStatus {status : AdbStatus} :
    (s.setStatus device status).view device = s.view device ↔ s.StatusStands device status := by
  unfold StatusStands setStatus
  cases hget : s.registry.get device with
  | none => simp
  | some dev =>
      have hstatus : ({ s with adb := s.adb.insert device status } : Frames).adbStatus device =
          some status := by
        show (s.registry.get device).bind _ = some status
        rw [hget]
        exact AList.lookup_insert s.adb
      have hold : s.adbStatus device = s.adb.lookup device := by
        rw [adbStatus, hget]
        rfl
      constructor
      · intro h
        have hadb := congrArg DeviceView.adb h
        simp only [view, hstatus, hold] at hadb
        exact .inr hadb.symm
      · rintro (hnone | hlookup)
        · simp at hnone
        · simp only [view, hstatus, hold, hlookup]
          rfl

/-- A hangup changes nothing of the device. -/
theorem view_fire_hangup (callId : Option String) :
    (s.fire device (.hangup callId)).view device = s.view device := by
  have hfired : (s.net.daemon.fire device (.hangup callId)).fired.filter (isAnswerOf device) =
      s.net.daemon.fired.filter (isAnswerOf device) := by
    unfold DaemonState.fire
    split
    · rw [List.filter_append]
      exact List.append_nil _
    · rfl
  simp only [view, fire, registry, adbStatus, DaemonState.fire_registry, hfired]

/-- An answer is sent exactly where the device is connected. -/
theorem view_fire_answer (callId : Option String) :
    (s.fire device (.answer callId)).view device = s.view device ↔
      s.net.daemon.hub.conn device = none := by
  have hiff : (s.net.daemon.fire device (.answer callId)).fired.filter (isAnswerOf device) =
      s.net.daemon.fired.filter (isAnswerOf device) ↔ s.net.daemon.hub.conn device = none := by
    unfold DaemonState.fire
    cases hconn : s.net.daemon.hub.conn device with
    | none => simp
    | some conn => simp [List.filter_append, isAnswerOf]
  rw [← hiff]
  simp only [view, fire, registry, adbStatus, DaemonState.fire_registry, DeviceView.mk.injEq,
    true_and, and_true]

/-- The marker of the device, removed. -/
theorem view_removeCallMarker :
    ({ s with markers := s.markers.removeCallMarker device } : Frames).view device =
        s.view device ↔ s.markers.lookup (callMarkerFile device) = none := by
  have herase : (s.markers.removeCallMarker device).lookup (callMarkerFile device) = none :=
    AList.lookup_erase _ s.markers
  simpa [view, registry, adbStatus, herase] using eq_comm

theorem view_writeCallMarker (callId : String) :
    ({ s with markers := s.markers.writeCallMarker device callId } : Frames).view device =
        s.view device ↔
      s.markers.lookup (callMarkerFile device) = some (markerText device callId) := by
  have hwrite : (s.markers.writeCallMarker device callId).lookup (callMarkerFile device) =
      some (markerText device callId) := AList.lookup_insert s.markers
  simpa [view, registry, adbStatus, hwrite] using eq_comm

/-- A handler that runs a job changes the device where it starts the job. -/
theorem view_runs (report : CallReport) (handler : InboundHandler) :
    (if Inbound.wantsOther device handler then s
      else if s.net.daemon.cardBusy then s
      else s.startJob device report.callId).view device = s.view device ↔
        Inbound.wantsOther device handler = true ∨ s.net.daemon.cardBusy = true := by
  split
  · rename_i hwants
    exact iff_of_true rfl (.inl hwants)
  · rename_i hwants
    split
    · rename_i hbusy
      exact iff_of_true rfl (.inr hbusy)
    · rename_i hbusy
      refine iff_of_false ?_ fun h => h.elim hwants hbusy
      -- the job that is started is one more of the device's
      intro h
      have hjobs := congrArg DeviceView.jobs h
      simp [view, startJob] at hjobs

/-- A message changes the inbox unless it is full of that message. -/
theorem view_pushSms (rec : SmsRecord) :
    ({ s with inbox := s.inbox.insert device (pushSms ((s.inbox.lookup device).getD []) rec) } :
        Frames).view device = s.view device ↔
      s.inbox.lookup device = some (List.replicate inboxCap rec) := by
  have hinbox : ({ s with
      inbox := s.inbox.insert device (pushSms ((s.inbox.lookup device).getD []) rec) } :
        Frames).view device = s.view device ↔
      some (pushSms ((s.inbox.lookup device).getD []) rec) = s.inbox.lookup device := by
    simp [view, registry, adbStatus]
  rw [hinbox]
  cases hlookup : s.inbox.lookup device with
  | none => simp
  | some inbox => simp [pushSms_eq_self]

/-- An answer to a command changes the device where a waiter of the device is for it. -/
theorem view_resolve (gen : Nat) (cmdId : String) :
    ({ s with waiters := s.waiters.filter fun w => !(w.gen == gen && w.cmdId == cmdId) } :
        Frames).view device = s.view device ↔
      ∀ w ∈ s.waiters, w.device = device → ¬ (w.gen = gen ∧ w.cmdId = cmdId) := by
  have hwaiters : ({ s with
      waiters := s.waiters.filter fun w => !(w.gen == gen && w.cmdId == cmdId) } :
        Frames).view device = s.view device ↔
      (s.waiters.filter fun w => !(w.gen == gen && w.cmdId == cmdId)).filter
          (fun w => w.device == device) = s.waiters.filter fun w => w.device == device := by
    simp [view, registry, adbStatus]
  rw [hwaiters, List.filter_comm, List.filter_eq_self]
  simp only [List.mem_filter, beq_iff_eq, Bool.not_eq_true', Bool.and_eq_false_imp, and_imp]
  refine forall_congr' fun w => forall_congr' fun hw => forall_congr' fun hdevice => ?_
  simp

/-- A frame that changes the registry changes the device through its slot alone. -/
theorem view_setRegistry {registry : Registry}
    (h : registry.get device = none ↔ s.registry.get device = none) :
    (s.setRegistry registry).view device = s.view device ↔
      registry.currentCall device = s.registry.currentCall device := by
  have hadb := adbStatus_setRegistry h
  constructor
  · intro hview
    exact congrArg DeviceView.currentCall hview
  · intro hslot
    have hslot' : (s.setRegistry registry).registry.currentCall device =
        s.registry.currentCall device := hslot
    simp only [view, hadb, hslot']
    rfl

/-- **What a stage changes.** A stage leaves the device as it is exactly when it finds nothing to
change. -/
theorem view_exec (late : Bool) (stage : FrameStage) :
    (s.exec device late stage).1.view device = s.view device ↔ s.Idle device stage := by
  cases stage with
  | slot nowMs report =>
      refine (view_setRegistry Registry.get_onCallState_eq_none).trans ?_
      simp only [Idle]
      by_cases hrecord : s.registry.get device = none
      · refine iff_of_true ?_ (.inl hrecord)
        simp [Registry.currentCall, hrecord, Registry.get_onCallState_eq_none.2 hrecord]
      · rw [Registry.currentCall_onCallState hrecord]
        simpa [hrecord] using eq_comm
  | orphan report => simpa [exec, view, Idle, registry, adbStatus] using eq_comm
  | judge report marked =>
      cases marked with
      | none => exact iff_of_true rfl (.inl rfl)
      | some marked =>
          simp only [exec, Idle, reduceCtorEq, false_or]
          rw [← view_removeCallMarker]
          split
          · rw [view_fire_hangup]
          · exact Iff.rfl
  | mark report =>
      -- no marker is written while the card is free
      simp only [exec, Idle]
      cases hbusy : s.net.daemon.cardBusy with
      | false => exact iff_of_true rfl (.inl rfl)
      | true => simpa using view_writeCallMarker report.callId
  | unmark => exact view_removeCallMarker
  | unpend => simpa [exec, view, Idle, registry, adbStatus] using eq_comm
  | act report handler =>
      cases handler with
      | answerOnly => exact view_fire_answer _
      | job path want => exact view_runs report _
      | steps steps => exact view_runs report _
  | seen nowMs adb =>
      refine (view_setRegistry Registry.get_onHeartbeat_eq_none).trans ?_
      exact iff_of_true (Registry.currentCall_onHeartbeat nowMs) trivial
  | off detail => exact view_setStatus
  | available endpoint => exact view_setStatus
  | sms rec =>
      simp only [exec, Idle]
      exact view_pushSms rec
  | mmi result => simpa [exec, view, Idle, registry, adbStatus] using eq_comm
  | voicemail result => simpa [exec, view, Idle, registry, adbStatus] using eq_comm
  | resolve gen cmdId =>
      simp only [exec, Idle]
      exact view_resolve gen cmdId
  | link endpoint =>
      refine iff_of_true ?_ trivial
      simp only [exec]
      split <;> rfl
  | route _ | addr _ | shown _ | check _ | calls _ | sims _ | ack _ =>
      exact iff_of_true rfl trivial

/-! ## One step -/

theorem undisturbed_judged {late : Bool} (hs : Undisturbed s) :
    Undisturbed (s.judged t device late) ↔ (late = true → t.view device = s.view device) := by
  unfold Undisturbed at hs ⊢
  simp [judged, hs]

/-- The other steps write nothing of a frame. -/
theorem step_disturbed {a : FramesLabel} (h : s.step a = some t) (hhandle : ∀ j, a ≠ .handle j)
    (hconnecting : ∀ j, a ≠ .connecting j) (hreport : ∀ j, a ≠ .report j) :
    t.disturbed = s.disturbed := by
  cases a with
  | handle j => exact absurd rfl (hhandle j)
  | connecting j => exact absurd rfl (hconnecting j)
  | report j => exact absurd rfl (hreport j)
  | net a =>
      simp only [step] at h
      split at h
      · split at h
        · obtain rfl := Option.some.inj h
          rfl
        · simp at h
      · simp at h
  | read i nowMs f =>
      simp only [step] at h
      split at h
      · split at h
        · simp at h
        · split at h
          all_goals
            obtain rfl := Option.some.inj h
            rfl
      · simp at h
  | await device gen cmdId =>
      simp only [step] at h
      split at h
      · obtain rfl := Option.some.inj h
        rfl
      · simp at h
  | drain device gen =>
      simp only [step] at h
      split at h
      · simp at h
      · obtain rfl := Option.some.inj h
        rfl
  | checked j outcome =>
      simp only [step] at h
      split at h
      · obtain rfl := Option.some.inj h
        rfl
      · simp at h
  | abandon j | forget j | setRoutes routes =>
      obtain rfl := Option.some.inj h
      rfl

/-- **A step keeps superseded connections mute exactly when it is mute.** -/
theorem undisturbed_step {a : FramesLabel} (hs : Undisturbed s) (h : s.step a = some t) :
    Undisturbed t ↔ s.Mute a := by
  cases a with
  | handle j =>
      simp only [step] at h
      split at h
      · rename_i w hj
        obtain rfl := Option.some.inj h
        -- the late mark was taken when the frame was read
        refine (undisturbed_judged hs).trans ?_
        rw [view_exec]
        constructor
        · intro hidle w' hw'
          obtain rfl := Option.some.inj (hj.symm.trans hw')
          exact hidle
        · intro hmute
          exact hmute w hj
      · simp at h
  | connecting j =>
      simp only [step] at h
      split at h
      · rename_i device endpoint late hj
        obtain rfl := Option.some.inj h
        refine (undisturbed_judged hs).trans ?_
        rw [view_setStatus]
        constructor
        · intro hstands c hc
          obtain rfl := Option.some.inj (hj.symm.trans hc)
          exact hstands
        · intro hmute
          exact hmute _ hj
      · simp at h
  | report j =>
      simp only [step] at h
      split at h
      · rename_i device endpoint late status hj
        obtain rfl := Option.some.inj h
        refine (undisturbed_judged hs).trans ?_
        rw [view_setStatus]
        constructor
        · intro hstands c status' hc hphase
          obtain rfl := Option.some.inj (hj.symm.trans hc)
          obtain rfl := CheckPhase.reporting.inj hphase
          exact hstands
        · intro hmute
          exact hmute _ status hj rfl
      · simp at h
  | net _ | read _ _ _ | abandon _ | await _ _ _ | forget _ | drain _ _ | setRoutes _
  | checked _ _ =>
      exact iff_of_true ((step_disturbed h (by simp) (by simp) (by simp)).trans hs) trivial

/-- **When a superseded connection is mute.** In every order of connections, frames and their
stages, no late frame changes its device exactly when each of its stages finds nothing to change. -/
theorem mute_along_iff (markers : MarkerDir) (routes : Routes) (run : List FramesLabel) :
    machine.Along Undisturbed (start markers routes) run ↔
      machine.Meets Mute (start markers routes) run := by
  apply Machine.along_iff_meets (I := fun _ => True)
  · intro s a t _ _
    trivial
  · intro s a t _ hs h
    exact undisturbed_step hs h
  · trivial
  · rfl

/-- The phone has a new socket, and a frame of its old one is read. -/
def lateFrame : List FramesLabel :=
  [.net (.hello ⟨"dev", "phone", "i1", "10.0.0.2"⟩)] ++ List.replicate 6 (.net (.advance 0 0)) ++
    [.net (.hello ⟨"dev", "phone", "i1", "10.0.0.2"⟩)] ++ List.replicate 6 (.net (.advance 1 0)) ++
    [.read 0 0 (.callState ⟨"a", .active, some "200", .outgoing⟩), .handle 0]

theorem lateFrame_disturbed : ((machine.run (start ∅ ⟨∅, none, ∅, none⟩) lateFrame).map
    fun s => (s.disturbed, s.registered, s.registry.callState "dev")) =
      some (true, [("dev", 1), ("dev", 2)], some .active) := by
  rfl

theorem exists_not_mute : ∃ s, machine.Reach s ∧ ¬ Undisturbed s := by
  obtain ⟨s, hrun, hend⟩ := Option.map_eq_some_iff.1 lateFrame_disturbed
  refine ⟨s, Machine.reach_of_run (.init ⟨_, _, rfl⟩) hrun, fun hs => ?_⟩
  have hdisturbed : s.disturbed = true := congrArg Prod.fst hend
  exact absurd (hdisturbed.symm.trans hs) (by simp)

end Frames

end DialF.Daemon
