import DialF.Daemon.Protocol

/-!
# The phone's link

The connection service of the app keeps one current socket in `ws` and opens another when that one
drops or is suspected dead. `ws` is set when the connection attempt starts, not when the socket
opens, and everything that reports to the daemon sends on `ws`, whatever state the socket is in. The
WebSocket library queues what it is given before the handshake and writes the queue, in order, ahead
of anything that `onOpen` sends; what it is given after the close is refused.

Each definition is one step of the service: one of its methods, run on the main thread, on a call or
SMS callback, or on a socket's own thread.
-/

set_option autoImplicit false

namespace DialF.Phone

open DialF.Daemon

/-- What the hello says: the saved settings, and the nonce of this process. -/
structure Identity where
  deviceId : String
  name : String
  key : String
  instanceId : String
  deriving DecidableEq

/-- The hello of the identity. -/
def Identity.hello (identity : Identity) : PhoneToServer :=
  .hello identity.deviceId identity.name identity.key identity.instanceId

/-- One socket: whether its handshake is complete, whether `onOpen` has sent the hello, whether it
has been closed or has failed, and the frames that `send` has accepted. -/
structure Socket where
  handshaken : Bool
  greeted : Bool
  closing : Bool
  frames : List PhoneToServer
  deriving DecidableEq

namespace Socket

/-- A socket whose connection attempt has just begun. -/
def fresh : Socket := ⟨false, false, false, []⟩

/-- `send`: a socket that is closing takes nothing more. -/
def send (sock : Socket) (f : PhoneToServer) : Socket :=
  if sock.closing then sock else { sock with frames := sock.frames ++ [f] }

/-- `close`. -/
def close (sock : Socket) : Socket := { sock with closing := true }

/-- The frames on the wire: the queue of a socket that never opens is never written. -/
def written (sock : Socket) : List PhoneToServer := if sock.handshaken then sock.frames else []

end Socket

/-- The connection service. `opening` is the socket that `connect` has opened and not yet stored;
`beating` says that the heartbeat runnable is posted, and `destroyed` that `onDestroy` has run. -/
structure Link where
  identity : Identity
  running : Bool
  destroyed : Bool
  ws : Option Nat
  opening : Option Nat
  sockets : List Socket
  lastDaemonResponseMs : Int
  daemonAcksHeartbeats : Bool
  beating : Bool
  adbWifiEnabled : Bool
  adbPort : Option Nat
  ownAdbService : Option String

/-- What can happen to the connection service and to its sockets. -/
inductive LinkLabel where
  | onStartCommand
  | onDestroy
  | connect
  | publish
  | handshake (k : Nat)
  | onOpen (k : Nat) (nowMs : Int)
  | onMessage (k : Nat) (nowMs : Int) (heartbeatAck : Bool)
  | reply (k : Nat) (f : PhoneToServer)
  | onClosing (k : Nat)
  | dropped (k : Nat)
  | forceReconnect
  | verifyLink (nowMs : Int)
  | heartbeat (nowMs : Int)
  | pokeHeartbeat (nowMs : Int)
  | setAdb (enabled : Bool) (port : Option Nat) (nowMs : Int)
  | onAdbResolved (name : String) (port : Nat) (nowMs : Int)
  | event (f : PhoneToServer)

/-- The period of the heartbeat, and the daemon's silence after which the link is suspect. -/
def heartbeatMs : Int := 30000

/-- The daemon's silence after which the link is dead. -/
def livenessTimeoutMs : Int := 90000

namespace Link

/-- The service before its first start. -/
def start (identity : Identity) : Link :=
  ⟨identity, false, false, none, none, [], 0, false, false, false, none, none⟩

variable (l : Link)

/-- One socket, changed. -/
def onSocket (k : Nat) (g : Socket → Socket) : Link := { l with sockets := l.sockets.modify k g }

/-- `ws?.send`. -/
def sendCurrent (f : PhoneToServer) : Link :=
  match l.ws with
  | some k => l.onSocket k fun sock => sock.send f
  | none => l

/-- Forward a phone-side event: only frames that the daemon understands are sent. -/
def send (event : PhoneToServer) : Link :=
  match event with
  | .callState _ => l.sendCurrent event
  | .sms _ _ _ _ _ => l.sendCurrent event
  | _ => l

/-- `heartbeatFrame`, with what is known of wireless debugging. -/
def heartbeatFrame (nowMs : Int) : PhoneToServer :=
  .heartbeat nowMs
    (some ⟨l.adbWifiEnabled, l.adbPort, if l.adbPort = none then none else l.ownAdbService⟩)

/-- `pokeHeartbeat`. -/
def pokeHeartbeat (nowMs : Int) : Link := l.sendCurrent (l.heartbeatFrame nowMs)

/-- The daemon acks heartbeats and has been silent for longer than `limitMs`. -/
def silent (nowMs limitMs : Int) : Bool :=
  l.daemonAcksHeartbeats && decide (limitMs < nowMs - l.lastDaemonResponseMs)

/-- `ws?.close`, and forget it. -/
def closeCurrent : Link :=
  match l.ws with
  | some k => { l.onSocket k Socket.close with ws := none }
  | none => l

/-- The reconnect that follows is a step of its own. -/
def forceReconnect : Link := { l.closeCurrent with beating := false }

/-- The link is missing, or the daemon has been silent for longer than a heartbeat. -/
def suspect (nowMs : Int) : Bool := decide (l.ws = none) || l.silent nowMs heartbeatMs

/-- `verifyLink`. -/
def verifyLink (nowMs : Int) : Link :=
  if l.running then
    if l.suspect nowMs then l.forceReconnect else l.pokeHeartbeat nowMs
  else l

/-- One run of the heartbeat runnable. -/
def beat (nowMs : Int) : Link :=
  match l.ws with
  | none => { l with beating := false }
  | some _ =>
      -- a daemon that has never acked a heartbeat is not held to it
      if l.silent nowMs livenessTimeoutMs then l.forceReconnect
      else l.sendCurrent (l.heartbeatFrame nowMs)

/-- `setAdb`: a change is reported at once. -/
def setAdb (enabled : Bool) (port : Option Nat) (nowMs : Int) : Link :=
  if enabled = l.adbWifiEnabled ∧ port = l.adbPort then l
  else { l with adbWifiEnabled := enabled, adbPort := port }.pokeHeartbeat nowMs

/-- Adopt the port of our own advert. -/
def onAdbResolved (name : String) (port : Nat) (nowMs : Int) : Link :=
  let l := { l with ownAdbService := some name }
  if l.adbWifiEnabled then l.setAdb true (some port) nowMs else l

/-- A new socket, unless one is live; `ws` is set by the next step, when the constructor returns. -/
def connect : Option Link :=
  if l.running ∧ l.ws = none ∧ l.opening = none then
    some { l with sockets := l.sockets ++ [.fresh], opening := some l.sockets.length }
  else none

/-- `onOpen`, up to the heartbeat that it starts: the hello goes out on the socket that opened. -/
def onOpen (k : Nat) (nowMs : Int) : Link :=
  { l.onSocket k fun sock => { sock.send l.identity.hello with greeted := true } with
    lastDaemonResponseMs := nowMs
    daemonAcksHeartbeats := false
    beating := true }

/-- The close or failure of a socket: only the current one's clears `ws`. -/
def dropped (k : Nat) : Link :=
  let l := l.onSocket k Socket.close
  if l.ws = some k then { l with ws := none, beating := false } else l

/-- What one step does to the service, where it can be taken. -/
def step : LinkLabel → Option Link
  -- a service that has been destroyed is not started again: the next one is a new object
  | .onStartCommand => if l.destroyed then none else some { l with running := true }
  | .onDestroy =>
      some { l.closeCurrent with running := false, destroyed := true, beating := false }
  | .connect => l.connect
  | .publish =>
      match l.opening with
      | some k => some { l with ws := some k, opening := none }
      | none => none
  | .handshake k =>
      match l.sockets[k]? with
      | some sock =>
          if sock.handshaken then none
          else some (l.onSocket k fun sock => { sock with handshaken := true })
      | none => none
  | .onOpen k nowMs =>
      match l.sockets[k]? with
      | some sock => if sock.handshaken && !sock.greeted then some (l.onOpen k nowMs) else none
      | none => none
  -- the library reads a socket only after its `onOpen` has returned
  | .onMessage k nowMs heartbeatAck =>
      match l.sockets[k]? with
      | some sock =>
          if sock.greeted then
            some { l with
              lastDaemonResponseMs := nowMs
              daemonAcksHeartbeats := l.daemonAcksHeartbeats || heartbeatAck }
          else none
      | none => none
  | .reply k f =>
      match l.sockets[k]? with
      | some sock =>
          if sock.greeted ∧ f.IsReply then some (l.onSocket k fun sock => sock.send f) else none
      | none => none
  | .onClosing k => some (l.onSocket k Socket.close)
  | .dropped k => some (l.dropped k)
  | .forceReconnect => some l.forceReconnect
  | .verifyLink nowMs => some (l.verifyLink nowMs)
  | .heartbeat nowMs => if l.beating then some (l.beat nowMs) else none
  | .pokeHeartbeat nowMs => some (l.pokeHeartbeat nowMs)
  | .setAdb enabled port nowMs => some (l.setAdb enabled port nowMs)
  | .onAdbResolved name port nowMs => some (l.onAdbResolved name port nowMs)
  | .event f => some (l.send f)

/-! ## What a step leaves of the sockets -/

/-- A socket by number; one that has not been opened is fresh. -/
def socket (k : Nat) : Socket := l.sockets.getD k .fresh

/-- The socket is in `ws`, or will be. -/
def Current (k : Nat) : Prop := l.ws = some k ∨ l.opening = some k

instance (k : Nat) : Decidable (l.Current k) := by
  unfold Current
  infer_instance

end Link

/-- The socket has accepted only frames of a kind, and has not been opened again. -/
structure Socket.Grows (P : PhoneToServer → Prop) (sock sock' : Socket) : Prop where
  closing : sock'.closing = false → sock.closing = false
  frames : ∃ fs, sock'.frames = sock.frames ++ fs ∧ ∀ f ∈ fs, P f

/-- The service has gone on with the sockets it had, and has sent only frames of a kind. -/
structure Link.Keeps (P : PhoneToServer → Prop) (l t : Link) : Prop where
  ws : t.ws = l.ws ∨ t.ws = none
  opening : t.opening = l.opening
  length : t.sockets.length = l.sockets.length
  identity : t.identity = l.identity
  grows : ∀ k, (l.socket k).Grows P (t.socket k)

/-- What the service reports by itself: neither a hello nor the state of a call. -/
def IsOther (f : PhoneToServer) : Prop := ¬ f.IsHello ∧ ∀ report, f ≠ .callState report

/-- A step of the service itself: no socket opens, and no call is reported. -/
def LinkLabel.IsPlain : LinkLabel → Prop
  | .onOpen _ _ => False
  | .event (.callState _) => False
  | _ => True

instance (a : LinkLabel) : Decidable a.IsPlain := by
  unfold LinkLabel.IsPlain
  split <;> infer_instance

namespace Socket

variable {P : PhoneToServer → Prop} {sock : Socket} {f : PhoneToServer}

theorem Grows.refl (sock : Socket) : sock.Grows P sock :=
  ⟨fun h => h, [], by simp, by simp⟩

theorem grows_close : sock.Grows P sock.close :=
  ⟨fun h => absurd h (by simp [close]), [], by simp [close], by simp⟩

theorem grows_send (hf : P f) : sock.Grows P (sock.send f) := by
  cases hclosing : sock.closing with
  | true =>
      have hsame : sock.send f = sock := by simp [send, hclosing]
      rw [hsame]
      exact .refl sock
  | false =>
      refine ⟨fun _ => hclosing, [f], by simp [send, hclosing], ?_⟩
      intro g hg
      rw [List.mem_singleton.1 hg]
      exact hf

end Socket

namespace Link

variable {P : PhoneToServer → Prop} {l t : Link} {k j : Nat} {f : PhoneToServer}

theorem socket_onSocket {g : Socket → Socket} :
    (l.onSocket k g).socket j =
      if k = j ∧ j < l.sockets.length then g (l.socket j) else l.socket j := by
  simp only [socket, onSocket, List.getD_eq_getElem?_getD, List.getElem?_modify]
  by_cases hlt : j < l.sockets.length
  · by_cases hkj : k = j
    · simp [hkj, hlt]
    · simp [hkj]
  · simp [hlt]

theorem keeps_onSocket {g : Socket → Socket} (hg : ∀ sock : Socket, sock.Grows P (g sock)) :
    l.Keeps P (l.onSocket k g) where
  ws := Or.inl rfl
  opening := rfl
  length := List.length_modify ..
  identity := rfl
  grows := by
    intro j
    rw [socket_onSocket]
    split
    · exact hg _
    · exact .refl _

/-- Other fields do not matter. -/
theorem Keeps.of_eq (hws : t.ws = l.ws ∨ t.ws = none) (hopening : t.opening = l.opening)
    (hsockets : t.sockets = l.sockets) (hidentity : t.identity = l.identity) : l.Keeps P t where
  ws := hws
  opening := hopening
  length := by rw [hsockets]
  identity := hidentity
  grows := by
    intro k
    simp only [socket, hsockets]
    exact .refl _

theorem keeps_sendCurrent (hf : P f) : l.Keeps P (l.sendCurrent f) := by
  unfold sendCurrent
  cases hws : l.ws with
  | none => exact .of_eq (Or.inl rfl) rfl rfl rfl
  | some k => exact keeps_onSocket fun _ => Socket.grows_send hf

theorem keeps_closeCurrent : l.Keeps P l.closeCurrent := by
  unfold closeCurrent
  cases hws : l.ws with
  | none => exact .of_eq (Or.inl rfl) rfl rfl rfl
  | some k =>
      have hkeeps : l.Keeps P (l.onSocket k Socket.close) :=
        keeps_onSocket fun _ => Socket.grows_close
      exact ⟨Or.inr rfl, hkeeps.opening, hkeeps.length, hkeeps.identity, hkeeps.grows⟩

theorem keeps_dropped : l.Keeps P (l.dropped k) := by
  have hkeeps : l.Keeps P (l.onSocket k Socket.close) := keeps_onSocket fun _ => Socket.grows_close
  simp only [dropped]
  split
  · exact ⟨Or.inr rfl, hkeeps.opening, hkeeps.length, hkeeps.identity, hkeeps.grows⟩
  · exact hkeeps

theorem isOther_heartbeatFrame (nowMs : Int) : IsOther (l.heartbeatFrame nowMs) :=
  ⟨fun h => h, fun _ h => by cases h⟩

theorem keeps_setAdb (enabled : Bool) (port : Option Nat) (nowMs : Int) :
    l.Keeps IsOther (l.setAdb enabled port nowMs) := by
  unfold setAdb
  split
  · exact .of_eq (Or.inl rfl) rfl rfl rfl
  · have hkeeps : ({ l with adbWifiEnabled := enabled, adbPort := port } : Link).Keeps IsOther
        (({ l with adbWifiEnabled := enabled, adbPort := port } : Link).pokeHeartbeat nowMs) :=
      keeps_sendCurrent (isOther_heartbeatFrame nowMs)
    exact ⟨hkeeps.ws, hkeeps.opening, hkeeps.length, hkeeps.identity, hkeeps.grows⟩

theorem keeps_onAdbResolved (name : String) (port : Nat) (nowMs : Int) :
    l.Keeps IsOther (l.onAdbResolved name port nowMs) := by
  simp only [onAdbResolved]
  split
  · have hkeeps := keeps_setAdb (l := { l with ownAdbService := some name }) true (some port) nowMs
    exact ⟨hkeeps.ws, hkeeps.opening, hkeeps.length, hkeeps.identity, hkeeps.grows⟩
  · exact .of_eq (Or.inl rfl) rfl rfl rfl

theorem keeps_forceReconnect : l.Keeps P l.forceReconnect := by
  have hkeeps : l.Keeps P l.closeCurrent := keeps_closeCurrent
  exact ⟨hkeeps.ws, hkeeps.opening, hkeeps.length, hkeeps.identity, hkeeps.grows⟩

theorem keeps_verifyLink (nowMs : Int) : l.Keeps IsOther (l.verifyLink nowMs) := by
  unfold verifyLink
  split
  · split
    · exact keeps_forceReconnect
    · exact keeps_sendCurrent (isOther_heartbeatFrame nowMs)
  · exact .of_eq (Or.inl rfl) rfl rfl rfl

theorem keeps_beat (nowMs : Int) : l.Keeps IsOther (l.beat nowMs) := by
  unfold beat
  split
  · exact .of_eq (Or.inl rfl) rfl rfl rfl
  · split
    · exact keeps_forceReconnect
    · exact keeps_sendCurrent (isOther_heartbeatFrame nowMs)

theorem keeps_send (hplain : (LinkLabel.event f).IsPlain) : l.Keeps IsOther (l.send f) := by
  cases f with
  | callState report => exact hplain.elim
  | sms direction sender recipient body ts =>
      exact keeps_sendCurrent ⟨fun h => h, fun _ h => by cases h⟩
  | _ => exact .of_eq (Or.inl rfl) rfl rfl rfl

/-- What a start does: only a service that has not been destroyed is started. -/
theorem onStartCommand_eq_some (h : l.step .onStartCommand = some t) :
    l.destroyed = false ∧ t = { l with running := true } := by
  simp only [step, Option.ite_none_left_eq_some, Bool.not_eq_true, Option.some.injEq] at h
  exact ⟨h.1, h.2.symm⟩

/-- **A plain step** goes on with the sockets there are, opens one, or stores the one it has
opened. -/
theorem keeps_of_step {a : LinkLabel} (hplain : a.IsPlain) (h : l.step a = some t) :
    l.Keeps IsOther t ∨
      (l.ws = none ∧ l.opening = none ∧
        t = { l with sockets := l.sockets ++ [.fresh], opening := some l.sockets.length }) ∨
      ∃ k, l.opening = some k ∧ t = { l with ws := some k, opening := none } := by
  cases a with
  | onStartCommand =>
      obtain ⟨-, rfl⟩ := onStartCommand_eq_some h
      exact Or.inl (.of_eq (Or.inl rfl) rfl rfl rfl)
  | onDestroy =>
      obtain rfl := Option.some.inj h
      have hkeeps : l.Keeps IsOther l.closeCurrent := keeps_closeCurrent
      exact Or.inl ⟨hkeeps.ws, hkeeps.opening, hkeeps.length, hkeeps.identity, hkeeps.grows⟩
  | connect =>
      simp only [step, connect] at h
      split at h
      · rename_i hfree
        exact Or.inr (Or.inl ⟨hfree.2.1, hfree.2.2, (Option.some.inj h).symm⟩)
      · simp at h
  | publish =>
      simp only [step] at h
      split at h
      · rename_i k hopening
        exact Or.inr (Or.inr ⟨k, hopening, (Option.some.inj h).symm⟩)
      · simp at h
  | handshake k =>
      simp only [step] at h
      split at h
      · split at h
        · simp at h
        · obtain rfl := Option.some.inj h
          refine Or.inl (keeps_onSocket fun sock => ?_)
          exact ⟨fun hclosing => hclosing, [], by simp, by simp⟩
      · simp at h
  | onOpen k nowMs => exact hplain.elim
  | onMessage k nowMs heartbeatAck =>
      simp only [step] at h
      split at h
      · split at h
        · obtain rfl := Option.some.inj h
          exact Or.inl (.of_eq (Or.inl rfl) rfl rfl rfl)
        · simp at h
      · simp at h
  | reply k f =>
      simp only [step] at h
      split at h
      · split at h
        · rename_i hready
          obtain rfl := Option.some.inj h
          refine Or.inl (keeps_onSocket fun _ => Socket.grows_send ?_)
          refine ⟨hready.2.not_isHello, ?_⟩
          rintro report rfl
          exact hready.2
        · simp at h
      · simp at h
  | onClosing k =>
      obtain rfl := Option.some.inj h
      exact Or.inl (keeps_onSocket fun _ => Socket.grows_close)
  | dropped k =>
      obtain rfl := Option.some.inj h
      exact Or.inl keeps_dropped
  | forceReconnect =>
      obtain rfl := Option.some.inj h
      exact Or.inl keeps_forceReconnect
  | verifyLink nowMs =>
      obtain rfl := Option.some.inj h
      exact Or.inl (keeps_verifyLink nowMs)
  | heartbeat nowMs =>
      simp only [step] at h
      split at h
      · obtain rfl := Option.some.inj h
        exact Or.inl (keeps_beat nowMs)
      · simp at h
  | pokeHeartbeat nowMs =>
      obtain rfl := Option.some.inj h
      exact Or.inl (keeps_sendCurrent (isOther_heartbeatFrame nowMs))
  | setAdb enabled port nowMs =>
      obtain rfl := Option.some.inj h
      exact Or.inl (keeps_setAdb enabled port nowMs)
  | onAdbResolved name port nowMs =>
      obtain rfl := Option.some.inj h
      exact Or.inl (keeps_onAdbResolved name port nowMs)
  | event f =>
      obtain rfl := Option.some.inj h
      exact Or.inl (keeps_send hplain)

end Link

end DialF.Phone
