import DialF.Phone.Candidates
import DialF.Phone.HelloFirst

/-!
# How the service reconnects

What the connection service does to have a socket: it dials the saved server, or searches for a
daemon and dials what it finds, and tries again after a drop, after a while, or when the device
wakes. The sockets and the heartbeat are those of `Link`, and every step here is a sequence of steps
there (`runs_of_run`); beside them stand the timers, the daemons that have been found, and what the
drop of a socket has posted for the main thread.

`connect` is the last thing that a handler does, so the steps of the main thread wait until `ws` is
stored. Whether the HTTP client takes a URL is a parameter.
-/

set_option autoImplicit false

namespace DialF.Phone

open DialF.Lib DialF.Daemon

/-- What a handler reads from the device: the clock, the charger, and whether a search starts. -/
structure Env where
  nowMs : Int
  charging : Bool
  nsdStarts : Bool
  deriving DecidableEq

/-- `MIN_RECONNECT_MS`. -/
def minReconnectMs : Nat := 2000

/-- `MAX_RECONNECT_CHARGING_MS`. -/
def maxReconnectChargingMs : Nat := 30000

/-- `MAX_RECONNECT_BATTERY_MS`. -/
def maxReconnectBatteryMs : Nat := 120000

/-- What a drop has posted: the key was rejected, and the URL that never opened. -/
structure Retry where
  keyReject : Bool
  neverOpened : Option Str
  deriving DecidableEq

namespace Retry

/-- A URL that never completed a handshake is marked. -/
def mark (r : Retry) (d : DaemonCandidates) (nowMs : Int) : DaemonCandidates :=
  match r.neverOpened with
  | some url => d.markUnreachable url nowMs
  | none => d

/-- The retry goes on to the next candidate. -/
def failsOver (r : Retry) : Bool := r.keyReject || r.neverOpened.isSome

end Retry

/-- The service around its link. `urls` are those of the sockets, `ended` the sockets whose close or
failure has been reported, `reconnect` the delay of the pending reconnect, and `discoveryTimeout`
says that a discovery window is open. -/
structure Service where
  link : Link
  server : Str
  urls : List Str
  ended : List Nat
  connecting : Option Str
  keyRejectFailover : Bool
  daemons : DaemonCandidates
  reconnectDelayMs : Nat
  reconnect : Option Nat
  discoveryTimeout : Bool
  posted : List Retry

/-- The steps; those of the link that touch neither `ws` nor a timer are taken over. -/
inductive ServiceLabel where
  | onStartCommand (env : Env)
  | onDestroy
  | saveServer (server : Str)
  | onServiceResolved (host : Option Str) (port : Int) (nowMs : Int)
  | discoveryTimeout (env : Env)
  | reconnect (env : Env)
  | publish
  | onOpen (k : Nat) (nowMs : Int)
  | onClosing (k : Nat) (badKey : Bool) (nowMs : Int)
  | dropped (k : Nat)
  | retry (env : Env)
  | networkAvailable (env : Env)
  | verifyLink (env : Env)
  | heartbeat (env : Env)
  | link (a : LinkLabel)

/-- A step of the link that touches neither `ws` nor a timer. -/
def LinkLabel.isAside : LinkLabel → Bool
  | .handshake _ => true
  | .onMessage _ _ _ => true
  | .reply _ _ => true
  | .pokeHeartbeat _ => true
  | .setAdb _ _ _ => true
  | .onAdbResolved _ _ _ => true
  | .event _ => true
  | _ => false

/-- The saved server, if it has a colon: the part before it, and the port behind it or 8765. -/
def serverAddress (server : Str) : Option (Str × Int) :=
  let server := trimBlank server
  if server.contains ':' then
    let behind := (server.dropWhile (· ≠ ':')).drop 1
    some (server.takeWhile (· ≠ ':'), (toIntOrNull 10 (behind.takeWhile (· ≠ ':'))).getD 8765)
  else none

namespace Service

/-- The service before its first start. -/
def start (identity : Identity) (server : Str) : Service :=
  ⟨.start identity, server, [], [], none, false, .start 600000 60000, minReconnectMs, none, false, []⟩

variable (accepts : Str → Bool) (l : Service)

/-- Never open a second socket while one is live. -/
def connect (host : Str) (port : Int) (nowMs : Int) : Service :=
  match l.link.connect with
  | none => l
  | some link =>
      match wsUrl host port with
      -- an undialable address is skipped, and nothing else happens
      | none => l
      | some url =>
          if accepts url then
            { l with link, urls := l.urls ++ [url], connecting := some url }
          else { l with daemons := l.daemons.markUnreachable url nowMs }

/-- `scheduleReconnect`. -/
def scheduleReconnect (env : Env) : Service :=
  if l.link.running then
    -- the delay grows toward the cap for the next attempt
    let cap := if env.charging then maxReconnectChargingMs else maxReconnectBatteryMs
    { l with
      reconnect := some l.reconnectDelayMs
      reconnectDelayMs := min (l.reconnectDelayMs * 2) cap }
  else l

/-- `startDiscovery`: a new round, or a reconnect later on where the search does not start. -/
def startDiscovery (env : Env) : Service :=
  let l := { l with discoveryTimeout := false, daemons := l.daemons.clear }
  if env.nsdStarts then { l with discoveryTimeout := true } else l.scheduleReconnect env

/-- `connectOrDiscover`: a fixed server is dialled, and otherwise one is looked for. -/
def connectOrDiscover (env : Env) : Service :=
  if l.link.running then
    match serverAddress l.server with
    | some (host, port) => l.connect accepts host port env.nowMs
    | none => l.startDiscovery env
  else l

/-- Connect to the first discovered daemon that hasn't rejected our shared key. The answer says that
there was one, not that it could be dialled. -/
def connectNextCandidate (nowMs : Int) : Bool × Service :=
  if l.link.running ∧ l.link.ws = none then
    match l.daemons.next nowMs with
    | (none, daemons) => (false, { l with daemons })
    | (some e, daemons) => (true, { l with daemons }.connect accepts e.host e.port nowMs)
  else (false, l)

/-- `forceReconnect`: at once, with the shortest delay for the next. -/
def forceReconnect (env : Env) : Service :=
  { l with
    link := l.link.forceReconnect
    reconnectDelayMs := minReconnectMs
    reconnect := none }.connectOrDiscover accepts env

/-- The search goes on for the whole window, also after a connect. -/
def endDiscovery (env : Env) : Service :=
  let l := { l with discoveryTimeout := false }
  if l.link.running ∧ l.link.ws = none then l.scheduleReconnect env else l

/-- `onOpen`: the daemon is reachable, and nothing is left to retry. -/
def onOpen (k : Nat) (link : Link) : Service :=
  { l with
    link
    reconnectDelayMs := minReconnectMs
    reconnect := none
    connecting := none
    daemons := l.daemons.markReachable (l.urls.getD k []) }

/-- `onClosing`; a bad key marks the daemon. -/
def onClosing (k : Nat) (badKey : Bool) (nowMs : Int) : Service :=
  let l := { l with link := l.link.onSocket k Socket.close }
  if badKey then
    { l with
      daemons := l.daemons.markKeyRejected (l.urls.getD k []) nowMs
      keyRejectFailover := true }
  else l

/-- The part of `dropped` on the socket's thread. -/
def dropped (k : Nat) : Service :=
  let l' := { l with link := l.link.dropped k, ended := k :: l.ended }
  if l.link.ws = some k then
    { l' with
      keyRejectFailover := false
      connecting := none
      posted := l.posted ++ [⟨l.keyRejectFailover, l.connecting⟩] }
  else l'

/-- The part of `dropped` on the main thread: a wrong-key or dead daemon yields to the next one. -/
def runRetry (r : Retry) (env : Env) : Service :=
  let l := { l with daemons := r.mark l.daemons env.nowMs }
  if r.failsOver then
    match l.connectNextCandidate accepts env.nowMs with
    | (true, l) => l
    | (false, l) => l.scheduleReconnect env
  else l.scheduleReconnect env

/-- The network has come back: there is no socket, or its daemon has been silent for long. -/
def networkAvailable (env : Env) : Service :=
  if l.link.ws = none ∨ l.link.silent env.nowMs livenessTimeoutMs = true then
    l.forceReconnect accepts env
  else l

/-- `verifyLink`. -/
def verifyLink (env : Env) : Service :=
  if l.link.running then
    if l.link.suspect env.nowMs then l.forceReconnect accepts env
    else { l with link := l.link.pokeHeartbeat env.nowMs }
  else l

/-- One run of the heartbeat runnable. -/
def beat (env : Env) : Service :=
  if l.link.ws ≠ none ∧ l.link.silent env.nowMs livenessTimeoutMs = true then
    l.forceReconnect accepts env
  else { l with link := l.link.beat env.nowMs }

/-- A step of the main thread, which is free. -/
def onMain (t : Service) : Option Service := if l.link.opening = none then some t else none

/-- A socket whose end has not been reported. -/
def onListener (k : Nat) (t : Service) : Option Service :=
  if k < l.link.sockets.length ∧ k ∉ l.ended then some t else none

/-- What one step does to the service, where it can be taken. -/
def step : ServiceLabel → Option Service
  -- a service that has been destroyed is not started again: the next one is a new object
  | .onStartCommand env =>
      if l.link.destroyed then none
      else
        l.onMain <|
          if l.link.running then l
          else
            { l with
              link := { l.link with running := true }
              reconnectDelayMs := minReconnectMs }.connectOrDiscover accepts env
  | .onDestroy =>
      l.onMain
        { l with
          link := { l.link.closeCurrent with
            running := false, destroyed := true, beating := false }
          reconnect := none
          discoveryTimeout := false }
  | .saveServer server => some { l with server }
  | .onServiceResolved host port nowMs =>
      l.onMain <|
        match host with
        | some host =>
            ({ l with daemons := l.daemons.add host port }.connectNextCandidate accepts nowMs).2
        | none => l
  | .discoveryTimeout env => if l.discoveryTimeout then l.onMain (l.endDiscovery env) else none
  | .reconnect env =>
      if l.reconnect.isSome then
        l.onMain ({ l with reconnect := none }.connectOrDiscover accepts env)
      else none
  | .publish => (l.link.step .publish).map fun link => { l with link }
  | .onOpen k nowMs =>
      (l.link.step (.onOpen k nowMs)).bind fun link => l.onListener k (l.onOpen k link)
  -- the close code comes with `onClosing`; `onClosed` or `onFailure` follows
  | .onClosing k badKey nowMs => l.onListener k (l.onClosing k badKey nowMs)
  | .dropped k => l.onListener k (l.dropped k)
  -- what was posted first runs first
  | .retry env =>
      match l.posted with
      | r :: posted => l.onMain ({ l with posted }.runRetry accepts r env)
      | [] => none
  | .networkAvailable env => l.onMain (l.networkAvailable accepts env)
  | .verifyLink env => l.onMain (l.verifyLink accepts env)
  | .heartbeat env => if l.link.beating then l.onMain (l.beat accepts env) else none
  | .link a =>
      if a.isAside then (l.link.step a).map fun link => { l with link } else none

/-- All runs of the service, under any identity and any server setting. -/
def machine : Machine Service ServiceLabel where
  Init l := ∃ identity server, l = start identity server
  step := step accepts

/-! ## The steps of the link -/

end Service

/-- The link gets from one state to the other by steps of its own. -/
def Link.Runs (l t : Link) : Prop := ∃ as, Link.machine.run l as = some t

namespace Link

variable {l t u : Link}

theorem Runs.refl (l : Link) : l.Runs l := ⟨[], rfl⟩

theorem Runs.trans (h : l.Runs t) (h' : t.Runs u) : l.Runs u := by
  obtain ⟨as, has⟩ := h
  obtain ⟨bs, hbs⟩ := h'
  refine ⟨as ++ bs, ?_⟩
  rw [Machine.run_append, has]
  exact hbs

theorem Runs.of_step {a : LinkLabel} (h : l.step a = some t) : l.Runs t := by
  refine ⟨[a], ?_⟩
  have hstep : Link.machine.step l a = some t := h
  rw [Machine.run, hstep]
  rfl

end Link

namespace Service

variable {accepts : Str → Bool} {l t : Service}

/-- The address has a URL that the HTTP client takes. -/
def Dials (accepts : Str → Bool) (host : Str) (port : Int) : Prop :=
  ∃ url, wsUrl host port = some url ∧ accepts url = true

theorem link_connect_eq_some {link link' : Link} :
    link.connect = some link' ↔
      (link.running = true ∧ link.ws = none ∧ link.opening = none) ∧
        link' =
          { link with sockets := link.sockets ++ [.fresh], opening := some link.sockets.length } := by
  simp only [Link.connect, Option.ite_none_right_eq_some, Option.some.injEq]
  exact and_congr_right fun _ => eq_comm

/-- A connect opens a socket, -/
theorem connect_of_dials {host url : Str} {port nowMs : Int} {link : Link}
    (hlink : l.link.connect = some link) (hurl : wsUrl host port = some url)
    (haccepts : accepts url = true) :
    l.connect accepts host port nowMs =
      { l with link, urls := l.urls ++ [url], connecting := some url } := by
  simp only [connect, hlink, hurl, haccepts, if_true]

/-- or leaves everything but the marks on the daemons as it is. -/
theorem connect_of_not {host : Str} {port : Int} (nowMs : Int)
    (h : ¬ (l.link.connect.isSome = true ∧ Dials accepts host port)) :
    ∃ daemons, l.connect accepts host port nowMs = { l with daemons } := by
  simp only [connect]
  cases hlink : l.link.connect with
  | none => exact ⟨l.daemons, rfl⟩
  | some link =>
      cases hurl : wsUrl host port with
      | none => exact ⟨l.daemons, rfl⟩
      | some url =>
          cases haccepts : accepts url with
          | true => exact absurd ⟨by rw [hlink]; rfl, url, hurl, haccepts⟩ h
          | false => exact ⟨l.daemons.markUnreachable url nowMs, by simp [haccepts]⟩

@[simp] theorem link_scheduleReconnect (env : Env) : (l.scheduleReconnect env).link = l.link := by
  simp only [scheduleReconnect]
  split
  · rfl
  · rfl

@[simp] theorem link_startDiscovery (env : Env) : (l.startDiscovery env).link = l.link := by
  simp only [startDiscovery]
  split
  · rfl
  · exact link_scheduleReconnect env

theorem runs_connect (host : Str) (port nowMs : Int) :
    l.link.Runs (l.connect accepts host port nowMs).link := by
  by_cases h : l.link.connect.isSome = true ∧ Dials accepts host port
  · obtain ⟨hlink, url, hurl, haccepts⟩ := h
    obtain ⟨link, hlink⟩ := Option.isSome_iff_exists.1 hlink
    rw [connect_of_dials hlink hurl haccepts]
    exact .of_step (a := .connect) hlink
  · obtain ⟨daemons, hsame⟩ := connect_of_not nowMs h
    rw [hsame]
    exact .refl _

theorem runs_connectOrDiscover (env : Env) :
    l.link.Runs (l.connectOrDiscover accepts env).link := by
  simp only [connectOrDiscover]
  split
  · split
    · exact runs_connect _ _ _
    · rw [link_startDiscovery]
      exact .refl _
  · exact .refl _

theorem runs_connectNextCandidate (nowMs : Int) :
    l.link.Runs (l.connectNextCandidate accepts nowMs).2.link := by
  simp only [connectNextCandidate]
  split
  · split
    · exact .refl _
    · rename_i e daemons hnext
      exact runs_connect (l := { l with daemons }) _ _ _
  · exact .refl _

theorem runs_forceReconnect (env : Env) : l.link.Runs (l.forceReconnect accepts env).link := by
  have hforce : l.link.Runs l.link.forceReconnect := .of_step (a := .forceReconnect) rfl
  apply hforce.trans
  exact runs_connectOrDiscover
    (l := { l with
      link := l.link.forceReconnect, reconnectDelayMs := minReconnectMs, reconnect := none }) env

theorem runs_runRetry (r : Retry) (env : Env) : l.link.Runs (l.runRetry accepts r env).link := by
  have hnext : l.link.Runs (connectNextCandidate accepts
      { l with daemons := r.mark l.daemons env.nowMs } env.nowMs).2.link :=
    runs_connectNextCandidate (l := { l with daemons := r.mark l.daemons env.nowMs }) env.nowMs
  simp only [runRetry]
  split
  · split
    · rename_i l' hcandidate
      rw [hcandidate] at hnext
      exact hnext
    · rename_i l' hcandidate
      rw [hcandidate] at hnext
      rw [link_scheduleReconnect]
      exact hnext
  · rw [link_scheduleReconnect]
    exact .refl _

theorem onMain_eq_some {t' : Service} (h : l.onMain t = some t') :
    l.link.opening = none ∧ t' = t := by
  simp only [onMain, Option.ite_none_right_eq_some, Option.some.injEq] at h
  exact ⟨h.1, h.2.symm⟩

theorem onListener_eq_some {k : Nat} {t' : Service} (h : l.onListener k t = some t') :
    (k < l.link.sockets.length ∧ k ∉ l.ended) ∧ t' = t := by
  simp only [onListener, Option.ite_none_right_eq_some, Option.some.injEq] at h
  exact ⟨h.1, h.2.symm⟩

/-- What a start does: only a service that has not been destroyed is started. -/
theorem onStartCommand_eq_some {env : Env} (h : l.step accepts (.onStartCommand env) = some t) :
    l.link.destroyed = false ∧ l.link.opening = none ∧
      t = if l.link.running then l
        else
          { l with
            link := { l.link with running := true }
            reconnectDelayMs := minReconnectMs }.connectOrDiscover accepts env := by
  simp only [step, Option.ite_none_left_eq_some, Bool.not_eq_true] at h
  exact ⟨h.1, onMain_eq_some h.2⟩

/-- **The service runs its link.** -/
theorem runs_of_step {a : ServiceLabel} (h : l.step accepts a = some t) : l.link.Runs t.link := by
  cases a with
  | onStartCommand env =>
      obtain ⟨hdestroyed, -, rfl⟩ := onStartCommand_eq_some h
      split
      · exact .refl _
      · have hstart : l.link.Runs { l.link with running := true } :=
          .of_step (a := .onStartCommand) (if_neg (Bool.eq_false_iff.1 hdestroyed))
        apply hstart.trans
        exact runs_connectOrDiscover
          (l := { l with
            link := { l.link with running := true }, reconnectDelayMs := minReconnectMs }) env
  | onDestroy =>
      obtain ⟨-, rfl⟩ := onMain_eq_some h
      exact .of_step (a := .onDestroy) rfl
  | saveServer server =>
      obtain rfl := Option.some.inj h
      exact .refl _
  | onServiceResolved host port nowMs =>
      obtain ⟨-, rfl⟩ := onMain_eq_some h
      cases host with
      | none => exact .refl _
      | some host =>
          exact runs_connectNextCandidate (l := { l with daemons := l.daemons.add host port }) nowMs
  | discoveryTimeout env =>
      simp only [step, Option.ite_none_right_eq_some] at h
      obtain ⟨-, rfl⟩ := onMain_eq_some h.2
      simp only [endDiscovery]
      split
      · rw [link_scheduleReconnect]
        exact .refl _
      · exact .refl _
  | reconnect env =>
      simp only [step, Option.ite_none_right_eq_some] at h
      obtain ⟨-, rfl⟩ := onMain_eq_some h.2
      exact runs_connectOrDiscover (l := { l with reconnect := none }) env
  | publish =>
      obtain ⟨link, hlink, rfl⟩ := Option.map_eq_some_iff.1 h
      exact .of_step hlink
  | onOpen k nowMs =>
      obtain ⟨link, hlink, hopen⟩ := Option.bind_eq_some_iff.1 h
      obtain ⟨-, rfl⟩ := onListener_eq_some hopen
      exact .of_step hlink
  | onClosing k badKey nowMs =>
      obtain ⟨-, rfl⟩ := onListener_eq_some h
      have hclosing : l.link.Runs (l.link.onSocket k Socket.close) :=
        .of_step (a := .onClosing k) rfl
      simp only [onClosing]
      split
      · exact hclosing
      · exact hclosing
  | dropped k =>
      obtain ⟨-, rfl⟩ := onListener_eq_some h
      have hdropped : l.link.Runs (l.link.dropped k) := .of_step (a := .dropped k) rfl
      simp only [dropped]
      split
      · exact hdropped
      · exact hdropped
  | retry env =>
      simp only [step] at h
      split at h
      · rename_i r posted hposted
        obtain ⟨-, rfl⟩ := onMain_eq_some h
        exact runs_runRetry (l := { l with posted }) r env
      · cases h
  | networkAvailable env =>
      obtain ⟨-, rfl⟩ := onMain_eq_some h
      simp only [networkAvailable]
      split
      · exact runs_forceReconnect env
      · exact .refl _
  | verifyLink env =>
      obtain ⟨-, rfl⟩ := onMain_eq_some h
      simp only [verifyLink]
      split
      · split
        · exact runs_forceReconnect env
        · exact .of_step (a := .pokeHeartbeat env.nowMs) rfl
      · exact .refl _
  | heartbeat env =>
      simp only [step, Option.ite_none_right_eq_some] at h
      obtain ⟨-, rfl⟩ := onMain_eq_some h.2
      simp only [beat]
      split
      · exact runs_forceReconnect env
      · exact .of_step (a := .heartbeat env.nowMs) (by simp [Link.step, h.1])
  | link a =>
      simp only [step, Option.ite_none_right_eq_some] at h
      obtain ⟨link, hlink, rfl⟩ := Option.map_eq_some_iff.1 h.2
      exact .of_step hlink

/-- Every run of the service is a run of the link: what holds of all states of the link holds of the
link of the service. -/
theorem runs_of_run {as : List ServiceLabel} (h : (machine accepts).run l as = some t) :
    l.link.Runs t.link := by
  apply Machine.run_invariant (P := fun u => l.link.Runs u.link) _ (Link.Runs.refl l.link) h
  intro u a u' hu hstep
  exact hu.trans (runs_of_step hstep)

end Service

end DialF.Phone
