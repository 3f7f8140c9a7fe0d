import DialF.Lib.Machine
import DialF.Phone.Link

/-!
# The port that the phone reports for adb

The daemon reaches a phone by adb at the port that the heartbeats report. Every phone with wireless
debugging on is visible on the network, and the port changes whenever debugging is switched on, so
the app looks for the advert of its own address, for as long as the setting is on. `OwnAdvert` is
the link of the service with that search around it.

Whatever is found, lost or switched off in between, no heartbeat names the port of another phone,
and the port that is held is that of the last own advert, which nothing has withdrawn since
(`reports_own_port`).
-/

set_option autoImplicit false

namespace DialF.Phone

open DialF.Lib DialF.Daemon

/-- `pickOwn`: the port of the service advertised at one of the own addresses. -/
def pickOwn (resolved : List (String × Int)) (ownIps : List String) : Option Int :=
  (resolved.find? fun r =>
    ownIps.contains r.1 && decide (1 ≤ r.2 ∧ r.2 ≤ 65535)).map Prod.snd

/-- The service and its search: the listener of the search, how many searches there have been, and
the adverts that are watched. -/
structure OwnAdvert where
  link : Link
  adbDiscovery : Option Nat
  searches : Nat
  adbWatches : List String

/-- What can happen to the search and to the service. -/
inductive OwnAdvertLabel where
  | refreshAdb (enabled starts : Bool) (nowMs : Int)
  | onStartDiscoveryFailed (search : Nat)
  | onServiceFound (name : String) (registers : Bool)
  | onRegistrationFailed (name : String)
  | onServiceLost (name : String) (nowMs : Int)
  | onAdbResolved (name : String) (hosts : List String) (port : Int) (ownIps : List String)
      (nowMs : Int)
  | link (a : LinkLabel)

/-- The state of the advert is changed by the search only. -/
def LinkLabel.isAdb : LinkLabel → Bool
  | .setAdb _ _ _ => true
  | .onAdbResolved _ _ _ => true
  | _ => false

namespace OwnAdvert

/-- The service before its first start. -/
def start (identity : Identity) : OwnAdvert := ⟨.start identity, none, 0, []⟩

variable (l : OwnAdvert)

/-- `stopAdbDiscovery`: the watches go with the search. -/
def stopAdbDiscovery : OwnAdvert := { l with adbDiscovery := none, adbWatches := [] }

/-- `startAdbDiscovery`, which may fail at once. -/
def startAdbDiscovery (starts : Bool) : OwnAdvert :=
  { l.stopAdbDiscovery with
    adbDiscovery := if starts then some l.searches else none
    searches := l.searches + 1 }

/-- `setAdb`, of the link. -/
def setAdb (enabled : Bool) (port : Option Nat) (nowMs : Int) : OwnAdvert :=
  { l with link := l.link.setAdb enabled port nowMs }

/-- Re-read the setting and, when on, look for our own port. -/
def refreshAdb (enabled starts : Bool) (nowMs : Int) : OwnAdvert :=
  if !l.link.running then l
  else if !enabled then l.stopAdbDiscovery.setAdb false none nowMs
  else
    -- switching it on picks a fresh port
    let l := if l.link.adbWifiEnabled then l else l.setAdb true none nowMs
    if l.adbDiscovery = none then l.startAdbDiscovery starts else l

/-- An advert went away, by the search or by the watch on it. -/
def onServiceLost (name : String) (nowMs : Int) : OwnAdvert :=
  if l.link.ownAdbService = some name then l.setAdb l.link.adbWifiEnabled none nowMs else l

/-- A second advert of a name is not watched twice. -/
def resolveAdb (name : String) (registers : Bool) : OwnAdvert :=
  if name ∈ l.adbWatches then l
  else if registers then { l with adbWatches := l.adbWatches ++ [name] }
  else l

/-- Adopt the port only if it is advertised at one of our own addresses. -/
def onAdbResolved (name : String) (hosts : List String) (port : Int) (ownIps : List String)
    (nowMs : Int) : OwnAdvert :=
  match pickOwn (hosts.map fun host => (host, port)) ownIps with
  | none => l
  | some mine => { l with link := l.link.onAdbResolved name mine.toNat nowMs }

/-- What a step of the link does to the search: it ends with the service. -/
def besides : LinkLabel → OwnAdvert
  | .onDestroy => l.stopAdbDiscovery
  | _ => l

/-- What one step does to the search and to the service. -/
def step : OwnAdvertLabel → Option OwnAdvert
  | .refreshAdb enabled starts nowMs => some (l.refreshAdb enabled starts nowMs)
  -- a search that has been stopped before is another one
  | .onStartDiscoveryFailed search =>
      some (if l.adbDiscovery = some search then { l with adbDiscovery := none } else l)
  | .onServiceFound name registers => some (l.resolveAdb name registers)
  | .onRegistrationFailed name => some { l with adbWatches := l.adbWatches.filter (· ≠ name) }
  | .onServiceLost name nowMs => some (l.onServiceLost name nowMs)
  | .onAdbResolved name hosts port ownIps nowMs =>
      some (l.onAdbResolved name hosts port ownIps nowMs)
  | .link a =>
      if a.isAdb then none else (l.link.step a).map fun link => { l.besides a with link }

/-- All runs of a service and its search, under any identity. -/
def machine : Machine OwnAdvert OwnAdvertLabel where
  Init l := ∃ identity, l = start identity
  step := step

end OwnAdvert

/-! ## What the link does meanwhile -/

/-- All frames that the sockets have accepted are of a kind. -/
def Link.Says (P : PhoneToServer → Prop) (l : Link) : Prop :=
  ∀ sock ∈ l.sockets, ∀ f ∈ sock.frames, P f

/-- The state of the advert is the same, and all frames are still of a kind. -/
structure Link.Reports (P : PhoneToServer → Prop) (l t : Link) : Prop where
  enabled : t.adbWifiEnabled = l.adbWifiEnabled
  port : t.adbPort = l.adbPort
  service : t.ownAdbService = l.ownAdbService
  told : l.Says P → t.Says P

namespace Link

variable {P : PhoneToServer → Prop} {l t : Link} {k : Nat} {f : PhoneToServer}

theorem says_onSocket {g : Socket → Socket} (h : l.Says P)
    (hg : ∀ sock : Socket, (∀ f ∈ sock.frames, P f) → ∀ f ∈ (g sock).frames, P f) :
    (l.onSocket k g).Says P := by
  intro sock hsock
  obtain ⟨j, hj⟩ := List.mem_iff_getElem?.1 hsock
  rw [onSocket, List.getElem?_modify] at hj
  obtain ⟨sock', hsock', rfl⟩ := Option.map_eq_some_iff.1 hj
  have hold := h sock' (List.mem_of_getElem? hsock')
  split
  · exact hg sock' hold
  · exact hold

theorem reports_onSocket {g : Socket → Socket}
    (hg : ∀ sock : Socket, (∀ f ∈ sock.frames, P f) → ∀ f ∈ (g sock).frames, P f) :
    l.Reports P (l.onSocket k g) :=
  ⟨rfl, rfl, rfl, fun h => says_onSocket h hg⟩

theorem frames_send {sock : Socket} (hf : P f) (h : ∀ f ∈ sock.frames, P f) :
    ∀ f' ∈ (sock.send f).frames, P f' := by
  intro f' hf'
  unfold Socket.send at hf'
  split at hf'
  · exact h f' hf'
  · rcases List.mem_append.1 hf' with hold | hnew
    · exact h f' hold
    · rw [List.mem_singleton.1 hnew]
      exact hf

theorem Reports.refl (l : Link) : l.Reports P l := ⟨rfl, rfl, rfl, fun h => h⟩

/-- Other fields do not matter. -/
theorem Reports.trans_eq {u : Link} (h : l.Reports P t)
    (henabled : u.adbWifiEnabled = t.adbWifiEnabled) (hport : u.adbPort = t.adbPort)
    (hservice : u.ownAdbService = t.ownAdbService) (hsockets : u.sockets = t.sockets) :
    l.Reports P u where
  enabled := henabled.trans h.enabled
  port := hport.trans h.port
  service := hservice.trans h.service
  told hl := by
    intro sock hsock
    exact h.told hl sock (hsockets ▸ hsock)

theorem reports_sendCurrent (hf : P f) : l.Reports P (l.sendCurrent f) := by
  unfold sendCurrent
  cases l.ws with
  | none => exact .refl l
  | some k => exact reports_onSocket fun _ h => frames_send hf h

theorem reports_closeCurrent : l.Reports P l.closeCurrent := by
  unfold closeCurrent
  cases l.ws with
  | none => exact .refl l
  | some k =>
      have hclose : l.Reports P (l.onSocket k Socket.close) := reports_onSocket fun _ h => h
      exact hclose.trans_eq rfl rfl rfl rfl

theorem reports_forceReconnect : l.Reports P l.forceReconnect :=
  reports_closeCurrent.trans_eq rfl rfl rfl rfl

/-- **A step of the link** sends no heartbeat but one of its own state. -/
theorem reports_step {a : LinkLabel} (hother : ∀ f, (∀ ts r, f ≠ .heartbeat ts (some r)) → P f)
    (hbeat : ∀ nowMs, P (l.heartbeatFrame nowMs)) (ha : a.isAdb = false) (h : l.step a = some t) :
    l.Reports P t := by
  cases a with
  | onStartCommand =>
      obtain ⟨-, rfl⟩ := onStartCommand_eq_some h
      exact (Reports.refl l).trans_eq rfl rfl rfl rfl
  | onDestroy =>
      obtain rfl := Option.some.inj h
      exact reports_closeCurrent.trans_eq rfl rfl rfl rfl
  | connect =>
      simp only [step, connect] at h
      split at h
      · obtain rfl := Option.some.inj h
        -- a new socket has accepted nothing yet
        refine ⟨rfl, rfl, rfl, fun hl sock hsock => ?_⟩
        rcases List.mem_append.1 hsock with hold | hnew
        · exact hl sock hold
        · rw [List.mem_singleton.1 hnew]
          exact fun f hf => absurd hf List.not_mem_nil
      · simp at h
  | publish =>
      simp only [step] at h
      split at h
      · obtain rfl := Option.some.inj h
        exact (Reports.refl l).trans_eq rfl rfl rfl rfl
      · simp at h
  | handshake k =>
      simp only [step] at h
      split at h
      · split at h
        · simp at h
        · obtain rfl := Option.some.inj h
          exact reports_onSocket fun _ hframes => hframes
      · simp at h
  | onOpen k nowMs =>
      simp only [step] at h
      split at h
      · split at h
        · obtain rfl := Option.some.inj h
          -- all that is sent here is the hello
          have hhello : P l.identity.hello := hother _ fun _ _ heq => by cases heq
          have hsend : l.Reports P
              (l.onSocket k fun sock => { sock.send l.identity.hello with greeted := true }) :=
            reports_onSocket fun _ hframes => frames_send hhello hframes
          exact hsend.trans_eq rfl rfl rfl rfl
        · simp at h
      · simp at h
  | onMessage k nowMs heartbeatAck =>
      simp only [step] at h
      split at h
      · split at h
        · obtain rfl := Option.some.inj h
          exact (Reports.refl l).trans_eq rfl rfl rfl rfl
        · simp at h
      · simp at h
  | reply k f =>
      simp only [step] at h
      split at h
      · split at h
        · rename_i hreply
          obtain rfl := Option.some.inj h
          -- no heartbeat is a reply
          have hf : P f := by
            apply hother
            rintro ts r rfl
            exact hreply.2.elim
          exact reports_onSocket fun _ hframes => frames_send hf hframes
        · simp at h
      · simp at h
  | onClosing k =>
      obtain rfl := Option.some.inj h
      exact reports_onSocket fun _ hframes => hframes
  | dropped k =>
      obtain rfl := Option.some.inj h
      have hclose : l.Reports P (l.onSocket k Socket.close) := reports_onSocket fun _ h => h
      simp only [dropped]
      split
      · exact hclose.trans_eq rfl rfl rfl rfl
      · exact hclose
  | forceReconnect =>
      obtain rfl := Option.some.inj h
      exact reports_forceReconnect
  | verifyLink nowMs =>
      obtain rfl := Option.some.inj h
      unfold verifyLink
      split
      · split
        · exact reports_forceReconnect
        · exact reports_sendCurrent (hbeat nowMs)
      · exact .refl l
  | heartbeat nowMs =>
      simp only [step] at h
      split at h
      · obtain rfl := Option.some.inj h
        unfold beat
        split
        · exact (Reports.refl l).trans_eq rfl rfl rfl rfl
        · split
          · exact reports_forceReconnect
          · exact reports_sendCurrent (hbeat nowMs)
      · simp at h
  | pokeHeartbeat nowMs =>
      obtain rfl := Option.some.inj h
      exact reports_sendCurrent (hbeat nowMs)
  | setAdb enabled port nowMs => simp [LinkLabel.isAdb] at ha
  | onAdbResolved name port nowMs => simp [LinkLabel.isAdb] at ha
  | event f =>
      obtain rfl := Option.some.inj h
      unfold send
      split
      · exact reports_sendCurrent (hother _ fun _ _ heq => by cases heq)
      · exact reports_sendCurrent (hother _ fun _ _ heq => by cases heq)
      · exact .refl l

/-- What the setting and the port are after a change, which is reported at once. -/
theorem setAdb_spec (enabled : Bool) (port : Option Nat) (nowMs : Int)
    (hbeat : P
      (({ l with adbWifiEnabled := enabled, adbPort := port } : Link).heartbeatFrame nowMs)) :
    (l.setAdb enabled port nowMs).adbWifiEnabled = enabled ∧
      (l.setAdb enabled port nowMs).adbPort = port ∧
      (l.setAdb enabled port nowMs).ownAdbService = l.ownAdbService ∧
      (l.Says P → (l.setAdb enabled port nowMs).Says P) := by
  unfold setAdb
  split
  · rename_i hsame
    exact ⟨hsame.1.symm, hsame.2.symm, rfl, fun h => h⟩
  · have hreports :=
      reports_sendCurrent (l := { l with adbWifiEnabled := enabled, adbPort := port }) hbeat
    exact ⟨hreports.enabled, hreports.port, hreports.service, hreports.told⟩

end Link

/-! ## What has been seen of the adverts -/

/-- A reading of the setting that is off, an advert that went away, or one that was resolved, with
the addresses that the phone had then. -/
inductive AdvertSeen where
  | off
  | lost (name : String)
  | resolved (name : String) (hosts : List String) (port : Int) (ownIps : List String)
  deriving DecidableEq

/-- The advert is at an address of the phone, and has a port. -/
def IsOwn (hosts : List String) (port : Int) (ownIps : List String) : Prop :=
  (∃ host ∈ hosts, host ∈ ownIps) ∧ 1 ≤ port ∧ port ≤ 65535

theorem pickOwn_eq_some_iff {hosts ownIps : List String} {port mine : Int} :
    pickOwn (hosts.map fun host => (host, port)) ownIps = some mine ↔
      mine = port ∧ IsOwn hosts port ownIps := by
  rw [pickOwn, Option.map_eq_some_iff]
  constructor
  · rintro ⟨r, hr, rfl⟩
    obtain ⟨host, hhost, rfl⟩ := List.mem_map.1 (List.mem_of_find?_eq_some hr)
    have hown := List.find?_some hr
    simp only [Bool.and_eq_true, List.contains_iff_mem, decide_eq_true_eq] at hown
    exact ⟨rfl, ⟨host, hhost, hown.1⟩, hown.2⟩
  · rintro ⟨rfl, ⟨host, hhost, hown⟩, hport⟩
    cases hfind : (hosts.map fun host => (host, mine)).find? fun r =>
        ownIps.contains r.1 && decide (1 ≤ r.2 ∧ r.2 ≤ 65535) with
    | none =>
        have hnot := List.find?_eq_none.1 hfind (host, mine) (List.mem_map_of_mem hhost)
        simp [hown, hport] at hnot
    | some r =>
        obtain ⟨host', -, rfl⟩ := List.mem_map.1 (List.mem_of_find?_eq_some hfind)
        exact ⟨_, rfl, rfl⟩

/-- The advert has been found at an address of the phone. -/
def Advertised (seen : List AdvertSeen) (name : String) (port : Nat) : Prop :=
  ∃ hosts ownIps, AdvertSeen.resolved name hosts port ownIps ∈ seen ∧ IsOwn hosts port ownIps

/-- What is seen withdraws the advert of a name: debugging is off, the advert has gone, or there is
another own one. -/
def AdvertSeen.Withdraws (name : String) : AdvertSeen → Prop
  | .off => True
  | .lost gone => gone = name
  | .resolved _ hosts port ownIps => IsOwn hosts port ownIps

/-- The advert is the last own one, and nothing has withdrawn it since. -/
def Stands (seen : List AdvertSeen) (name : String) (port : Nat) : Prop :=
  ∃ before hosts ownIps after,
    seen = before ++ AdvertSeen.resolved name hosts port ownIps :: after ∧
      IsOwn hosts port ownIps ∧ ∀ e ∈ after, ¬ e.Withdraws name

/-- A heartbeat names a port only with the setting on, and with the name of the advert that it is
from. -/
def Truthful (seen : List AdvertSeen) (f : PhoneToServer) : Prop :=
  ∀ ts r, f = .heartbeat ts (some r) →
    (r.port = none → r.service = none) ∧ ∀ port, r.port = some port →
      r.wifiEnabled = true ∧ ∃ name, r.service = some name ∧ Advertised seen name port

section Seen

variable {seen : List AdvertSeen} {name : String} {port : Nat}

theorem Stands.advertised (h : Stands seen name port) : Advertised seen name port := by
  obtain ⟨before, hosts, ownIps, after, rfl, hown, -⟩ := h
  exact ⟨hosts, ownIps, by simp, hown⟩

theorem Stands.append (h : Stands seen name port) {es : List AdvertSeen}
    (hes : ∀ e ∈ es, ¬ e.Withdraws name) : Stands (seen ++ es) name port := by
  obtain ⟨before, hosts, ownIps, after, rfl, hown, hafter⟩ := h
  refine ⟨before, hosts, ownIps, after ++ es, by simp, hown, fun e he => ?_⟩
  rcases List.mem_append.1 he with hold | hnew
  · exact hafter e hold
  · exact hes e hnew

theorem Truthful.append {f : PhoneToServer} (h : Truthful seen f) (es : List AdvertSeen) :
    Truthful (seen ++ es) f := by
  intro ts r hf
  obtain ⟨hnone, hsome⟩ := h ts r hf
  refine ⟨hnone, fun port hport => ?_⟩
  obtain ⟨henabled, name, hname, hosts, ownIps, hmem, hown⟩ := hsome port hport
  exact ⟨henabled, name, hname, hosts, ownIps, List.mem_append_left _ hmem, hown⟩

theorem truthful_of_other {f : PhoneToServer} (h : ∀ ts r, f ≠ .heartbeat ts (some r)) :
    Truthful seen f :=
  fun ts r hf => absurd hf (h ts r)

end Seen

/-- The port that the link holds is that of the advert that stands. -/
def Link.HoldsOwn (seen : List AdvertSeen) (l : Link) : Prop :=
  ∀ port, l.adbPort = some port →
    l.adbWifiEnabled = true ∧ ∃ name, l.ownAdbService = some name ∧ Stands seen name port

/-- All that the link has reported, and what it holds. -/
structure Link.OwnPort (seen : List AdvertSeen) (l : Link) : Prop where
  holds : l.HoldsOwn seen
  told : l.Says (Truthful seen)

namespace Link

variable {l t : Link} {seen : List AdvertSeen}

theorem truthful_heartbeatFrame (h : l.HoldsOwn seen) (nowMs : Int) :
    Truthful seen (l.heartbeatFrame nowMs) := by
  intro ts r hr
  obtain ⟨-, hr⟩ := PhoneToServer.heartbeat.inj hr
  obtain rfl := Option.some.inj hr
  refine ⟨fun hnone => if_pos hnone, fun port hport => ?_⟩
  obtain ⟨henabled, name, hname, hstands⟩ := h port hport
  have hsome : l.adbPort ≠ none := by
    rw [show l.adbPort = some port from hport]
    simp
  exact ⟨henabled, name, (if_neg hsome).trans hname, hstands.advertised⟩

theorem Says.append (h : l.Says (Truthful seen)) (es : List AdvertSeen) :
    l.Says (Truthful (seen ++ es)) :=
  fun sock hsock f hf => (h sock hsock f hf).append es

/-- What is seen withdraws nothing, and the link goes on. -/
theorem OwnPort.append (h : l.OwnPort seen) {es : List AdvertSeen}
    (hes : ∀ name, l.ownAdbService = some name → ∀ e ∈ es, ¬ e.Withdraws name) :
    l.OwnPort (seen ++ es) := by
  refine ⟨fun port hport => ?_, h.told.append es⟩
  obtain ⟨henabled, name, hname, hstands⟩ := h.holds port hport
  exact ⟨henabled, name, hname, hstands.append (hes name hname)⟩

theorem OwnPort.reports (h : l.OwnPort seen) (hreports : l.Reports (Truthful seen) t) :
    t.OwnPort seen := by
  refine ⟨fun port hport => ?_, hreports.told h.told⟩
  rw [hreports.port] at hport
  rw [hreports.enabled, hreports.service]
  exact h.holds port hport

/-- A change after which the port that is held, if any, stands. -/
theorem OwnPort.setAdb (h : l.Says (Truthful seen)) {enabled : Bool} {port : Option Nat}
    (hholds : ({ l with adbWifiEnabled := enabled, adbPort := port } : Link).HoldsOwn seen)
    (nowMs : Int) : (l.setAdb enabled port nowMs).OwnPort seen := by
  obtain ⟨henabled, hport, hservice, htold⟩ :=
    setAdb_spec enabled port nowMs (truthful_heartbeatFrame hholds nowMs)
  refine ⟨fun p hp => ?_, htold h⟩
  rw [hport] at hp
  rw [henabled, hservice]
  exact hholds p hp

/-- Without a port there is nothing to hold. -/
theorem OwnPort.setAdb_none (h : l.Says (Truthful seen)) (enabled : Bool) (nowMs : Int) :
    (l.setAdb enabled none nowMs).OwnPort seen :=
  OwnPort.setAdb h (fun port hport => absurd hport (by simp)) nowMs

/-- **An own advert is adopted.** -/
theorem OwnPort.onAdbResolved (h : l.OwnPort seen) {name : String} {hosts ownIps : List String}
    {port : Int} (hown : IsOwn hosts port ownIps) (nowMs : Int) :
    (l.onAdbResolved name port.toNat nowMs).OwnPort
      (seen ++ [.resolved name hosts port ownIps]) := by
  have hport : ((port.toNat : Nat) : Int) = port :=
    Int.toNat_of_nonneg (Int.le_trans (by decide) hown.2.1)
  have hstands : Stands (seen ++ [.resolved name hosts port ownIps]) name port.toNat := by
    refine ⟨seen, hosts, ownIps, [], ?_, ?_, fun e he => absurd he List.not_mem_nil⟩
    · rw [hport]
    · rw [hport]
      exact hown
  have htold := h.told.append [.resolved name hosts port ownIps]
  simp only [Link.onAdbResolved]
  split
  · apply OwnPort.setAdb (l := { l with ownAdbService := some name }) htold
    intro p hp
    obtain rfl := Option.some.inj hp
    exact ⟨rfl, name, rfl, hstands⟩
  · rename_i hoff
    refine ⟨fun p hp => ?_, htold⟩
    exact absurd (h.holds p hp).1 hoff

end Link

namespace OwnAdvert

variable {l t : OwnAdvert} {seen : List AdvertSeen}

/-- What is seen of a step. -/
def obs (l : OwnAdvert) : OwnAdvertLabel → List AdvertSeen
  | .refreshAdb enabled _ _ => if l.link.running && !enabled then [.off] else []
  | .onServiceLost name _ => [.lost name]
  | .onAdbResolved name hosts port ownIps _ => [.resolved name hosts port ownIps]
  | _ => []

theorem ownPort_refreshAdb (h : l.link.OwnPort seen) (enabled starts : Bool) (nowMs : Int) :
    (l.refreshAdb enabled starts nowMs).link.OwnPort
      (seen ++ l.obs (.refreshAdb enabled starts nowMs)) := by
  unfold refreshAdb
  cases hrunning : l.link.running with
  | false => simpa [obs, hrunning] using h
  | true =>
      cases enabled with
      | false =>
          have hobs : l.obs (.refreshAdb false starts nowMs) = [.off] := by
            simp [obs, hrunning]
          rw [hobs]
          exact Link.OwnPort.setAdb_none (l := l.link) (h.told.append [.off]) false nowMs
      | true =>
          have hobs : l.obs (.refreshAdb true starts nowMs) = [] := by simp [obs]
          rw [hobs, List.append_nil]
          simp only [Bool.not_true, Bool.false_eq_true, if_false]
          -- the search that starts changes nothing of the link
          have hlink : (if l.link.adbWifiEnabled then l else l.setAdb true none nowMs).link.OwnPort
              seen := by
            split
            · exact h
            · exact Link.OwnPort.setAdb_none h.told true nowMs
          generalize (if l.link.adbWifiEnabled then l else l.setAdb true none nowMs) = m at hlink ⊢
          split
          · exact hlink
          · exact hlink

theorem link_of_step {a : LinkLabel} (h : l.step (.link a) = some t) :
    l.link.step a = some t.link ∧ a.isAdb = false := by
  simp only [step] at h
  split at h
  · simp at h
  · rename_i ha
    obtain ⟨link, hlink, rfl⟩ := Option.map_eq_some_iff.1 h
    exact ⟨hlink, eq_false_of_ne_true ha⟩

theorem ownPort_step {a : OwnAdvertLabel} (h : l.link.OwnPort seen) (hstep : l.step a = some t) :
    t.link.OwnPort (seen ++ l.obs a) := by
  cases a with
  | refreshAdb enabled starts nowMs =>
      obtain rfl := Option.some.inj hstep
      exact ownPort_refreshAdb h enabled starts nowMs
  | onStartDiscoveryFailed search =>
      obtain rfl := Option.some.inj hstep
      simp only [obs, List.append_nil]
      split
      · exact h
      · exact h
  | onServiceFound name registers =>
      obtain rfl := Option.some.inj hstep
      simp only [obs, List.append_nil, resolveAdb]
      split
      · exact h
      · split
        · exact h
        · exact h
  | onRegistrationFailed name =>
      obtain rfl := Option.some.inj hstep
      simpa [obs] using h
  | onServiceLost name nowMs =>
      obtain rfl := Option.some.inj hstep
      simp only [obs, onServiceLost]
      split
      · exact Link.OwnPort.setAdb_none (h.told.append [.lost name]) _ nowMs
      -- the advert of another phone
      · rename_i hother
        apply h.append
        intro own hown e he hwithdraws
        rw [List.mem_singleton.1 he] at hwithdraws
        have hname : name = own := hwithdraws
        exact hother (hname ▸ hown)
  | onAdbResolved name hosts port ownIps nowMs =>
      obtain rfl := Option.some.inj hstep
      simp only [obs, onAdbResolved]
      split
      · rename_i hnone
        apply h.append
        intro own _ e he hwithdraws
        rw [List.mem_singleton.1 he] at hwithdraws
        have hown : IsOwn hosts port ownIps := hwithdraws
        have hsome := pickOwn_eq_some_iff.2 ⟨rfl, hown⟩
        exact absurd (hnone.symm.trans hsome) (by simp)
      · rename_i mine hmine
        obtain ⟨rfl, hown⟩ := pickOwn_eq_some_iff.1 hmine
        exact h.onAdbResolved hown nowMs
  | link a =>
      obtain ⟨hlink, ha⟩ := link_of_step hstep
      simp only [obs, List.append_nil]
      apply h.reports
      apply Link.reports_step (fun f hf => truthful_of_other hf) _ ha hlink
      intro nowMs
      exact Link.truthful_heartbeatFrame h.holds nowMs

theorem ownPort_of_run {identity : Identity} {as : List OwnAdvertLabel}
    (hrun : machine.run (start identity) as = some t) :
    t.link.OwnPort (machine.collect obs (start identity) as) := by
  have hstart : (start identity).link.OwnPort [] := by
    refine ⟨fun port hport => absurd hport (by simp [start, Link.start]), fun sock hsock => ?_⟩
    exact absurd hsock (by simp [start, Link.start])
  exact Machine.run_collect obs (R := fun seen l => l.link.OwnPort seen)
    (fun _ _ _ _ h _ hstep => ownPort_step h hstep) [] hstart (Machine.meets_true _ _) hrun

/-- **The phone reports its own port**: whatever was found, lost, resolved or switched off, each
heartbeat that any socket has accepted names a port only with the setting on and with the name of an
advert for that port at an address of the phone; and a port that the phone holds is that of the last
such advert, which has neither gone nor been switched off since. -/
theorem reports_own_port {identity : Identity} {as : List OwnAdvertLabel}
    (hrun : machine.run (start identity) as = some t) :
    (∀ sock ∈ t.link.sockets, ∀ ts r, .heartbeat ts (some r) ∈ sock.frames →
        (r.port = none → r.service = none) ∧ ∀ port, r.port = some port →
          r.wifiEnabled = true ∧ ∃ name, r.service = some name ∧
            Advertised (machine.collect obs (start identity) as) name port) ∧
      ∀ port, t.link.adbPort = some port →
        t.link.adbWifiEnabled = true ∧ ∃ name, t.link.ownAdbService = some name ∧
          Stands (machine.collect obs (start identity) as) name port := by
  have hport := ownPort_of_run hrun
  exact ⟨fun sock hsock ts r hr => hport.told sock hsock _ hr ts r rfl, hport.holds⟩

/-- The setting is on, and two phones are found on the network. -/
def twoPhones : List OwnAdvertLabel :=
  [.link .onStartCommand, .link .connect, .link .publish, .refreshAdb true true 0,
    .onAdbResolved "adb-other" ["10.0.0.3"] 40251 ["10.0.0.2"] 1,
    .onAdbResolved "adb-own" ["10.0.0.2"] 44759 ["10.0.0.2"] 2]

theorem reports_own_port_two : ∃ t,
    machine.run (start ⟨"p", "phone", "secret", "app"⟩) twoPhones = some t ∧
      t.link.adbPort = some 44759 ∧
      Stands (machine.collect obs (start ⟨"p", "phone", "secret", "app"⟩) twoPhones) "adb-own"
        44759 := by
  obtain ⟨t, hrun, hport, hname⟩ : ∃ t, machine.run (start ⟨"p", "phone", "secret", "app"⟩)
      twoPhones = some t ∧ t.link.adbPort = some 44759 ∧ t.link.ownAdbService = some "adb-own" :=
    ⟨_, rfl, rfl, rfl⟩
  obtain ⟨-, name, hheld, hstands⟩ := (reports_own_port hrun).2 44759 hport
  obtain rfl := Option.some.inj (hname.symm.trans hheld)
  exact ⟨t, hrun, hport, hstands⟩

end OwnAdvert

end DialF.Phone
