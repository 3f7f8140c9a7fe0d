import DialF.Daemon.Superseded
import DialF.Lib.Table
import DialF.Lib.Text

/-!
# Wireless adb

A heartbeat's report sets the status that is shown for the phone, or starts a check of its endpoint.
A check looks at the devices that the host's adb server lists and, when it may, connects the
endpoint; it takes seconds, and what it comes to is shown when it ends. While a check is under way a
report about an endpoint changes nothing, and one that wireless debugging is off is shown at once.

Reports and checks work under locks that are taken one by one; a step is what is done under one of
them. `current_of_notCrossed`: where no report about something else comes while a check is under
way, what is shown is always about the latest report. `not_current_turnedOff` is a run in which one
does.
-/

set_option autoImplicit false

namespace DialF.Daemon.Adb

open DialF.Lib

/-! ## Adb -/

/-- `AdbStatus::new`: without a serial. -/
def AdbStatus.new (endpoint : Option String) (state : AdbState) (detail : Option String) : AdbStatus :=
  ⟨endpoint, none, state, detail⟩

/-- `AdbStatus::connected`. -/
def AdbStatus.connected (endpoint serial : String) : AdbStatus :=
  { AdbStatus.new (some endpoint) .connected none with serial := some serial }

/-- Every serial adb may list this phone under. -/
def serials (endpoint : String) (service : Option String) : List String :=
  match service.filter fun n => n ≠ "" with
  | some name => [endpoint, name ++ "._adb-tls-connect._tcp"]
  | none => [endpoint]

/-- `PAIRING_HINT`. -/
def pairingHint : String :=
  "this host is not paired with the phone — pair once with `adb pair <ip>:<pairing port>`, using the " ++
    "code from Wireless debugging → Pair device with pairing code"

/-- `LOCAL_NETWORK_HINT`. -/
def localNetworkHint : String :=
  "macOS Local Network permission is missing for the adb server. Allow it in System Settings → " ++
    "Privacy & Security → Local Network, and start the adb server (or dialfd) from a plain Terminal " ++
    "window or as a service — under tmux macOS never grants it"

/-- `str::contains`. -/
def contains (s pat : Str) : Bool := s.tails.any fun t => (stripPrefix pat t).isSome

/-- `failed to connect to <host>:<port>` with no reason after it. -/
def bareFailure (lower : Str) : Bool :=
  match stripPrefix "failed to connect to ".toList lower with
  | some rest => ' ' ∉ rest ∧ Char.ofNat 39 ∉ rest
  | none => false

/-- Read `adb connect` output. -/
def classifyConnect (output : Str) (macos : Bool) : AdbState × Option String :=
  let out := trim output
  let lower := out.map Char.toLower
  if contains lower "connected to".toList then (.connected, none)
  else if contains lower "failed to authenticate".toList || contains lower "unauthorized".toList ||
      bareFailure lower then
    (.needsPairing, some pairingHint)
  else if macos && contains lower "no route to host".toList then
    (.blockedLocalNetwork, some localNetworkHint)
  else (.error, some (if out = [] then "adb connect printed nothing" else String.ofList out))

/-- The first of the serials that the adb server lists, with its state; `device` preferred. The
server may not answer. -/
def hostState (serials : List String) (devices : Option (List (String × String))) :
    Option (String × String) :=
  devices.bind fun devices =>
    let listed := devices.filter fun d => d.1 ∈ serials
    (listed.find? fun d => d.2 = "device").or listed.head?

/-- Delay before the next connect attempt after a failure, in milliseconds. -/
structure Backoff where
  delay : Nat
  notBefore : Option Nat
  deriving DecidableEq

namespace Backoff

/-- `FIRST_RETRY`, in milliseconds. -/
def firstRetry : Nat := 30000

/-- `MAX_RETRY`, in milliseconds. -/
def maxRetry : Nat := 300000

/-- `Backoff::default`: nothing to wait for. -/
def start : Backoff := ⟨firstRetry, none⟩

/-- `Backoff::ready`: the time to wait for has come. -/
def ready (b : Backoff) (now : Nat) : Bool := b.notBefore.all (· ≤ now)

/-- `Backoff::failed`: wait for the delay, and longer the next time. -/
def failed (b : Backoff) (now : Nat) : Backoff := ⟨min (b.delay * 2) maxRetry, some (now + b.delay)⟩

end Backoff

/-- `Link`: what is kept for a device between its checks. -/
structure Link where
  endpoint : Option String
  backoff : Backoff
  busy : Bool
  deriving DecidableEq

/-- `Link::default`. -/
def Link.start : Link := ⟨none, .start, false⟩

/-! ## Checks -/

/-- What the host is set to. -/
structure Settings where
  autoconnect : Bool
  macos : Bool

/-- How far a check has come. -/
inductive Phase where
  | listing
  | connecting
  | running
  | confirming (output : Str)
  | done (outcome : Option AdbStatus)
  | writing (status : AdbStatus)
  deriving DecidableEq

/-- A check of an endpoint. -/
structure Check where
  device : String
  endpoint : String
  serials : List String
  previous : Option String
  mayConnect : Bool
  phase : Phase
  deriving DecidableEq

/-- What a check gets to know: the list of the adb server, whether an adb binary is found, and what
`adb connect` prints, or why it has not run. -/
inductive Answer where
  | devices (list : Option (List (String × String)))
  | adb (found : Bool)
  | output (result : Except String Str)

/-- `drive` and `connect`, from one answer to the next: the new phase, and a status that is shown.
The endpoint that was linked before is disconnected ahead of the connect, whatever comes of that. -/
def Check.drive (cfg : Settings) (c : Check) : Answer → Option (Phase × Option AdbStatus)
  | .devices list =>
      match c.phase with
      | .listing =>
          let next : Phase := if c.mayConnect then .connecting else .done none
          match hostState c.serials list with
          | some (serial, st) =>
              if st = "device" then some (.done (some (AdbStatus.connected c.endpoint serial)), none)
              else if st = "unauthorized" then
                some (.done (some (AdbStatus.new (some c.endpoint) .needsPairing (some pairingHint))),
                  none)
              else some (next, none)
          | none => some (next, none)
      | .confirming output =>
          let missing := "adb reported `" ++ String.ofList (trim output) ++
            "` but the phone is not in its device list"
          match hostState [c.endpoint] list with
          | some (serial, st) =>
              if st = "device" then some (.done (some (AdbStatus.connected c.endpoint serial)), none)
              else some (.done (some (AdbStatus.new (some c.endpoint) .error (some missing))), none)
          | none => some (.done (some (AdbStatus.new (some c.endpoint) .error (some missing))), none)
      | _ => none
  | .adb found =>
      match c.phase with
      | .connecting =>
          if cfg.autoconnect then
            if found then
              some (.running, some (AdbStatus.new (some c.endpoint) .connecting none))
            else
              some (.done (some (AdbStatus.new (some c.endpoint) .adbNotFound
                (some ("adb not found on the service PATH or in the default SDK location — set " ++
                  "adb_share.adb in config.yaml")))), none)
          else
            some (.done (some (AdbStatus.new (some c.endpoint) .available
              (some "auto-connect is off (adb_share.autoconnect in config.yaml)"))), none)
      | _ => none
  | .output result =>
      match c.phase, result with
      | .running, .error e =>
          some (.done (some (AdbStatus.new (some c.endpoint) .error (some e))), none)
      | .running, .ok output =>
          let (state, detail) := classifyConnect output cfg.macos
          if state = .connected then some (.confirming output, none)
          else some (.done (some (AdbStatus.new (some c.endpoint) state detail)), none)
      | _, _ => none

/-! ## Reports -/

/-- What a report says, from a phone at an address. -/
inductive Said where
  | off (detail : Option String)
  | on (endpoint : String)
  deriving DecidableEq

/-- Wireless debugging counts as on once the phone has found its port. -/
def said (ip : String) (report : AdbReport) : Said :=
  match report.wifiEnabled, report.port with
  | false, _ => .off none
  | true, none => .off (some "wireless debugging is on; the phone has not found its port yet")
  | true, some port => .on (adbEndpoint ip port)

/-- What is left of `on_report`. -/
inductive Stage where
  | off (detail : Option String)
  | link (endpoint : String) (service : Option String)
  | shown (check : Check)
  | spawn (check : Check) (show' : Bool)
  deriving DecidableEq

/-- A device of the registry. -/
structure Device where
  addr : Option String
  adb : Option AdbStatus
  deriving DecidableEq

/-- The daemon, as far as wireless adb is concerned. `latest` is what the report said that was
handled last; nothing reads it. -/
structure Links where
  devices : AList fun _ : String => Device
  links : AList fun _ : String => Link
  handling : AList fun _ : String => Stage
  checks : List Check
  latest : AList fun _ : String => Said

/-- What can happen to the links. -/
inductive Label where
  /-- A heartbeat brings a report. -/
  | report (device : String) (report : AdbReport)
  /-- `on_report` goes on. -/
  | handle (device : String) (now : Nat)
  /-- A check goes on. -/
  | drive (j : Nat) (answer : Answer)
  /-- A check that has come to its end lets go of the link. -/
  | release (j : Nat) (now : Nat)
  | write (j : Nat)

namespace Links

/-- What is shown for a device. -/
def shown (s : Links) (device : String) : Option AdbStatus :=
  (s.devices.lookup device).bind Device.adb

/-- The status is recorded for a device that is registered. -/
def setStatus (s : Links) (device : String) (status : AdbStatus) : Links :=
  match s.devices.lookup device with
  | some d => { s with devices := s.devices.insert device { d with adb := some status } }
  | none => s

/-- The report has been handled. -/
def handled (s : Links) (device : String) (what : Said) : Links :=
  { s with handling := s.handling.erase device, latest := s.latest.insert device what }

/-- One section of `on_report`. -/
def handle (s : Links) (device : String) (now : Nat) : Stage → Links
  | .off detail => (s.setStatus device (AdbStatus.new none .off detail)).handled device (.off detail)
  | .link endpoint service =>
      let link := (s.links.lookup device).getD .start
      if link.busy then s.handled device (.on endpoint)
      else
        -- a new port is a fresh start
        let changed := link.endpoint ≠ some endpoint
        let backoff := if changed then .start else link.backoff
        let check : Check :=
          { device, endpoint, serials := serials endpoint service
            previous := if changed then link.endpoint else none
            mayConnect := changed || backoff.ready now
            phase := .listing }
        { s with
          links := s.links.insert device ⟨some endpoint, backoff, true⟩
          handling := s.handling.insert device (.shown check) }
  | .shown check =>
      { s with
        handling := s.handling.insert device
          (.spawn check ((s.shown device).bind AdbStatus.endpoint ≠ some check.endpoint)) }
  | .spawn check show' =>
      let s :=
        if show' then s.setStatus device (AdbStatus.new (some check.endpoint) .available none) else s
      { s.handled device (.on check.endpoint) with checks := s.checks ++ [check] }

/-- What the end of a check does to the link. -/
def Link.release (link : Link) (now : Nat) (outcome : Option AdbStatus) : Link :=
  match outcome.map AdbStatus.state with
  | none => { link with busy := false }
  | some .connected => { link with busy := false, backoff := .start }
  | some .available => { link with busy := false, backoff := .start }
  | some _ => { link with busy := false, backoff := link.backoff.failed now }

/-- The link of the device is free again, after the outcome of its check. -/
def released (s : Links) (device : String) (now : Nat) (outcome : Option AdbStatus) : Links :=
  match s.links.lookup device with
  | some link => { s with links := s.links.insert device (Link.release link now outcome) }
  | none => s

/-- What one step does to the links, where it can be taken. -/
def step (cfg : Settings) (s : Links) : Label → Option Links
  | .report device report =>
      match s.handling.lookup device with
      -- the heartbeats of a phone are handled one after the other
      | some _ => none
      | none =>
          match (s.devices.lookup device).bind Device.addr with
          | none => some s
          | some ip =>
              let stage :=
                match said ip report with
                | .off detail => .off detail
                | .on endpoint => .link endpoint report.service
              some { s with handling := s.handling.insert device stage }
  | .handle device now => (s.handling.lookup device).map (s.handle device now)
  | .drive j answer =>
      match s.checks[j]? with
      | none => none
      | some c =>
          match c.drive cfg answer with
          | none => none
          | some (phase, status) =>
              let s := { s with checks := s.checks.set j { c with phase } }
              match status with
              | some status => some (s.setStatus c.device status)
              | none => some s
  | .release j now =>
      match s.checks[j]? with
      | some c =>
          match c.phase with
          | .done outcome =>
              let s := s.released c.device now outcome
              match outcome with
              | some status =>
                  some { s with checks := s.checks.set j { c with phase := .writing status } }
              | none => some { s with checks := s.checks.eraseIdx j }
          | _ => none
      | none => none
  | .write j =>
      match s.checks[j]? with
      | some c =>
          match c.phase with
          | .writing status =>
              some { s.setStatus c.device status with checks := s.checks.eraseIdx j }
          | _ => none
      | none => none

/-- Phones that have connected, at their addresses, before their first report. -/
def start (phones : List (String × Option String)) : Links where
  devices := (phones.map fun p => (⟨p.1, ⟨p.2, none⟩⟩ : Sigma fun _ : String => Device)).toAList
  links := ∅
  handling := ∅
  checks := []
  latest := ∅

/-- All runs of the links, for any phones. -/
def machine (cfg : Settings) : Machine Links Label where
  Init s := ∃ phones, s = start phones
  step := step cfg

end Links

/-- The status is about what a report said. -/
def IsAbout (status : AdbStatus) : Said → Prop
  | .off detail => status = AdbStatus.new none .off detail
  | .on endpoint => status.endpoint = some endpoint

/-- **What is shown is about the latest report.** -/
def Links.Current (s : Links) : Prop :=
  ∀ device what, s.latest.lookup device = some what →
    ∃ status, s.shown device = some status ∧ IsAbout status what

/-- The step does not cross a check: a report that comes while a check of the device is under way is
about the endpoint that is checked. -/
def Links.NotCrossed (s : Links) : Label → Prop
  | .report device report =>
      ∀ ip ∈ (s.devices.lookup device).bind Device.addr,
        ∀ c ∈ s.checks, c.device = device → said ip report = .on c.endpoint
  | _ => True

instance (s : Links) : ∀ a : Label, Decidable (s.NotCrossed a)
  | .report device report =>
      inferInstanceAs (Decidable (∀ ip ∈ (s.devices.lookup device).bind Device.addr,
        ∀ c ∈ s.checks, c.device = device → said ip report = .on c.endpoint))
  | .handle _ _ => .isTrue trivial
  | .drive _ _ => .isTrue trivial
  | .release _ _ => .isTrue trivial
  | .write _ => .isTrue trivial

/-! ## The invariant -/

/-- What the check is about to show is about its endpoint. -/
def Check.Sound (c : Check) : Prop :=
  ∀ status, c.phase = .done (some status) ∨ c.phase = .writing status →
    status.endpoint = some c.endpoint

/-- The check still has the link. -/
def Check.holds (c : Check) : Bool :=
  match c.phase with
  | .writing _ => false
  | _ => true

/-- What the report says that is being handled. -/
def Stage.said : Stage → Said
  | .off detail => .off detail
  | .link endpoint _ => .on endpoint
  | .shown check => .on check.endpoint
  | .spawn check _ => .on check.endpoint

/-- The check that a stage is about to start. -/
def Stage.check : Stage → Option Check
  | .shown check => some check
  | .spawn check _ => some check
  | _ => none

theorem Stage.said_of_check {stage : Stage} {check : Check} (h : stage.check = some check) :
    stage.said = .on check.endpoint := by
  cases stage with
  | off detail => cases h
  | link endpoint service => cases h
  | shown c =>
      obtain rfl := Option.some.inj h
      rfl
  | spawn c show' =>
      obtain rfl := Option.some.inj h
      rfl

/-- What holds of the links in every state reached. -/
structure Links.Inv (s : Links) : Prop where
  current : s.Current
  latest : ∀ c ∈ s.checks, s.latest.lookup c.device = some (.on c.endpoint)
  sound : ∀ c ∈ s.checks, c.Sound
  known : ∀ device stage, s.handling.lookup device = some stage → s.devices.lookup device ≠ none
  uncrossed : ∀ device stage, s.handling.lookup device = some stage →
    ∀ c ∈ s.checks, c.device = device → stage.said = .on c.endpoint
  fresh : ∀ device stage check, s.handling.lookup device = some stage → stage.check = some check →
    check.device = device ∧ check.phase = .listing
  spawn : ∀ device check, s.handling.lookup device = some (.spawn check false) →
    (s.shown device).bind AdbStatus.endpoint = some check.endpoint
  busy : ∀ device link, s.links.lookup device = some link → link.busy = true →
    (∃ c ∈ s.checks, c.device = device ∧ c.holds = true) ∨
      ∃ stage, s.handling.lookup device = some stage ∧ stage.check ≠ none

/-- A check may go on so: what it shows, and what it has come to, is about its endpoint, and it
keeps the link. -/
structure Check.Goes (c : Check) (r : Phase × Option AdbStatus) : Prop where
  sound : ({ c with phase := r.1 } : Check).Sound
  holds : ({ c with phase := r.1 } : Check).holds = true
  shows : ∀ status, r.2 = some status → status.endpoint = some c.endpoint

theorem goes_done {c : Check} {status : AdbStatus}
    (h : status.endpoint = some c.endpoint) : c.Goes (.done (some status), none) := by
  refine ⟨?_, rfl, by simp⟩
  rintro st (hphase | hphase)
  · obtain rfl := Option.some.inj (Phase.done.inj hphase)
    exact h
  · cases hphase

/-- A phase with nothing to show yet. -/
theorem goes_quiet {c : Check} {phase : Phase} {shows : Option AdbStatus}
    (hphase : phase = .connecting ∨ phase = .running ∨ phase = .done none ∨
      ∃ output, phase = .confirming output)
    (hshows : ∀ status, shows = some status → status.endpoint = some c.endpoint) :
    c.Goes (phase, shows) := by
  rcases hphase with rfl | rfl | rfl | ⟨output, rfl⟩
  all_goals
    refine ⟨?_, rfl, hshows⟩
    rintro st (hst | hst) <;> cases hst

/-- **A check goes on so.** -/
theorem drive_goes {c : Check} {cfg : Settings} {answer : Answer} {r : Phase × Option AdbStatus}
    (h : c.drive cfg answer = some r) : c.Goes r := by
  -- where the device is not listed, or is in another state than the two
  have hnext : c.Goes ((if c.mayConnect then .connecting else .done none), none) := by
    cases c.mayConnect with
    | true => exact goes_quiet (Or.inl rfl) (by simp)
    | false => exact goes_quiet (Or.inr (Or.inr (Or.inl rfl))) (by simp)
  cases answer with
  | devices list =>
      cases hphase : c.phase with
      | listing =>
          simp only [Check.drive, hphase] at h
          cases hstate : hostState c.serials list with
          | none =>
              simp only [hstate] at h
              exact Option.some.inj h ▸ hnext
          | some found =>
              simp only [hstate] at h
              split at h
              · exact Option.some.inj h ▸ goes_done rfl
              · split at h
                · exact Option.some.inj h ▸ goes_done rfl
                · exact Option.some.inj h ▸ hnext
      | confirming output =>
          simp only [Check.drive, hphase] at h
          cases hstate : hostState [c.endpoint] list with
          | none =>
              simp only [hstate] at h
              exact Option.some.inj h ▸ goes_done rfl
          | some found =>
              simp only [hstate] at h
              split at h <;> exact Option.some.inj h ▸ goes_done rfl
      | connecting => simp [Check.drive, hphase] at h
      | running => simp [Check.drive, hphase] at h
      | done outcome => simp [Check.drive, hphase] at h
      | writing status => simp [Check.drive, hphase] at h
  | adb found =>
      cases hphase : c.phase with
      | connecting =>
          simp only [Check.drive, hphase] at h
          split at h
          · split at h
            · refine Option.some.inj h ▸ goes_quiet (Or.inr (Or.inl rfl)) ?_
              rintro st ⟨⟩
              rfl
            · exact Option.some.inj h ▸ goes_done rfl
          · exact Option.some.inj h ▸ goes_done rfl
      | listing => simp [Check.drive, hphase] at h
      | running => simp [Check.drive, hphase] at h
      | confirming output => simp [Check.drive, hphase] at h
      | done outcome => simp [Check.drive, hphase] at h
      | writing status => simp [Check.drive, hphase] at h
  | output result =>
      cases hphase : c.phase with
      | running =>
          cases result with
          | error e =>
              simp only [Check.drive, hphase] at h
              exact Option.some.inj h ▸ goes_done rfl
          | ok output =>
              simp only [Check.drive, hphase] at h
              split at h
              · exact Option.some.inj h ▸
                  goes_quiet (Or.inr (Or.inr (Or.inr ⟨output, rfl⟩))) (by simp)
              · exact Option.some.inj h ▸ goes_done rfl
      | listing => simp [Check.drive, hphase] at h
      | connecting => simp [Check.drive, hphase] at h
      | confirming output => simp [Check.drive, hphase] at h
      | done outcome => simp [Check.drive, hphase] at h
      | writing status => simp [Check.drive, hphase] at h

namespace Links

section Status

variable {s : Links} {device device' : String} {status : AdbStatus}

@[simp]
theorem setStatus_links : (s.setStatus device status).links = s.links := by
  rw [setStatus]
  split <;> rfl

@[simp]
theorem setStatus_handling : (s.setStatus device status).handling = s.handling := by
  rw [setStatus]
  split <;> rfl

@[simp]
theorem setStatus_checks : (s.setStatus device status).checks = s.checks := by
  rw [setStatus]
  split <;> rfl

@[simp]
theorem setStatus_latest : (s.setStatus device status).latest = s.latest := by
  rw [setStatus]
  split <;> rfl

theorem shown_setStatus_self (h : s.devices.lookup device ≠ none) :
    (s.setStatus device status).shown device = some status := by
  obtain ⟨d, hd⟩ := Option.ne_none_iff_exists'.1 h
  rw [setStatus, hd]
  simp only [shown, AList.lookup_insert, Option.bind_some]

theorem shown_setStatus_ne (h : device' ≠ device) :
    (s.setStatus device status).shown device' = s.shown device' := by
  rw [setStatus]
  cases s.devices.lookup device with
  | none => rfl
  | some d => simp only [shown, AList.lookup_insert_ne h]

theorem setStatus_known (h : s.devices.lookup device' ≠ none) :
    (s.setStatus device status).devices.lookup device' ≠ none := by
  rw [setStatus]
  cases s.devices.lookup device with
  | none => exact h
  | some d =>
      by_cases hd : device' = device
      · rw [hd, AList.lookup_insert]
        simp
      · rw [AList.lookup_insert_ne hd]
        exact h

theorem known_of_shown (h : s.shown device = some status) : s.devices.lookup device ≠ none := by
  intro hnone
  rw [shown, hnone] at h
  cases h

end Status

section Steps

variable {s : Links} {device : String} {status : AdbStatus} {c : Check} {j : Nat}

/-- Showing what a check has to say of its endpoint. -/
theorem Inv.setStatus (h : s.Inv) (hc : c ∈ s.checks) (hstatus : status.endpoint = some c.endpoint) :
    (s.setStatus c.device status).Inv := by
  have hknown : s.devices.lookup c.device ≠ none := by
    obtain ⟨old, hold, -⟩ := h.current c.device _ (h.latest c hc)
    exact known_of_shown hold
  have hself : (s.setStatus c.device status).shown c.device = some status :=
    shown_setStatus_self hknown
  constructor
  · intro device what hwhat
    rw [setStatus_latest] at hwhat
    by_cases hd : device = c.device
    · subst hd
      rw [h.latest c hc] at hwhat
      obtain rfl := Option.some.inj hwhat
      exact ⟨status, hself, hstatus⟩
    · rw [shown_setStatus_ne hd]
      exact h.current device what hwhat
  · rw [setStatus_checks, setStatus_latest]
    exact h.latest
  · rw [setStatus_checks]
    exact h.sound
  · intro device stage hstage
    rw [setStatus_handling] at hstage
    exact setStatus_known (h.known device stage hstage)
  · rw [setStatus_handling, setStatus_checks]
    exact h.uncrossed
  · rw [setStatus_handling]
    exact h.fresh
  · intro device check hstage
    rw [setStatus_handling] at hstage
    by_cases hd : device = c.device
    · -- a check that is still to be spawned for this device has the same endpoint
      subst hd
      have hsaid := h.uncrossed _ _ hstage c hc rfl
      rw [hself, Option.bind_some, hstatus]
      exact congrArg some (Said.on.inj hsaid).symm
    · rw [shown_setStatus_ne hd]
      exact h.spawn device check hstage
  · rw [setStatus_links, setStatus_checks, setStatus_handling]
    exact h.busy

/-- Going on with a check, as long as its link is not left busy without it. -/
theorem Inv.set {phase : Phase} (h : s.Inv) (hj : s.checks[j]? = some c)
    (hsound : ({ c with phase } : Check).Sound)
    (hbusy : ∀ link, s.links.lookup c.device = some link → link.busy = true →
      ({ c with phase } : Check).holds = true) :
    ({ s with checks := s.checks.set j { c with phase } } : Links).Inv := by
  have hc : c ∈ s.checks := List.mem_of_getElem? hj
  have hall : ∀ P : Check → Prop, P { c with phase } → (∀ c' ∈ s.checks, P c') →
      ∀ c' ∈ s.checks.set j { c with phase }, P c' := by
    intro P hnew hold c' hc'
    rcases List.mem_or_eq_of_mem_set hc' with hc' | rfl
    · exact hold c' hc'
    · exact hnew
  refine ⟨h.current, hall _ (h.latest c hc) h.latest, hall _ hsound h.sound, h.known, ?_, h.fresh,
    h.spawn, ?_⟩
  · intro device stage hstage
    have hold := h.uncrossed device stage hstage
    exact hall (fun c' => c'.device = device → stage.said = .on c'.endpoint) (hold c hc) hold
  · intro device link hlink hlinkBusy
    rcases h.busy device link hlink hlinkBusy with hex | hstage
    · left
      by_cases hd : c.device = device
      · exact exists_mem_set_self hj ⟨hd, hbusy link (hd ▸ hlink) hlinkBusy⟩
      · exact exists_mem_set_of_not hj (fun hp => hd hp.1) hex
    · exact Or.inr hstage

/-- A check ends that has let go of the link. -/
theorem Inv.erase (h : s.Inv) (hj : s.checks[j]? = some c)
    (hfree : ∀ link, s.links.lookup c.device = some link → link.busy = true → c.holds = false) :
    ({ s with checks := s.checks.eraseIdx j } : Links).Inv := by
  have hsub : ∀ c' ∈ s.checks.eraseIdx j, c' ∈ s.checks := fun _ => List.mem_of_mem_eraseIdx
  refine ⟨h.current, fun c' hc' => h.latest c' (hsub c' hc'), fun c' hc' => h.sound c' (hsub c' hc'),
    h.known, fun device stage hstage c' hc' => h.uncrossed device stage hstage c' (hsub c' hc'),
    h.fresh, h.spawn, ?_⟩
  intro device link hlink hbusy
  rcases h.busy device link hlink hbusy with ⟨c', hc', hd, hholds⟩ | hstage
  · left
    obtain ⟨k, hk⟩ := List.getElem?_of_mem hc'
    have hne : k ≠ j := by
      rintro rfl
      obtain rfl := Option.some.inj (hj.symm.trans hk)
      rw [hfree link (hd ▸ hlink) hbusy] at hholds
      cases hholds
    exact ⟨c', List.mem_eraseIdx_iff_getElem?.2 ⟨k, hne, hk⟩, hd, hholds⟩
  · exact Or.inr hstage

theorem release_not_busy (link : Link) (now : Nat) (outcome : Option AdbStatus) :
    (Link.release link now outcome).busy = false := by
  rw [Link.release]
  split <;> rfl

@[simp]
theorem released_checks {now : Nat} {outcome : Option AdbStatus} :
    (s.released device now outcome).checks = s.checks := by
  rw [released]
  split <;> rfl

theorem released_not_busy {now : Nat} {outcome : Option AdbStatus} {link : Link}
    (hlink : (s.released device now outcome).links.lookup device = some link) :
    link.busy = false := by
  rw [released] at hlink
  cases hold : s.links.lookup device with
  | none =>
      rw [hold] at hlink
      rw [hold] at hlink
      cases hlink
  | some old =>
      rw [hold] at hlink
      obtain rfl := Option.some.inj ((AList.lookup_insert s.links).symm.trans hlink)
      exact release_not_busy old now outcome

/-- Letting go of the link of a device. -/
theorem Inv.released (h : s.Inv) (device : String) (now : Nat) (outcome : Option AdbStatus) :
    (s.released device now outcome).Inv := by
  rw [Links.released]
  cases hold : s.links.lookup device with
  | none => exact h
  | some link =>
      refine ⟨h.current, h.latest, h.sound, h.known, h.uncrossed, h.fresh, h.spawn, ?_⟩
      intro device' link' hlink' hbusy
      by_cases hd : device' = device
      · subst hd
        rw [AList.lookup_insert] at hlink'
        rw [← Option.some.inj hlink', release_not_busy] at hbusy
        cases hbusy
      · rw [AList.lookup_insert_ne hd] at hlink'
        exact h.busy device' link' hlink' hbusy

/-! ## Steps -/

theorem Inv.drive {cfg : Settings} {answer : Answer} {t : Links} (h : s.Inv)
    (hstep : step cfg s (.drive j answer) = some t) : t.Inv := by
  simp only [step] at hstep
  cases hj : s.checks[j]? with
  | none => simp [hj] at hstep
  | some c =>
      cases hdrive : c.drive cfg answer with
      | none => simp [hj, hdrive] at hstep
      | some r =>
          obtain ⟨phase, shows⟩ := r
          obtain ⟨hsound, hholds, hshows⟩ := drive_goes hdrive
          have hset := h.set hj hsound fun _ _ _ => hholds
          cases shows with
          | none =>
              simp only [hj, hdrive, Option.some.injEq] at hstep
              exact hstep ▸ hset
          | some status =>
              simp only [hj, hdrive, Option.some.injEq] at hstep
              rw [← hstep]
              have hmem : { c with phase } ∈ s.checks.set j { c with phase } :=
                List.mem_set (List.getElem?_eq_some_iff.1 hj).1 _
              exact Inv.setStatus (c := { c with phase }) hset hmem (hshows status rfl)

theorem Inv.release {cfg : Settings} {now : Nat} {t : Links} (h : s.Inv)
    (hstep : step cfg s (.release j now) = some t) : t.Inv := by
  simp only [step] at hstep
  cases hj : s.checks[j]? with
  | none => simp [hj] at hstep
  | some c =>
      cases hphase : c.phase with
      | done outcome =>
          -- the link is free from here on, and what has come of it is still to be shown
          have hfree := h.released c.device now outcome
          have hj' : (s.released c.device now outcome).checks[j]? = some c := by
            rw [released_checks, hj]
          cases outcome with
          | none =>
              simp only [hj, hphase, Option.some.injEq] at hstep
              rw [← hstep]
              apply hfree.erase hj'
              intro link hlink hbusy
              rw [released_not_busy hlink] at hbusy
              cases hbusy
          | some status =>
              simp only [hj, hphase, Option.some.injEq] at hstep
              rw [← hstep]
              apply hfree.set hj'
              · rintro st (hst | hst)
                · cases hst
                · obtain rfl := Phase.writing.inj hst
                  exact h.sound c (List.mem_of_getElem? hj) status (Or.inl hphase)
              · intro link hlink hbusy
                rw [released_not_busy hlink] at hbusy
                cases hbusy
      | listing => simp [hj, hphase] at hstep
      | connecting => simp [hj, hphase] at hstep
      | running => simp [hj, hphase] at hstep
      | confirming output => simp [hj, hphase] at hstep
      | writing status => simp [hj, hphase] at hstep

theorem Inv.write {cfg : Settings} {t : Links} (h : s.Inv)
    (hstep : step cfg s (.write j) = some t) : t.Inv := by
  simp only [step] at hstep
  cases hj : s.checks[j]? with
  | none => simp [hj] at hstep
  | some c =>
      cases hphase : c.phase with
      | writing status =>
          simp only [hj, hphase, Option.some.injEq] at hstep
          rw [← hstep]
          have hc := List.mem_of_getElem? hj
          have hshown := h.setStatus hc (h.sound c hc status (Or.inr hphase))
          have hj' : (s.setStatus c.device status).checks[j]? = some c := by
            rw [setStatus_checks, hj]
          have herased := hshown.erase hj' fun _ _ _ => by rw [Check.holds, hphase]
          rwa [setStatus_checks] at herased
      | listing => simp [hj, hphase] at hstep
      | connecting => simp [hj, hphase] at hstep
      | running => simp [hj, hphase] at hstep
      | confirming output => simp [hj, hphase] at hstep
      | done outcome => simp [hj, hphase] at hstep

/-- Going on with a report. Its link is as it was, or a check is about to start. -/
theorem Inv.next {stage : Stage} {links : AList fun _ : String => Link} (h : s.Inv)
    (hknown : s.devices.lookup device ≠ none)
    (huncrossed : ∀ c ∈ s.checks, c.device = device → stage.said = .on c.endpoint)
    (hfresh : ∀ check, stage.check = some check → check.device = device ∧ check.phase = .listing)
    (hspawn : ∀ check, stage = .spawn check false →
      (s.shown device).bind AdbStatus.endpoint = some check.endpoint)
    (hlinks : ∀ device', device' ≠ device → links.lookup device' = s.links.lookup device')
    (hbusy : stage.check ≠ none ∨
      (s.handling.lookup device = none ∧ links.lookup device = s.links.lookup device)) :
    ({ s with links, handling := s.handling.insert device stage } : Links).Inv := by
  have hcases : ∀ device' stage', (s.handling.insert device stage).lookup device' = some stage' →
      device' = device ∧ stage' = stage ∨
        device' ≠ device ∧ s.handling.lookup device' = some stage' := by
    intro device' stage' hlookup
    by_cases hd : device' = device
    · subst hd
      rw [AList.lookup_insert] at hlookup
      exact Or.inl ⟨rfl, (Option.some.inj hlookup).symm⟩
    · rw [AList.lookup_insert_ne hd] at hlookup
      exact Or.inr ⟨hd, hlookup⟩
  refine ⟨h.current, h.latest, h.sound, ?_, ?_, ?_, ?_, ?_⟩
  · intro device' stage' hstage
    rcases hcases device' stage' hstage with ⟨rfl, rfl⟩ | ⟨-, hold⟩
    · exact hknown
    · exact h.known device' stage' hold
  · intro device' stage' hstage
    rcases hcases device' stage' hstage with ⟨rfl, rfl⟩ | ⟨-, hold⟩
    · exact huncrossed
    · exact h.uncrossed device' stage' hold
  · intro device' stage' check hstage
    rcases hcases device' stage' hstage with ⟨rfl, rfl⟩ | ⟨-, hold⟩
    · exact hfresh check
    · exact h.fresh device' stage' check hold
  · intro device' check hstage
    rcases hcases device' _ hstage with ⟨rfl, hnew⟩ | ⟨-, hold⟩
    · exact hspawn check hnew.symm
    · exact h.spawn device' check hold
  · intro device' link hlink hlinkBusy
    by_cases hd : device' = device
    · subst hd
      rcases hbusy with hcheck | ⟨hidle, hsame⟩
      · exact Or.inr ⟨stage, AList.lookup_insert s.handling, hcheck⟩
      · rcases h.busy device' link (hsame ▸ hlink) hlinkBusy with hex | ⟨stage', hstage', -⟩
        · exact Or.inl hex
        · rw [hidle] at hstage'
          cases hstage'
    · rw [hlinks device' hd] at hlink
      rcases h.busy device' link hlink hlinkBusy with hex | ⟨stage', hstage', hcheck⟩
      · exact Or.inl hex
      · exact Or.inr ⟨stage', (AList.lookup_insert_ne hd).trans hstage', hcheck⟩

/-- The end of a report: what it says is shown, and the check that it has started is under way. -/
theorem Inv.finish {stage : Stage} {t : Links} (h : s.Inv)
    (hstage : s.handling.lookup device = some stage)
    (hlinks : t.links = s.links) (hhandling : t.handling = s.handling.erase device)
    (hlatest : t.latest = s.latest.insert device stage.said)
    (hchecks : t.checks = s.checks ++ stage.check.toList)
    (hshown : ∃ status, t.shown device = some status ∧ IsAbout status stage.said)
    (hother : ∀ device', device' ≠ device → t.shown device' = s.shown device')
    (hknown : ∀ device', s.devices.lookup device' ≠ none → t.devices.lookup device' ≠ none) :
    t.Inv := by
  have hleft : ∀ device' stage', t.handling.lookup device' = some stage' →
      device' ≠ device ∧ s.handling.lookup device' = some stage' := by
    intro device' stage' hlookup
    rw [hhandling] at hlookup
    by_cases hd : device' = device
    · rw [hd, AList.lookup_erase] at hlookup
      cases hlookup
    · rw [AList.lookup_erase_ne hd] at hlookup
      exact ⟨hd, hlookup⟩
  have hcases : ∀ c ∈ t.checks, c ∈ s.checks ∨
      stage.check = some c ∧ c.device = device ∧ c.phase = .listing := by
    intro c hc
    rw [hchecks] at hc
    rcases List.mem_append.1 hc with hold | hnew
    · exact Or.inl hold
    · rw [Option.mem_toList] at hnew
      exact Or.inr ⟨hnew, h.fresh device stage c hstage hnew⟩
  have hmem : ∀ c ∈ s.checks, c ∈ t.checks := by
    intro c hc
    rw [hchecks]
    exact List.mem_append_left _ hc
  constructor
  · intro device' what hwhat
    rw [hlatest] at hwhat
    by_cases hd : device' = device
    · subst hd
      rw [AList.lookup_insert] at hwhat
      exact Option.some.inj hwhat ▸ hshown
    · rw [AList.lookup_insert_ne hd] at hwhat
      rw [hother device' hd]
      exact h.current device' what hwhat
  · intro c hc
    rw [hlatest]
    rcases hcases c hc with hold | ⟨hcheck, hd, -⟩
    · by_cases hd : c.device = device
      · rw [← h.uncrossed device stage hstage c hold hd, hd, AList.lookup_insert]
      · rw [AList.lookup_insert_ne hd]
        exact h.latest c hold
    · rw [hd, AList.lookup_insert, Stage.said_of_check hcheck]
  · intro c hc
    rcases hcases c hc with hold | ⟨-, -, hphase⟩
    · exact h.sound c hold
    · rintro status (hst | hst)
      · rw [hphase] at hst
        cases hst
      · rw [hphase] at hst
        cases hst
  · intro device' stage' hstage'
    exact hknown device' (h.known device' stage' (hleft device' stage' hstage').2)
  · intro device' stage' hstage' c hc hd
    obtain ⟨hne, hold⟩ := hleft device' stage' hstage'
    rcases hcases c hc with hc | ⟨-, hnew, -⟩
    · exact h.uncrossed device' stage' hold c hc hd
    · exact absurd (hd.symm.trans hnew) hne
  · intro device' stage' check hstage'
    exact h.fresh device' stage' check (hleft device' stage' hstage').2
  · intro device' check hstage'
    obtain ⟨hne, hold⟩ := hleft device' _ hstage'
    rw [hother device' hne]
    exact h.spawn device' check hold
  · intro device' link hlink hbusy
    rw [hlinks] at hlink
    rcases h.busy device' link hlink hbusy with ⟨c, hc, hrest⟩ | ⟨stage', hstage', hcheck⟩
    · exact Or.inl ⟨c, hmem c hc, hrest⟩
    · by_cases hd : device' = device
      · subst hd
        -- the check that was about to start has started
        obtain rfl := Option.some.inj (hstage.symm.trans hstage')
        obtain ⟨check, hsome⟩ := Option.ne_none_iff_exists'.1 hcheck
        obtain ⟨hdevice, hphase⟩ := h.fresh device' stage check hstage hsome
        refine Or.inl ⟨check, ?_, hdevice, by rw [Check.holds, hphase]⟩
        rw [hchecks, hsome]
        exact List.mem_append_right _ List.mem_cons_self
      · refine Or.inr ⟨stage', ?_, hcheck⟩
        rw [hhandling, AList.lookup_erase_ne hd]
        exact hstage'

/-- Taking up a report that crosses no check. -/
theorem Inv.report {cfg : Settings} {report : AdbReport} {t : Links} (h : s.Inv)
    (hok : s.NotCrossed (.report device report))
    (hstep : step cfg s (.report device report) = some t) : t.Inv := by
  simp only [step] at hstep
  cases hidle : s.handling.lookup device with
  | some stage => simp [hidle] at hstep
  | none =>
      cases haddr : (s.devices.lookup device).bind Device.addr with
      | none =>
          simp only [hidle, haddr, Option.some.injEq] at hstep
          exact hstep ▸ h
      | some ip =>
          have hknown : s.devices.lookup device ≠ none := by
            intro hnone
            simp [hnone] at haddr
          have huncrossed := hok ip haddr
          simp only [hidle, haddr, Option.some.injEq] at hstep
          rw [← hstep]
          generalize said ip report = what at huncrossed
          cases what with
          | off detail =>
              exact h.next hknown huncrossed (by simp [Stage.check]) (by simp) (fun _ _ => rfl)
                (Or.inr ⟨hidle, rfl⟩)
          | on endpoint =>
              exact h.next hknown huncrossed (by simp [Stage.check]) (by simp) (fun _ _ => rfl)
                (Or.inr ⟨hidle, rfl⟩)

/-- A report that finds the link busy is about the endpoint that is checked. -/
theorem Inv.shown_of_busy {endpoint : String} {service : Option String} (h : s.Inv)
    (hstage : s.handling.lookup device = some (.link endpoint service))
    (hbusy : ((s.links.lookup device).getD .start).busy = true) :
    ∃ status, s.shown device = some status ∧ IsAbout status (.on endpoint) := by
  cases hlink : s.links.lookup device with
  | none =>
      rw [hlink] at hbusy
      cases hbusy
  | some link =>
      rw [hlink, Option.getD_some] at hbusy
      rcases h.busy device link hlink hbusy with ⟨c, hc, hd, -⟩ | ⟨stage, hstage', hcheck⟩
      · rw [show Said.on endpoint = .on c.endpoint from h.uncrossed device _ hstage c hc hd]
        exact h.current device _ (hd ▸ h.latest c hc)
      · obtain rfl := Option.some.inj (hstage.symm.trans hstage')
        exact absurd rfl hcheck

/-- **Going on with a report.** -/
theorem Inv.handle {cfg : Settings} {now : Nat} {t : Links} (h : s.Inv)
    (hstep : step cfg s (.handle device now) = some t) : t.Inv := by
  rw [step, Option.map_eq_some_iff] at hstep
  obtain ⟨stage, hstage, rfl⟩ := hstep
  have hknown := h.known device stage hstage
  have huncrossed := h.uncrossed device stage hstage
  have hset : ∀ status, (s.setStatus device status).shown device = some status :=
    fun _ => shown_setStatus_self hknown
  cases stage with
  | off detail =>
      apply h.finish hstage
      · exact setStatus_links
      · exact congrArg (AList.erase device) setStatus_handling
      · exact congrArg (AList.insert device _) setStatus_latest
      · simp [Links.handle, handled, Stage.check]
      · exact ⟨_, hset _, rfl⟩
      · exact fun _ hd => shown_setStatus_ne hd
      · exact fun _ => setStatus_known
  | link endpoint service =>
      simp only [Links.handle]
      split
      · rename_i hbusy
        refine Inv.finish (t := s.handled device (.on endpoint)) h hstage rfl rfl rfl ?_ ?_
          (fun _ _ => rfl) fun _ hk => hk
        · simp [handled, Stage.check]
        · exact h.shown_of_busy hstage hbusy
      · apply h.next hknown
        · exact huncrossed
        · rintro check ⟨⟩
          exact ⟨rfl, rfl⟩
        · simp
        · exact fun _ hd => AList.lookup_insert_ne hd
        · exact Or.inl (by simp [Stage.check])
  | shown check =>
      apply h.next hknown
      · exact huncrossed
      · rintro _ ⟨⟩
        exact h.fresh device _ check hstage rfl
      · intro check' hspawn
        obtain ⟨rfl, hshown⟩ : check = check' ∧
            (s.shown device).bind AdbStatus.endpoint = some check.endpoint := by simpa using hspawn
        exact hshown
      · exact fun _ _ => rfl
      · exact Or.inl (by simp [Stage.check])
  | spawn check show' =>
      cases show' with
      | true =>
          apply h.finish hstage
          · exact setStatus_links
          · exact congrArg (AList.erase device) setStatus_handling
          · exact congrArg (AList.insert device _) setStatus_latest
          · simp [Links.handle, handled, Stage.check]
          · exact ⟨_, hset _, rfl⟩
          · exact fun _ hd => shown_setStatus_ne hd
          · exact fun _ => setStatus_known
      | false =>
          apply h.finish hstage
          · rfl
          · rfl
          · rfl
          · simp [Links.handle, handled, Stage.check]
          · have hshown := h.spawn device check hstage
            rw [Option.bind_eq_some_iff] at hshown
            exact hshown
          · exact fun _ _ => rfl
          · exact fun _ hk => hk

end Steps

theorem start_inv (phones : List (String × Option String)) : (start phones).Inv := by
  constructor
  · intro device what hwhat
    cases hwhat
  · simp [start]
  · simp [start]
  · intro device stage hstage
    cases hstage
  · intro device stage hstage
    cases hstage
  · intro device stage check hstage
    cases hstage
  · intro device check hstage
    cases hstage
  · intro device link hlink
    cases hlink

theorem inv_of_notCrossed {cfg : Settings} :
    ∀ s, (machine cfg).ReachWhere NotCrossed s → s.Inv := by
  apply Machine.invariant
  · rintro s ⟨phones, rfl⟩
    exact start_inv phones
  · intro s a t h hok hstep
    have hstep : step cfg s a = some t := hstep
    cases a with
    | report device report => exact h.report hok hstep
    | handle device now => exact h.handle hstep
    | drive j answer => exact h.drive hstep
    | release j now => exact h.release hstep
    | write j => exact h.write hstep

/-- **What is shown is about the latest report** in every run in which no report about something
else comes while a check of the device is under way. -/
theorem current_of_notCrossed {cfg : Settings} {s : Links}
    (h : (machine cfg).ReachWhere NotCrossed s) : s.Current :=
  (inv_of_notCrossed s h).current

/-- The phone reports the same endpoint again while its check is under way, and the check ends. -/
theorem current_reportedTwice :
    ∃ s, (machine ⟨false, false⟩).run (start [("phone", some "10.0.0.2")])
        [.report "phone" ⟨true, some 41195, none⟩, .handle "phone" 0, .handle "phone" 0,
          .handle "phone" 0, .report "phone" ⟨true, some 41195, none⟩, .handle "phone" 30000,
          .drive 0 (.devices (some [("10.0.0.2:41195", "device")])), .release 0 30000, .write 0] =
          some s ∧
      s.shown "phone" = some (AdbStatus.connected "10.0.0.2:41195" "10.0.0.2:41195") ∧
        s.Current := by
  have hmeets : (machine ⟨false, false⟩).Meets NotCrossed (start [("phone", some "10.0.0.2")])
      [.report "phone" ⟨true, some 41195, none⟩, .handle "phone" 0, .handle "phone" 0,
        .handle "phone" 0, .report "phone" ⟨true, some 41195, none⟩, .handle "phone" 30000,
        .drive 0 (.devices (some [("10.0.0.2:41195", "device")])), .release 0 30000, .write 0] := by
    decide +kernel
  exact ⟨_, rfl, by decide +kernel,
    current_of_notCrossed (Machine.reachWhere_of_run (.init ⟨_, rfl⟩) hmeets rfl)⟩

/-- Wireless debugging is turned off while a check is under way: the phone is shown as connected. -/
theorem not_current_turnedOff :
    ¬ ∀ s, (machine ⟨false, false⟩).Reach s → s.Current := by
  intro h
  have hrun : ∃ s, (machine ⟨false, false⟩).run (start [("phone", some "10.0.0.2")])
      [.report "phone" ⟨true, some 41195, none⟩, .handle "phone" 0, .handle "phone" 0,
        .handle "phone" 0, .report "phone" ⟨false, none, none⟩, .handle "phone" 30000,
        .drive 0 (.devices (some [("10.0.0.2:41195", "device")])), .release 0 30000, .write 0] =
        some s ∧
      s.shown "phone" = some (AdbStatus.connected "10.0.0.2:41195" "10.0.0.2:41195") ∧
      s.latest.lookup "phone" = some (.off none) := ⟨_, rfl, by decide +kernel, by decide +kernel⟩
  obtain ⟨s, hrun, hshown, hlatest⟩ := hrun
  have hreach : (machine ⟨false, false⟩).Reach s := Machine.reach_of_run (.init ⟨_, rfl⟩) hrun
  obtain ⟨status, hstatus, habout⟩ := h s hreach "phone" _ hlatest
  rw [hshown] at hstatus
  obtain rfl := Option.some.inj hstatus
  cases habout

end Links

end DialF.Daemon.Adb
