import DialF.Share.Resolve

/-!
# Expiry

The seconds after which a share expires are a signed number in the settings and an unsigned duration
in the resolved share. They are added to a reading of the wall clock when the share starts, for
reporting, and to readings of the monotonic clock when its loops begin. A sum that does not fit
panics. By then `start_share` has taken the share that was running and has stopped it.

`startShare` is `start_share` with the clocks. `safe_iff`: a request does without a panic, and is
refused before it touches the running share or runs until its time, exactly where it is refused
before, or the operating system lets it listen and its seconds fit on top of every reading.
-/

set_option autoImplicit false

namespace DialF.Share

open DialF.Lib

/-! ## Clocks -/

/-- A reading of a clock, or a moment to come on it. -/
structure Timespec where
  secs : Int64
  nanos : Fin 1000000000
  deriving DecidableEq

namespace Timespec

/-- Adding a duration of whole seconds; a sum that does not fit panics. -/
def add (t : Timespec) (d : Nat) : Option Timespec :=
  if t.secs.toInt + d ≤ Int64.maxValue.toInt then
    some ⟨Int64.ofInt (t.secs.toInt + d), t.nanos⟩
  else none

/-- In nanoseconds. -/
def ns (t : Timespec) : Int := t.secs.toInt * 1000000000 + t.nanos

theorem add_eq_some_iff {t at' : Timespec} {d : Nat} :
    t.add d = some at' ↔
      t.secs.toInt + d ≤ Int64.maxValue.toInt ∧ at' = ⟨Int64.ofInt (t.secs.toInt + d), t.nanos⟩ := by
  rw [add, Option.ite_none_right_eq_some, Option.some.injEq]
  exact and_congr_right fun _ => eq_comm

theorem ns_of_add {t at' : Timespec} {d : Nat} (h : t.add d = some at') :
    at'.ns = t.ns + d * 1000000000 := by
  obtain ⟨hle, rfl⟩ := add_eq_some_iff.1 h
  have hmin := Int64.le_toInt t.secs
  have hsecs : (Int64.ofInt (t.secs.toInt + d)).toInt = t.secs.toInt + d := by
    apply Int64.toInt_ofInt_of_le
    · omega
    · have hmax : Int64.maxValue.toInt = 2 ^ 63 - 1 := by decide
      omega
  simp only [ns, hsecs]
  omega

end Timespec

/-! ## The loops -/

/-- What wakes a loop. -/
inductive LoopEvent where
  | accepted
  | cancelled
  | timer (now : Timespec)

/-- The accept loop, or the loop of a forward port. -/
inductive LoopState where
  | listening (deadline : Option Timespec)
  | closed
  | panicked
  deriving DecidableEq

namespace LoopState

/-- A loop begins with its deadline. -/
def enter (now : Timespec) : Option Nat → LoopState
  | none => .listening none
  | some d =>
      match now.add d with
      | some deadline => .listening (some deadline)
      | none => .panicked

/-- What one event does to the loop. -/
def step : LoopState → LoopEvent → LoopState
  | .listening deadline, .accepted => .listening deadline
  | .listening _, .cancelled => .closed
  | .listening none, .timer _ => .listening none
  | .listening (some deadline), .timer now =>
      if deadline.ns ≤ now.ns then .closed else .listening (some deadline)
  | .closed, _ => .closed
  | .panicked, _ => .panicked

/-- The events one by one. -/
def run (s : LoopState) (events : List LoopEvent) : LoopState := events.foldl step s

/-- The loop still accepts connections. -/
def isListening : LoopState → Bool
  | .listening _ => true
  | _ => false

end LoopState

/-! ## Starting -/

/-- `expires_at`: the outer `none` is a panic. -/
def expiresAt (wall : Timespec) : Option Nat → Option (Option Timespec)
  | none => some none
  | some d => (wall.add d).map some

/-- A running share. -/
structure ShareHandle where
  config : ResolvedShare
  expiresAt : Option Timespec
  /-- Its own listener and those of its forward ports. -/
  listeners : List Listener
  deriving DecidableEq

/-- `seconds_remaining`. -/
def ShareHandle.secondsRemaining (handle : ShareHandle) (now : Timespec) : Option Nat :=
  handle.expiresAt.map fun at' => ((at'.ns - now.ns) / 1000000000).toNat

/-- What comes of starting. -/
inductive Started where
  | failed (e : StartError)
  | panicked
  | running (handle : ShareHandle)
  deriving DecidableEq

/-- `start` with the wall clock. -/
def startAt (os : Os) (wall : Timespec) (config : ResolvedShare) (h : Host) : Started × Host :=
  match h.bind os config.bind .local with
  | .error e => (.failed (.share config.bind e), h)
  | .ok h' =>
      let config' := { config with bind := os.landing h.addrs config.bind }
      match expiresAt wall config.expiresAfter with
      -- unwinding drops the listener
      | none => (.panicked, h'.close h.nextFd)
      | some expires =>
          match bindForwards os config' (forwardAddrs os config') h' with
          | (.error e, h'') => (.failed e, h''.close h.nextFd)
          | (.ok (), h'') =>
              let h''' := h''.spawn h.nextFd (.acceptLoop config')
              (.running ⟨config', expires, h'''.listeners.filter fun l => h.nextFd ≤ l.fd⟩, h''')

/-- `bind_share`, with the wall clock at each of its tries. -/
def bindShareAt (config : ResolvedShare) (retry : Bool) (os : Os) :
    List Os → (Nat → Timespec) → Host → Started × Host
  | [], wall, h => startAt os (wall 0) config h
  | next :: tries, wall, h =>
      match startAt os (wall 0) config h with
      | (.failed e, h') =>
          if retry && e.root = .addrInUse then
            bindShareAt config retry next tries (fun i => wall (i + 1)) h'
          else (.failed e, h')
      | result => result

/-- `share.start`, but for the profile. -/
structure ShareRequest where
  bind : Option Str
  targets : List Str
  all : Bool
  token : Bool
  expireAfter : Option Int64
  forwardPorts : List UInt16
  deriving DecidableEq

/-- The config's settings with those of the request over them. -/
def ShareRequest.settings (req : ShareRequest) (cfg : ShareConfig) : ShareConfig where
  bind := req.bind.or cfg.bind
  upstream := cfg.upstream
  targets := if req.all then [] else if req.targets ≠ [] then req.targets else cfg.targets
  all := if req.all then true else if req.targets ≠ [] then false else cfg.all
  expireAfter := req.expireAfter.getD cfg.expireAfter
  forwardPorts :=
    if req.forwardPorts ≠ [] then req.forwardPorts.map .port else cfg.forwardPorts

/-- The share of the daemon and the listeners of its host. -/
structure ShareState where
  slot : Option ShareHandle
  host : Host

/-- What `start_share` finds outside: addresses parse, a token is minted, the devices that the adb
server lists, and what the operating system says at each try. -/
structure ShareEnv where
  parseAddr : Str → Option BindAddr
  newToken : Str
  attached : Upstream → Option (List Str)
  os : Os
  tries : List Os

/-- The wall clock at each try, and the monotonic clock as the loop of a listener begins. -/
structure Clocks where
  wall : Nat → Timespec
  loop : Nat → Timespec

/-- What comes of a request. A share that is refused leaves the running one alone; by the time that
one fails to start, the running one has stopped. -/
inductive Outcome where
  | invalid (e : ResolveError)
  | notAttached (missing attached : List Str)
  | started (s : Started)
  deriving DecidableEq

/-- The devices that are named and not attached. An adb server that does not answer is not asked. -/
def missingDevices (env : ShareEnv) (r : Resolved) : List Str × List Str :=
  match r.targets with
  | .all => ([], [])
  | .only wanted =>
      match env.attached r.upstream with
      | none => ([], [])
      | some attached => (wanted.filter (· ∉ attached), attached)

/-- Stopping a share closes its listeners. -/
def ShareHandle.stop (handle : ShareHandle) (h : Host) : Host :=
  handle.listeners.foldl (fun h l => h.close l.fd) h

/-- The host once the running share, if there is one, has let go. -/
def ShareState.stopped (st : ShareState) : Host :=
  match st.slot with
  | none => st.host
  | some old => old.stop st.host

/-- `start_share`. -/
def startShare (env : ShareEnv) (clocks : Clocks) (cfg : ShareConfig) (profile : Profile)
    (req : ShareRequest) (st : ShareState) : Outcome × ShareState :=
  match (req.settings cfg).resolve env.parseAddr env.newToken profile req.token with
  | .error e => (.invalid e, st)
  | .ok resolved =>
      let missing := missingDevices env resolved
      if missing.1 ≠ [] then (.notAttached missing.1 missing.2, st)
      else
        match bindShareAt resolved.toStart st.slot.isSome env.os env.tries clocks.wall st.stopped with
        | (.running handle, h) => (.started (.running handle), ⟨some handle, h⟩)
        | (s, h) => (.started s, ⟨none, h⟩)

/-! ## Safety -/

/-- The seconds that a loop was given. -/
def Holder.expiresAfter : Holder → Option Nat
  | .acceptLoop config => config.expiresAfter
  | .forwardLoop _ _ expiresAfter => expiresAfter
  | _ => none

/-- The loop of a listener, as it begins. -/
def Listener.loop (clocks : Clocks) (l : Listener) : LoopState :=
  .enter (clocks.loop l.fd) l.holder.expiresAfter

/-- Until it is cancelled, the loop listens as long as `e` seconds have not passed; where `e` is not
positive, for ever. -/
def LoopState.RunsUntil (s : LoopState) (since : Timespec) (e : Int64) : Prop :=
  ∀ events : List LoopEvent, (s.run events).isListening = true ↔
    .cancelled ∉ events ∧
      ∀ now, .timer now ∈ events → 0 < e → now.ns < since.ns + e.toInt * 1000000000

/-- No reading is later than this. -/
def Clocks.UpTo (clocks : Clocks) (latest : Int64) : Prop :=
  ∀ i, (clocks.wall i).secs ≤ latest ∧ (clocks.loop i).secs ≤ latest

/-- A request that has come to `outcome`, and to the state `st'` from `st`. -/
structure SafeRun (clocks : Clocks) (e : Int64) (st : ShareState) (outcome : Outcome)
    (st' : ShareState) : Prop where
  started : outcome ≠ .started .panicked
  loops : ∀ l ∈ st'.host.listeners, st.host.nextFd ≤ l.fd → l.loop clocks ≠ .panicked
  /-- It was refused before, or runs until its time. -/
  kept : (∀ s, outcome ≠ .started s) ∧ st' = st ∨
    ∃ handle, outcome = .started (.running handle) ∧ st'.slot = some handle ∧
      (∃ i, ∀ now, handle.secondsRemaining now =
        if 0 < e then
          some (((clocks.wall i).ns + e.toInt * 1000000000 - now.ns) / 1000000000).toNat
        else none) ∧
      (∃ l ∈ handle.listeners, l.holder = .acceptLoop handle.config) ∧
      ∀ l ∈ handle.listeners, l ∈ st'.host.listeners ∧
        (l.loop clocks).RunsUntil (clocks.loop l.fd) e

section Safe

variable (env : ShareEnv) (cfg : ShareConfig) (profile : Profile) (req : ShareRequest)
  (st : ShareState) (latest : Int64)

/-- The request is safe, whatever the clocks show up to a moment. -/
def Safe : Prop :=
  ∀ clocks : Clocks, clocks.UpTo latest →
    SafeRun clocks (req.settings cfg).expireAfter st
      (startShare env clocks cfg profile req st).1 (startShare env clocks cfg profile req st).2

/-- The request resolves to `r`, and the devices that it names are attached. -/
def LetThrough (r : Resolved) : Prop :=
  (req.settings cfg).resolve env.parseAddr env.newToken profile req.token = .ok r ∧
    (missingDevices env r).1 = []

/-- The operating system lets the share listen. -/
def CanListen (r : Resolved) : Prop :=
  ∃ config, (bindShare r.toStart st.slot.isSome env.os env.tries st.stopped).1 = .ok config

/-- The seconds fit on top of every reading. -/
def SecondsFit (e : Int64) : Prop :=
  e ≤ 0 ∨ latest.toInt + e.toInt ≤ Int64.maxValue.toInt

end Safe

/-! ## Loops -/

section Loops

variable {deadline : Timespec}

@[simp]
theorem run_closed (events : List LoopEvent) : LoopState.closed.run events = .closed := by
  induction events with
  | nil => rfl
  | cons ev events ih => exact ih

theorem run_listening_none (events : List LoopEvent) :
    ((LoopState.listening none).run events).isListening = true ↔ .cancelled ∉ events := by
  induction events with
  | nil => simp [LoopState.run, LoopState.isListening]
  | cons ev events ih =>
      cases ev with
      | accepted =>
          rw [List.mem_cons, not_or]
          exact ih.trans ⟨fun h => ⟨by simp, h⟩, And.right⟩
      | cancelled =>
          show (LoopState.closed.run events).isListening = true ↔ _
          simp [LoopState.isListening]
      | timer now =>
          rw [List.mem_cons, not_or]
          exact ih.trans ⟨fun h => ⟨by simp, h⟩, And.right⟩

theorem run_listening_some (events : List LoopEvent) :
    ((LoopState.listening (some deadline)).run events).isListening = true ↔
      .cancelled ∉ events ∧ ∀ now, .timer now ∈ events → now.ns < deadline.ns := by
  induction events with
  | nil => simp [LoopState.run, LoopState.isListening]
  | cons ev events ih =>
      cases ev with
      | accepted =>
          simp only [List.mem_cons, reduceCtorEq, false_or]
          exact ih
      | cancelled =>
          show (LoopState.closed.run events).isListening = true ↔ _
          simp [LoopState.isListening]
      | timer now =>
          show ((LoopState.step (.listening (some deadline)) (.timer now)).run events).isListening =
            true ↔ _
          simp only [List.mem_cons, reduceCtorEq, false_or, LoopEvent.timer.injEq,
            forall_eq_or_imp, LoopState.step]
          by_cases hpast : deadline.ns ≤ now.ns
          · rw [if_pos hpast, run_closed]
            constructor
            · intro h
              cases h
            · rintro ⟨-, hnow, -⟩
              omega
          · rw [if_neg hpast, ih]
            constructor
            · rintro ⟨hcancel, htimer⟩
              exact ⟨hcancel, by omega, htimer⟩
            · rintro ⟨hcancel, -, htimer⟩
              exact ⟨hcancel, htimer⟩

/-- The seconds of a resolved share. -/
def durationOf (e : Int64) : Option Nat := if 0 < e then some e.toInt.toNat else none

theorem durationOf_cases (e : Int64) :
    e ≤ 0 ∧ durationOf e = none ∨
      0 < e ∧ durationOf e = some e.toInt.toNat ∧ (e.toInt.toNat : Int) = e.toInt := by
  rw [durationOf]
  by_cases hpos : 0 < e
  · refine Or.inr ⟨hpos, if_pos hpos, ?_⟩
    have h := Int64.lt_iff_toInt_lt.1 hpos
    simp only [Int64.toInt_zero] at h
    omega
  · exact Or.inl ⟨Int64.not_lt.1 hpos, if_neg hpos⟩

variable {since : Timespec} {e latest : Int64}

/-- Seconds that fit on a bound of a reading fit on the reading. -/
theorem SecondsFit.add {t : Timespec} (h : SecondsFit latest e) (hpos : 0 < e)
    (ht : t.secs ≤ latest) (hcast : (e.toInt.toNat : Int) = e.toInt) :
    ∃ at', t.add e.toInt.toNat = some at' ∧ at'.ns = t.ns + e.toInt * 1000000000 := by
  have hle := Int64.le_iff_toInt_le.1 ht
  have hsum : t.secs.toInt + (e.toInt.toNat : Int) ≤ Int64.maxValue.toInt := by
    rcases h with h | h
    · exact absurd hpos (Int64.not_lt.2 h)
    · omega
  have hadd := Timespec.add_eq_some_iff.2 ⟨hsum, rfl⟩
  refine ⟨_, hadd, ?_⟩
  rw [Timespec.ns_of_add hadd, hcast]

/-- **A loop whose seconds fit** begins without a panic and runs until they have passed. -/
theorem enter_runsUntil (h : SecondsFit latest e) (hsince : since.secs ≤ latest) :
    LoopState.enter since (durationOf e) ≠ .panicked ∧
      (LoopState.enter since (durationOf e)).RunsUntil since e := by
  rcases durationOf_cases e with ⟨hneg, hnone⟩ | ⟨hpos, hsome, hcast⟩
  · rw [hnone]
    refine ⟨by simp [LoopState.enter], fun events => ?_⟩
    rw [LoopState.enter, run_listening_none]
    refine ⟨fun hcancel => ⟨hcancel, fun _ _ hpos => absurd hpos (Int64.not_lt.2 hneg)⟩, And.left⟩
  · obtain ⟨deadline, hadd, hns⟩ := h.add hpos hsince hcast
    rw [hsome, LoopState.enter, hadd]
    refine ⟨by simp, fun events => ?_⟩
    simp only [run_listening_some, hns, hpos, true_implies]

end Loops

/-! ## Listeners -/

section Listeners

variable {os : Os} {config : ResolvedShare} {h h' : Host} {wall : Timespec}

/-- The listeners that a share adds to those of `h` have loops with its seconds. -/
def LoopsOf (config : ResolvedShare) (h h' : Host) : Prop :=
  ∀ l ∈ h'.listeners, l ∈ h.listeners ∨ l.holder.expiresAfter = config.expiresAfter

theorem bindForwards_loops (os : Os) (config : ResolvedShare) (addrs : List SocketAddr) (h : Host) :
    LoopsOf config h (bindForwards os config addrs h).2 ∧
      (∀ l ∈ h.listeners, l ∈ (bindForwards os config addrs h).2.listeners) ∧
        h.nextFd ≤ (bindForwards os config addrs h).2.nextFd := by
  induction addrs generalizing h with
  | nil => exact ⟨fun _ hl => Or.inl hl, fun _ hl => hl, Nat.le_refl _⟩
  | cons addr rest ih =>
      rw [bindForwards]
      cases hf : os.fault h.addrs addr with
      | some e =>
          rw [bind_of_fault hf]
          exact ⟨fun _ hl => Or.inl hl, fun _ hl => hl, Nat.le_refl _⟩
      | none =>
          rw [bind_of_no_fault hf]
          obtain ⟨hnew, hold, hfd⟩ := ih ((h.open (os.landing h.addrs addr) .local).spawn h.nextFd
            (.forwardLoop addr.port config.requireAuth config.expiresAfter))
          rw [LoopsOf, spawn_open_listeners] at hnew
          rw [spawn_open_listeners] at hold
          refine ⟨?_, fun l hl => hold l (List.mem_append_left _ hl),
            (Nat.le_succ h.nextFd).trans hfd⟩
          intro l hl
          rcases hnew l hl with hmem | hloop
          · rcases List.mem_append.1 hmem with hmem | hmem
            · exact Or.inl hmem
            · rw [List.mem_singleton.1 hmem]
              exact Or.inr rfl
          · exact Or.inr hloop

theorem mem_spawn {fd : Nat} {holder : Holder} {l : Listener}
    (hl : l ∈ (h.spawn fd holder).listeners) :
    l ∈ h.listeners ∧ l.fd ≠ fd ∨ l.fd = fd ∧ l.holder = holder := by
  obtain ⟨l', hl', rfl⟩ := List.mem_map.1 hl
  by_cases hfd : l'.fd = fd
  · simp only [if_pos hfd]
    exact Or.inr ⟨hfd, trivial⟩
  · simp only [if_neg hfd]
    exact Or.inl ⟨hl', hfd⟩

/-- **The listeners of a start**: each that it adds has a loop with its seconds, and a share that
starts has its accept loop among them. -/
theorem start_loops (os : Os) (config : ResolvedShare) (h : Host) :
    LoopsOf config h (start os config h).2 ∧ h.nextFd ≤ (start os config h).2.nextFd ∧
      ∀ config', (start os config h).1 = .ok config' →
        ∃ l ∈ (start os config h).2.listeners, h.nextFd ≤ l.fd ∧ l.holder = .acceptLoop config' := by
  rw [start]
  cases hf : os.fault h.addrs config.bind with
  | some e =>
      rw [bind_of_fault hf]
      exact ⟨fun _ hl => Or.inl hl, Nat.le_refl _, by simp⟩
  | none =>
      rw [bind_of_no_fault hf]
      obtain ⟨hnew, hold, hfd⟩ := bindForwards_loops os
        { config with bind := os.landing h.addrs config.bind }
        (forwardAddrs os { config with bind := os.landing h.addrs config.bind })
        (h.open (os.landing h.addrs config.bind) .local)
      -- what is not from before has a loop, but for the listener of the share itself
      have hloop : ∀ l ∈ (bindForwards os { config with bind := os.landing h.addrs config.bind }
          (forwardAddrs os { config with bind := os.landing h.addrs config.bind })
          (h.open (os.landing h.addrs config.bind) .local)).2.listeners, l.fd ≠ h.nextFd →
          l ∈ h.listeners ∨ l.holder.expiresAfter = config.expiresAfter := by
        intro l hl hne
        rcases hnew l hl with hmem | hloop
        · rcases List.mem_append.1 hmem with hmem | hmem
          · exact Or.inl hmem
          · rw [List.mem_singleton.1 hmem] at hne
            exact absurd rfl hne
        · exact Or.inr hloop
      have hown := hold ⟨h.nextFd, os.landing h.addrs config.bind, .local⟩
        (List.mem_append_right _ List.mem_cons_self)
      dsimp only
      generalize bindForwards os _ _ _ = result at hloop hown hfd
      obtain ⟨result, h'⟩ := result
      have hfd' : h.nextFd ≤ h'.nextFd := (Nat.le_succ h.nextFd).trans hfd
      cases result with
      | error e =>
          refine ⟨?_, hfd', by simp⟩
          intro l hl
          obtain ⟨hmem, hne⟩ := List.mem_filter.1 hl
          exact hloop l hmem (of_decide_eq_true hne)
      | ok u =>
          refine ⟨?_, hfd', ?_⟩
          · intro l hl
            rcases mem_spawn hl with ⟨hmem, hne⟩ | ⟨-, hholder⟩
            · exact hloop l hmem hne
            · rw [hholder]
              exact Or.inr rfl
          · rintro config' ⟨⟩
            refine ⟨_, List.mem_map.2 ⟨_, hown, rfl⟩, ?_, ?_⟩
            · simp
            · simp

/-- Where the seconds do not fit on the reading, nothing starts. -/
theorem startAt_of_panic (os : Os) (h : Host)
    (hwall : expiresAt wall config.expiresAfter = none)
    (handle : ShareHandle) : (startAt os wall config h).1 ≠ .running handle := by
  rw [startAt]
  cases hf : os.fault h.addrs config.bind with
  | some e => simp [bind_of_fault hf]
  | none => simp [bind_of_no_fault hf, hwall]

/-- Where they do, `start` does as without the clock. -/
theorem startAt_eq {expires : Option Timespec}
    (hwall : expiresAt wall config.expiresAfter = some expires) :
    startAt os wall config h =
      match start os config h with
      | (.error e, h') => (.failed e, h')
      | (.ok config', h') =>
          (.running ⟨config', expires, h'.listeners.filter fun l => h.nextFd ≤ l.fd⟩, h') := by
  rw [startAt, start]
  cases hf : os.fault h.addrs config.bind with
  | some e => rw [bind_of_fault hf]
  | none =>
      rw [bind_of_no_fault hf]
      simp only [hwall]
      generalize bindForwards os _ _ _ = result
      obtain ⟨_ | _, h'⟩ := result <;> rfl

/-- What a handle says of the host it was made on. -/
structure ShareHandle.IsOf (handle : ShareHandle) (config : ResolvedShare) (h' : Host) : Prop where
  accepts : ∃ l ∈ handle.listeners, l.holder = .acceptLoop handle.config
  mem : ∀ l ∈ handle.listeners, l ∈ h'.listeners
  loops : ∀ l ∈ handle.listeners, l.holder.expiresAfter = config.expiresAfter

theorem isOf_of_start {config' : ResolvedShare} {expires : Option Timespec}
    (hstart : start os config h = (.ok config', h')) :
    ShareHandle.IsOf ⟨config', expires, h'.listeners.filter fun l => h.nextFd ≤ l.fd⟩ config h' := by
  obtain ⟨hloops, -, haccept⟩ := start_loops os config h
  rw [hstart] at hloops haccept
  obtain ⟨l, hl, hfd, hholder⟩ := haccept config' rfl
  refine ⟨⟨l, List.mem_filter.2 ⟨hl, decide_eq_true hfd⟩, hholder⟩, ?_, ?_⟩
  · exact fun l hl => (List.mem_filter.1 hl).1
  · intro l hl
    obtain ⟨hmem, hfd⟩ := List.mem_filter.1 hl
    rcases hloops l hmem with hold | hloop
    · have hlt := h.fresh l hold
      have hle := of_decide_eq_true hfd
      omega
    · exact hloop

/-- **Trying to start**, where the seconds fit on every reading: all is as without the clock, and
the share that starts has its time from one of the readings. -/
theorem bindShareAt_spec (config : ResolvedShare) (retry : Bool) (os : Os) (tries : List Os)
    (wall : Nat → Timespec) (h : Host)
    (hfit : ∀ i, expiresAt (wall i) config.expiresAfter ≠ none) :
    (∃ e h', bindShare config retry os tries h = (.error e, h') ∧
        bindShareAt config retry os tries wall h = (.failed e, h')) ∨
      ∃ handle h' i, bindShare config retry os tries h = (.ok handle.config, h') ∧
        bindShareAt config retry os tries wall h = (.running handle, h') ∧
        expiresAt (wall i) config.expiresAfter = some handle.expiresAt ∧
        handle.IsOf config h' := by
  obtain ⟨expires, hwall⟩ := Option.ne_none_iff_exists'.1 (hfit 0)
  induction tries generalizing os wall h expires with
  | nil =>
      rw [bindShare, bindShareAt, startAt_eq hwall]
      rcases hstart : start os config h with ⟨result, h'⟩
      cases result with
      | error e => exact Or.inl ⟨e, h', rfl, rfl⟩
      | ok config' => exact Or.inr ⟨_, h', 0, rfl, rfl, hwall, isOf_of_start hstart⟩
  | cons next tries ih =>
      rw [bindShare, bindShareAt, startAt_eq hwall]
      rcases hstart : start os config h with ⟨result, h'⟩
      cases result with
      | error e =>
          by_cases hagain : (retry && e.root = .addrInUse) = true
          · obtain ⟨expires', hwall'⟩ := Option.ne_none_iff_exists'.1 (hfit 1)
            simp only [if_pos hagain]
            rcases ih next (fun i => wall (i + 1)) h' (fun i => hfit (i + 1)) expires' hwall' with
              hfail | ⟨handle, h'', i, hrun⟩
            · exact Or.inl hfail
            · exact Or.inr ⟨handle, h'', i + 1, hrun⟩
          · simp only [if_neg hagain]
            exact Or.inl ⟨e, h', rfl, rfl⟩
      | ok config' => exact Or.inr ⟨_, h', 0, rfl, rfl, hwall, isOf_of_start hstart⟩

/-- Where they fit on no reading, nothing starts. -/
theorem bindShareAt_of_panic {retry : Bool} {tries : List Os} {clock : Nat → Timespec}
    (hpanic : ∀ i, expiresAt (clock i) config.expiresAfter = none) (handle : ShareHandle) :
    (bindShareAt config retry os tries clock h).1 ≠ .running handle := by
  induction tries generalizing os clock h with
  | nil => exact startAt_of_panic os h (hpanic 0) handle
  | cons next tries ih =>
      rw [bindShareAt]
      have hstart := fun handle => startAt_of_panic os h (hpanic 0) handle
      rcases hresult : startAt os (clock 0) config h with ⟨result, h'⟩
      cases result with
      | failed e =>
          by_cases hagain : (retry && e.root = .addrInUse) = true
          · simp only [if_pos hagain]
            exact ih fun i => hpanic (i + 1)
          · simp [hagain]
      | panicked => simp
      | running handle' => exact absurd (by rw [hresult]) (hstart handle')

/-- Every listener that the tries add has a loop with the share's seconds. -/
theorem bindShare_loops (config : ResolvedShare) (retry : Bool) (os : Os) (tries : List Os)
    (h : Host) : LoopsOf config h (bindShare config retry os tries h).2 := by
  induction tries generalizing os h with
  | nil => exact (start_loops os config h).1
  | cons next tries ih =>
      rw [bindShare]
      have hloops := (start_loops os config h).1
      rcases hstart : start os config h with ⟨result, h'⟩
      rw [hstart] at hloops
      cases result with
      | error e =>
          by_cases hagain : (retry && e.root = .addrInUse) = true
          · simp only [if_pos hagain]
            intro l hl
            rcases ih next h' l hl with hmem | hloop
            · exact hloops l hmem
            · exact Or.inr hloop
          · simpa only [if_neg hagain] using hloops
      | ok config' => exact hloops

end Listeners

/-! ## Requests -/

theorem stop_host (handle : ShareHandle) (h : Host) :
    (handle.stop h).nextFd = h.nextFd ∧ ∀ l ∈ (handle.stop h).listeners, l ∈ h.listeners := by
  rw [ShareHandle.stop]
  generalize handle.listeners = listeners
  induction listeners generalizing h with
  | nil => exact ⟨rfl, fun _ hl => hl⟩
  | cons l listeners ih =>
      obtain ⟨hfd, hmem⟩ := ih (h.close l.fd)
      exact ⟨hfd, fun l' hl' => (List.mem_filter.1 (hmem l' hl')).1⟩

theorem stopped_nextFd (st : ShareState) : st.stopped.nextFd = st.host.nextFd := by
  rw [ShareState.stopped]
  cases st.slot with
  | none => rfl
  | some old => exact (stop_host old st.host).1

section Requests

variable {env : ShareEnv} {cfg : ShareConfig} {profile : Profile} {req : ShareRequest}
  {st : ShareState} {latest : Int64} {clocks : Clocks} {r : Resolved}

theorem LetThrough.expiresAfter (h : LetThrough env cfg profile req r) :
    r.toStart.expiresAfter = durationOf (req.settings cfg).expireAfter := by
  have hresolve := h.1
  rw [ShareConfig.resolve] at hresolve
  cases hbind : env.parseAddr ((req.settings cfg).bindStr profile) with
  | none => simp [hbind] at hresolve
  | some bind =>
      cases hup : (req.settings cfg).resolveUpstream profile with
      | error e => simp [hbind, hup] at hresolve
      | ok upstream =>
          cases htargets : (req.settings cfg).resolveTargets with
          | error e => simp [hbind, hup, htargets] at hresolve
          | ok targets =>
              cases hports : (req.settings cfg).resolvePorts bind with
              | error e => simp [hbind, hup, htargets, hports] at hresolve
              | ok ports =>
                  simp only [hbind, hup, htargets, hports, Except.ok.injEq] at hresolve
                  rw [← hresolve]
                  rfl

/-- A request that is let through comes to what the tries come to. -/
theorem startShare_of_letThrough (h : LetThrough env cfg profile req r) :
    startShare env clocks cfg profile req st =
      match bindShareAt r.toStart st.slot.isSome env.os env.tries clocks.wall st.stopped with
      | (.running handle, h) => (.started (.running handle), ⟨some handle, h⟩)
      | (s, h) => (.started s, ⟨none, h⟩) := by
  rw [startShare, h.1]
  simp only [h.2, ne_eq, not_true_eq_false, if_false]

/-- One that is not leaves everything as it was. -/
theorem startShare_of_refused (clocks : Clocks) (st : ShareState)
    (h : ∀ r, ¬ LetThrough env cfg profile req r) :
    (∀ s, (startShare env clocks cfg profile req st).1 ≠ .started s) ∧
      (startShare env clocks cfg profile req st).2 = st := by
  rw [startShare]
  cases hresolve : (req.settings cfg).resolve env.parseAddr env.newToken profile req.token with
  | error e => exact ⟨by simp, rfl⟩
  | ok resolved =>
      have hmissing : (missingDevices env resolved).1 ≠ [] := fun hnil => h resolved ⟨hresolve, hnil⟩
      simp only [if_pos hmissing]
      exact ⟨by simp, trivial⟩

/-- Seconds that fit on the latest reading fit on all. -/
theorem SecondsFit.expiresAt_ne {e : Int64} (h : SecondsFit latest e) {t : Timespec}
    (ht : t.secs ≤ latest) : expiresAt t (durationOf e) ≠ none := by
  rcases durationOf_cases e with ⟨-, hnone⟩ | ⟨hpos, hsome, hcast⟩
  · simp [hnone, expiresAt]
  · obtain ⟨at', hadd, -⟩ := h.add hpos ht hcast
    rw [hsome, expiresAt, hadd]
    simp

theorem SecondsFit.of_expiresAt_ne {e : Int64} {n : Fin 1000000000}
    (h : expiresAt ⟨latest, n⟩ (durationOf e) ≠ none) : SecondsFit latest e := by
  rcases durationOf_cases e with ⟨hneg, -⟩ | ⟨-, hsome, hcast⟩
  · exact Or.inl hneg
  · right
    rw [hsome, expiresAt, ne_eq, Option.map_eq_none_iff, ← ne_eq, Option.ne_none_iff_exists'] at h
    obtain ⟨at', hadd⟩ := h
    have hle := (Timespec.add_eq_some_iff.1 hadd).1
    rwa [hcast] at hle

theorem secondsRemaining_eq {e : Int64} (h : SecondsFit latest e) {t : Timespec} (ht : t.secs ≤ latest)
    {handle : ShareHandle} (hexpires : expiresAt t (durationOf e) = some handle.expiresAt)
    (now : Timespec) :
    handle.secondsRemaining now =
      if 0 < e then some ((t.ns + e.toInt * 1000000000 - now.ns) / 1000000000).toNat else none := by
  rw [ShareHandle.secondsRemaining]
  rcases durationOf_cases e with ⟨hneg, hnone⟩ | ⟨hpos, hsome, hcast⟩
  · rw [hnone, expiresAt] at hexpires
    rw [← Option.some.inj hexpires, if_neg (Int64.not_lt.2 hneg), Option.map_none]
  · obtain ⟨at', hadd, hns⟩ := h.add hpos ht hcast
    rw [hsome, expiresAt, hadd] at hexpires
    rw [← Option.some.inj hexpires, if_pos hpos, Option.map_some, hns]

/-- **What is refused is safe**: nothing has been touched. -/
theorem safeRun_of_refused (h : ∀ r, ¬ LetThrough env cfg profile req r) :
    SafeRun clocks (req.settings cfg).expireAfter st
      (startShare env clocks cfg profile req st).1
      (startShare env clocks cfg profile req st).2 := by
  have hrefused := startShare_of_refused clocks st h
  refine ⟨hrefused.1 _, ?_, Or.inl hrefused⟩
  rw [hrefused.2]
  intro l hl hfd
  have hlt := st.host.fresh l hl
  omega

/-- **What listens is safe** where its seconds fit. -/
theorem safeRun_of_canListen (h : LetThrough env cfg profile req r) (hlisten : CanListen env st r)
    (hfits : SecondsFit latest (req.settings cfg).expireAfter) (hclocks : clocks.UpTo latest) :
    SafeRun clocks (req.settings cfg).expireAfter st
      (startShare env clocks cfg profile req st).1
      (startShare env clocks cfg profile req st).2 := by
  have hfit : ∀ i, expiresAt (clocks.wall i) r.toStart.expiresAfter ≠ none := by
    intro i
    rw [h.expiresAfter]
    exact hfits.expiresAt_ne (hclocks i).1
  have hrun : ∀ l : Listener, l.holder.expiresAfter = r.toStart.expiresAfter →
      l.loop clocks ≠ .panicked ∧
        (l.loop clocks).RunsUntil (clocks.loop l.fd) (req.settings cfg).expireAfter := by
    intro l hl
    rw [Listener.loop, hl, h.expiresAfter]
    exact enter_runsUntil hfits (hclocks l.fd).2
  have hadded := bindShare_loops r.toStart st.slot.isSome env.os env.tries st.stopped
  rcases bindShareAt_spec r.toStart st.slot.isSome env.os env.tries clocks.wall st.stopped hfit with
    ⟨e, h', hbind, -⟩ | ⟨handle, h', i, hbind, hbindAt, hexpires, hof⟩
  · obtain ⟨config, hok⟩ := hlisten
    rw [hbind] at hok
    cases hok
  · rw [startShare_of_letThrough h, hbindAt]
    rw [hbind] at hadded
    rw [h.expiresAfter] at hexpires
    refine ⟨by simp, ?_, Or.inr ⟨handle, rfl, rfl, ⟨i, ?_⟩, hof.accepts, ?_⟩⟩
    · intro l hl hfd
      rcases hadded l hl with hold | hloop
      · have hlt := st.stopped.fresh l hold
        rw [stopped_nextFd] at hlt
        omega
      · exact (hrun l hloop).1
    · exact secondsRemaining_eq hfits (hclocks i).1 hexpires
    · exact fun l hl => ⟨hof.mem l hl, (hrun l (hof.loops l hl)).2⟩

/-- **Expiry**: a request is safe, whatever the clocks show up to `latest`, exactly where it is not
let through, or the operating system lets the share listen and its seconds fit. -/
theorem safe_iff (env : ShareEnv) (cfg : ShareConfig) (profile : Profile) (req : ShareRequest)
    (st : ShareState) (latest : Int64) :
    Safe env cfg profile req st latest ↔
      ∀ r, LetThrough env cfg profile req r →
        CanListen env st r ∧ SecondsFit latest (req.settings cfg).expireAfter := by
  constructor
  · intro hsafe r h
    -- the latest that the clocks may show
    obtain ⟨-, -, hkept⟩ := hsafe ⟨fun _ => ⟨latest, 0⟩, fun _ => ⟨latest, 0⟩⟩
      fun _ => ⟨Int64.le_refl latest, Int64.le_refl latest⟩
    rw [startShare_of_letThrough h] at hkept
    obtain ⟨handle, hrunning⟩ : ∃ handle, (bindShareAt r.toStart st.slot.isSome env.os env.tries
        (fun _ => ⟨latest, 0⟩) st.stopped).1 = .running handle := by
      rcases hbind : bindShareAt r.toStart st.slot.isSome env.os env.tries
        (fun _ => ⟨latest, 0⟩) st.stopped with ⟨result, h'⟩
      rw [hbind] at hkept
      cases result with
      | failed e => simp at hkept
      | panicked => simp at hkept
      | running handle => exact ⟨handle, rfl⟩
    have hwall : expiresAt ⟨latest, 0⟩ r.toStart.expiresAfter ≠ none :=
      fun hpanic => bindShareAt_of_panic (fun _ => hpanic) handle hrunning
    refine ⟨?_, ?_⟩
    · rcases bindShareAt_spec r.toStart st.slot.isSome env.os env.tries
        (fun _ => ⟨latest, 0⟩) st.stopped (fun _ => hwall) with
        ⟨e, h', -, hfailed⟩ | ⟨handle', h', -, hok, -⟩
      · rw [hfailed] at hrunning
        cases hrunning
      · exact ⟨handle'.config, by rw [hok]⟩
    · rw [h.expiresAfter] at hwall
      exact .of_expiresAt_ne hwall
  · intro hcond clocks hclocks
    by_cases hlet : ∃ r, LetThrough env cfg profile req r
    · obtain ⟨r, h⟩ := hlet
      obtain ⟨hlisten, hfits⟩ := hcond r h
      exact safeRun_of_canListen h hlisten hfits hclocks
    · exact safeRun_of_refused (not_exists.1 hlet)

end Requests

/-! ## The latest second -/

/-- A daemon that shares on a port, and its listener. -/
def sharing : ShareState where
  slot := some ⟨⟨⟨1, 5939⟩, none, none, []⟩, none,
    [⟨0, ⟨1, 5939⟩, .acceptLoop ⟨⟨1, 5939⟩, none, none, []⟩⟩]⟩
  host := {
    listeners := [⟨0, ⟨1, 5939⟩, .acceptLoop ⟨⟨1, 5939⟩, none, none, []⟩⟩]
    nextFd := 1
    fresh := by simp }

/-- Surroundings in which nothing goes wrong by itself. -/
def plainEnv : ShareEnv where
  parseAddr _ := some ⟨.v4 0 0 0 1, 5939⟩
  newToken := []
  attached _ := none
  os := plainOs
  tries := []

/-- With the greatest number of seconds, sharing again stops the share that runs and panics. -/
theorem not_safe_greatestExpiry :
    ¬ Safe plainEnv ⟨none, none, [], true, 3600, []⟩ .adb
      ⟨none, [], false, false, some Int64.maxValue, []⟩ sharing 1700000000 := by
  intro hsafe
  have hstarted := (hsafe ⟨fun _ => ⟨1700000000, 0⟩, fun _ => ⟨60, 0⟩⟩
    fun _ => ⟨show (1700000000 : Int64) ≤ 1700000000 by decide,
      show (60 : Int64) ≤ 1700000000 by decide⟩).started
  exact hstarted (by decide +kernel)

end DialF.Share
