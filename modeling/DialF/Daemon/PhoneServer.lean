import DialF.Daemon.PhoneJob

/-!
# The phone server

One handler serves one WebSocket. It greets the phone, compares the app's `instance_id` with the one
last seen, aborts the running job if the app was relaunched, reads the call it carries over,
registers with the hub, writes the device's record, serves frames, and tears down. Each of these is
a critical section of its own, and the handlers of several sockets and the reaper of stale devices
interleave between them: `Handler.advance` is one such section.

`abortedBy` and `fired` record, for the theorems, whose relaunch aborted a job and which commands
were sent without awaiting an ack.
-/

set_option autoImplicit false

namespace DialF.Daemon

/-- One connected phone: its generation, and the commands that await an ack. -/
structure WsConn where
  gen : Nat
  acks : List String
  deriving DecidableEq

/-- The phones' current connections. -/
structure Hub where
  conns : AList fun _ : String => WsConn
  connGen : Nat

namespace Hub

/-- An empty hub; generations start at 1. -/
def new : Hub := ⟨∅, 1⟩

/-- The connection that is registered for a device. -/
def conn (hub : Hub) (deviceId : String) : Option WsConn := hub.conns.lookup deviceId

/-- Register a connection. Answers its generation, and the connection that it supersedes, whose acks
fail and whose reader is told to close. -/
def register (hub : Hub) (deviceId : String) : Hub × Nat × Option WsConn :=
  (⟨hub.conns.insert deviceId ⟨hub.connGen, []⟩, hub.connGen + 1⟩, hub.connGen,
    hub.conn deviceId)

/-- Remove a connection, unless a newer one has taken over. -/
def unregister (hub : Hub) (deviceId : String) (gen : Nat) : Hub × Bool :=
  match hub.conn deviceId with
  | some conn =>
      if conn.gen = gen then ({ hub with conns := hub.conns.erase deviceId }, true)
      else (hub, false)
  | none => (hub, false)

/-- Drop a device's connection, whichever it is. -/
def dropDevice (hub : Hub) (deviceId : String) : Hub :=
  { hub with conns := hub.conns.erase deviceId }

variable {hub : Hub} {id other : String}

@[simp]
theorem conn_register : (hub.register id).1.conn id = some ⟨hub.connGen, []⟩ :=
  AList.lookup_insert hub.conns

theorem conn_register_of_ne (h : id ≠ other) : (hub.register other).1.conn id = hub.conn id :=
  AList.lookup_insert_ne h

@[simp]
theorem conn_dropDevice : (hub.dropDevice id).conn id = none :=
  AList.lookup_erase id hub.conns

theorem conn_dropDevice_of_ne (h : id ≠ other) : (hub.dropDevice other).conn id = hub.conn id :=
  AList.lookup_erase_ne h

/-- What `unregister` leaves: nothing where the connection is still the device's, and the hub as it
was where a newer one has taken over. -/
theorem unregister_cases (hub : Hub) (id : String) (gen : Nat) :
    ((hub.unregister id gen).2 = true ∧ (hub.unregister id gen).1 = hub.dropDevice id) ∨
      ((hub.unregister id gen).2 = false ∧ (hub.unregister id gen).1 = hub) := by
  unfold unregister
  split
  · split
    · exact Or.inl ⟨rfl, rfl⟩
    · exact Or.inr ⟨rfl, rfl⟩
  · exact Or.inr ⟨rfl, rfl⟩

end Hub

/-- The record that a new connection writes. -/
def Hello.record (hello : Hello) (nowMs : Int) (prior : Option CallInfo) : DeviceInfo :=
  ⟨hello.deviceId, hello.name, some hello.peer, nowMs, prior⟩

/-- A changed `instance_id` means that the app was relaunched; a first sighting does not. -/
def isRelaunch (new : String) (prior : Option String) : Bool :=
  match prior with
  | some p => decide (p ≠ new)
  | none => false

/-- What the handlers and the jobs share. -/
structure DaemonState where
  registry : Registry
  hub : Hub
  instances : AList fun _ : String => String
  cardBusy : Bool
  jobAbort : Bool
  abortedBy : List String
  fired : List (String × Action)

/-- How far a handler has come. -/
inductive HandlerPhase where
  | greeted
  | compared (relaunched : Bool)
  | judged (relaunched aborting : Bool)
  | looked (aborting : Bool) (prior : Option CallInfo)
  | registered (aborting : Bool) (prior : Option CallInfo) (gen : Nat)
  | recorded (aborting : Bool) (gen : Nat)
  | serving (gen : Nat)
  | stopped (gen : Nat)
  | removing
  | closed
  deriving DecidableEq

/-- The app has been found relaunched, as long as the handler remembers it. -/
def HandlerPhase.relaunched : HandlerPhase → Bool
  | .compared relaunched => relaunched
  | .judged relaunched _ => relaunched
  | _ => false

/-- A handler of a phone's connection, with the hello that it was opened by. -/
structure Handler where
  hello : Hello
  phase : HandlerPhase
  deriving DecidableEq

namespace DaemonState

/-- A daemon that has just started. -/
def start : DaemonState := ⟨.new, .new, ∅, false, false, [], []⟩

/-- `Hub::fire`: nothing is sent when the device is not connected. -/
def fire (d : DaemonState) (deviceId : String) (action : Action) : DaemonState :=
  match d.hub.conn deviceId with
  | some _ => { d with fired := d.fired ++ [(deviceId, action)] }
  | none => d

@[simp]
theorem fire_registry (d : DaemonState) (deviceId : String) (action : Action) :
    (d.fire deviceId action).registry = d.registry := by
  unfold fire
  split <;> rfl

@[simp]
theorem fire_hub (d : DaemonState) (deviceId : String) (action : Action) :
    (d.fire deviceId action).hub = d.hub := by
  unfold fire
  split <;> rfl

@[simp]
theorem fire_instances (d : DaemonState) (deviceId : String) (action : Action) :
    (d.fire deviceId action).instances = d.instances := by
  unfold fire
  split <;> rfl

@[simp]
theorem fire_abortedBy (d : DaemonState) (deviceId : String) (action : Action) :
    (d.fire deviceId action).abortedBy = d.abortedBy := by
  unfold fire
  split <;> rfl

end DaemonState

namespace Handler

/-- The handler with another phase. -/
def goTo (h : Handler) (phase : HandlerPhase) : Handler := { h with phase := phase }

/-- The next critical section of `handle_conn`, if there is one: a serving handler waits for frames
and for its end. -/
def advance (h : Handler) (nowMs : Int) (d : DaemonState) : Option (Handler × DaemonState) :=
  match h.phase with
  | .greeted =>
      let relaunched := isRelaunch h.hello.instanceId (d.instances.lookup h.hello.deviceId)
      some (h.goTo (.compared relaunched),
        { d with instances := d.instances.insert h.hello.deviceId h.hello.instanceId })
  | .compared relaunched =>
      -- a relaunch cannot be resumed: the running job is aborted, whichever device it drives
      if relaunched && d.cardBusy then
        some (h.goTo (.judged relaunched true),
          { d with jobAbort := true, abortedBy := d.abortedBy ++ [h.hello.deviceId] })
      else some (h.goTo (.judged relaunched false), d)
  | .judged relaunched aborting =>
      -- a call of the old process went with it
      let prior := if relaunched then none else d.registry.currentCall h.hello.deviceId
      some (h.goTo (.looked aborting prior), d)
  | .looked aborting prior =>
      let (hub, gen, _) := d.hub.register h.hello.deviceId
      some (h.goTo (.registered aborting prior gen), { d with hub := hub })
  | .registered aborting prior gen =>
      some (h.goTo (.recorded aborting gen),
        { d with registry := d.registry.upsert (h.hello.record nowMs prior) })
  | .recorded aborting gen =>
      some (h.goTo (.serving gen),
        if aborting then d.fire h.hello.deviceId (.hangup none) else d)
  | .serving _ => none
  | .stopped gen =>
      let (hub, removed) := d.hub.unregister h.hello.deviceId gen
      -- a superseded handler leaves the record to its successor
      some (h.goTo (if removed then .removing else .closed), { d with hub := hub })
  | .removing =>
      some (h.goTo .closed, { d with registry := d.registry.remove h.hello.deviceId })
  | .closed => none

/-- The reader loop ends, because the socket does or because the handler is told to close. -/
def stop (h : Handler) : Option Handler :=
  match h.phase with
  | .serving gen => some (h.goTo (.stopped gen))
  | _ => none

/-- A handler that reads frames. -/
def isServing (h : Handler) : Bool :=
  match h.phase with
  | .serving _ => true
  | _ => false

/-! ## What one section writes -/

variable {h h' : Handler} {d d' : DaemonState} {nowMs : Int}

/-- A reader loop ends where it runs. -/
theorem stop_eq_some (hstop : h.stop = some h') :
    ∃ gen, h = ⟨h.hello, .serving gen⟩ ∧ h' = ⟨h.hello, .stopped gen⟩ := by
  obtain ⟨hello, phase⟩ := h
  cases phase with
  | serving gen => exact ⟨gen, rfl, (Option.some.inj hstop).symm⟩
  | _ => simp [stop] at hstop

/-- **What one section does**, with the branch that it takes. -/
inductive Section (nowMs : Int) (d : DaemonState) : Handler → Handler → DaemonState → Prop where
  | greeted (hello : Hello) :
      Section nowMs d ⟨hello, .greeted⟩
        ⟨hello, .compared (isRelaunch hello.instanceId (d.instances.lookup hello.deviceId))⟩
        { d with instances := d.instances.insert hello.deviceId hello.instanceId }
  | aborted (hello : Hello) (hbusy : d.cardBusy = true) :
      Section nowMs d ⟨hello, .compared true⟩ ⟨hello, .judged true true⟩
        { d with jobAbort := true, abortedBy := d.abortedBy ++ [hello.deviceId] }
  | spared (hello : Hello) (relaunched : Bool) (hno : (relaunched && d.cardBusy) = false) :
      Section nowMs d ⟨hello, .compared relaunched⟩ ⟨hello, .judged relaunched false⟩ d
  | judged (hello : Hello) (relaunched aborting : Bool) :
      Section nowMs d ⟨hello, .judged relaunched aborting⟩
        ⟨hello, .looked aborting
          (if relaunched then none else d.registry.currentCall hello.deviceId)⟩ d
  | looked (hello : Hello) (aborting : Bool) (prior : Option CallInfo) :
      Section nowMs d ⟨hello, .looked aborting prior⟩
        ⟨hello, .registered aborting prior d.hub.connGen⟩
        { d with hub := (d.hub.register hello.deviceId).1 }
  | registered (hello : Hello) (aborting : Bool) (prior : Option CallInfo) (gen : Nat) :
      Section nowMs d ⟨hello, .registered aborting prior gen⟩ ⟨hello, .recorded aborting gen⟩
        { d with registry := d.registry.upsert (hello.record nowMs prior) }
  | hungUp (hello : Hello) (gen : Nat) :
      Section nowMs d ⟨hello, .recorded true gen⟩ ⟨hello, .serving gen⟩
        (d.fire hello.deviceId (.hangup none))
  | recorded (hello : Hello) (gen : Nat) :
      Section nowMs d ⟨hello, .recorded false gen⟩ ⟨hello, .serving gen⟩ d
  | current (hello : Hello) (gen : Nat)
      (hremoved : (d.hub.unregister hello.deviceId gen).2 = true) :
      Section nowMs d ⟨hello, .stopped gen⟩ ⟨hello, .removing⟩
        { d with hub := d.hub.dropDevice hello.deviceId }
  | superseded (hello : Hello) (gen : Nat)
      (hremoved : (d.hub.unregister hello.deviceId gen).2 = false) :
      Section nowMs d ⟨hello, .stopped gen⟩ ⟨hello, .closed⟩ d
  | removing (hello : Hello) :
      Section nowMs d ⟨hello, .removing⟩ ⟨hello, .closed⟩
        { d with registry := d.registry.remove hello.deviceId }

theorem advance_section (hadv : h.advance nowMs d = some (h', d')) : Section nowMs d h h' d' := by
  obtain ⟨hello, phase⟩ := h
  cases phase with
  | compared relaunched =>
      simp only [advance] at hadv
      split at hadv
      · rename_i hab
        obtain ⟨rfl, hbusy⟩ := Bool.and_eq_true_iff.1 hab
        cases hadv
        exact .aborted hello hbusy
      · rename_i hab
        cases hadv
        exact .spared hello relaunched (Bool.eq_false_iff.2 hab)
  | recorded aborting gen =>
      cases aborting with
      | true =>
          cases hadv
          exact .hungUp hello gen
      | false =>
          cases hadv
          exact .recorded hello gen
  | stopped gen =>
      simp only [advance] at hadv
      rcases d.hub.unregister_cases hello.deviceId gen with ⟨hremoved, hhub⟩ | ⟨hremoved, hhub⟩
      · rw [hremoved, hhub] at hadv
        cases hadv
        exact .current hello gen hremoved
      · rw [hremoved, hhub] at hadv
        cases hadv
        exact .superseded hello gen hremoved
  | serving gen => simp [advance] at hadv
  | closed => simp [advance] at hadv
  | greeted =>
      cases hadv
      exact .greeted hello
  | judged relaunched aborting =>
      cases hadv
      exact .judged hello relaunched aborting
  | looked aborting prior =>
      cases hadv
      exact .looked hello aborting prior
  | registered aborting prior gen =>
      cases hadv
      exact .registered hello aborting prior gen
  | removing =>
      cases hadv
      exact .removing hello

theorem advance_hello (hadv : h.advance nowMs d = some (h', d')) : h'.hello = h.hello := by
  cases advance_section hadv <;> rfl

/-- Two sections write the registry: the one that inserts the record and the one that removes it. -/
theorem advance_registry (hadv : h.advance nowMs d = some (h', d')) :
    d'.registry =
      match h.phase with
      | .registered _ prior _ => d.registry.upsert (h.hello.record nowMs prior)
      | .removing => d.registry.remove h.hello.deviceId
      | _ => d.registry := by
  cases advance_section hadv with
  | hungUp hello gen => exact DaemonState.fire_registry d hello.deviceId _
  | _ => rfl

/-- The next section of the handler takes the device's call off its record. -/
def ClearsCall (h : Handler) : Prop :=
  h.phase = .removing ∨ ∃ aborting gen, h.phase = .registered aborting none gen

theorem advance_currentCall {id : String} (hadv : h.advance nowMs d = some (h', d'))
    (hslot : d.registry.currentCall id ≠ none) :
    d'.registry.currentCall id = none ↔ h.hello.deviceId = id ∧ h.ClearsCall := by
  rw [advance_registry hadv]
  by_cases hid : h.hello.deviceId = id
  · subst hid
    cases hphase : h.phase with
    | registered aborting prior gen =>
        have hread : (d.registry.upsert (h.hello.record nowMs prior)).currentCall
            h.hello.deviceId = prior := Registry.currentCall_upsert
        simp only [hread, ClearsCall, hphase]
        constructor
        · rintro rfl
          exact ⟨trivial, Or.inr ⟨aborting, gen, rfl⟩⟩
        · rintro ⟨-, h | ⟨_, _, h⟩⟩
          · cases h
          · cases h
            rfl
    | removing => simp [ClearsCall, hphase]
    | greeted | compared _ | judged _ _ | looked _ _ | recorded _ _ | serving _ | stopped _
    | closed => simp [ClearsCall, hphase, hslot]
  · refine iff_of_false ?_ fun hclears => hid hclears.1
    have hne : id ≠ h.hello.deviceId := Ne.symm hid
    cases hphase : h.phase with
    | registered aborting prior gen =>
        have hread : (d.registry.upsert (h.hello.record nowMs prior)).currentCall id =
            d.registry.currentCall id := Registry.currentCall_upsert_of_ne hne
        rw [hread]
        exact hslot
    | removing => simpa [Registry.currentCall_remove_of_ne hne] using hslot
    | greeted | compared _ | judged _ _ | looked _ _ | recorded _ _ | serving _ | stopped _
    | closed => exact hslot

/-- An app is found relaunched by the section that compares its instance. -/
theorem advance_relaunched (hadv : h.advance nowMs d = some (h', d'))
    (hsame : isRelaunch h.hello.instanceId (d.instances.lookup h.hello.deviceId) = false)
    (hnot : h.phase.relaunched = false) : h'.phase.relaunched = false := by
  cases advance_section hadv with
  | greeted hello => exact hsame
  | aborted hello hbusy => exact hnot
  | spared hello relaunched hno => exact hnot
  | _ => rfl

/-- A job is aborted for the device of a handler that has found its app relaunched. -/
theorem advance_abortedBy (hadv : h.advance nowMs d = some (h', d')) :
    d'.abortedBy = d.abortedBy ∨
      h.phase.relaunched = true ∧ d'.abortedBy = d.abortedBy ++ [h.hello.deviceId] := by
  cases advance_section hadv with
  | aborted hello hbusy => exact Or.inr ⟨rfl, rfl⟩
  | hungUp hello gen => exact Or.inl (DaemonState.fire_abortedBy d hello.deviceId _)
  | _ => exact Or.inl rfl

/-- The instance last seen of a device is the one of the handler that compared last. -/
theorem advance_instances (hadv : h.advance nowMs d = some (h', d')) :
    d'.instances = d.instances ∨
      d'.instances = d.instances.insert h.hello.deviceId h.hello.instanceId := by
  cases advance_section hadv with
  | greeted hello => exact Or.inr rfl
  | hungUp hello gen => exact Or.inl (DaemonState.fire_instances d hello.deviceId _)
  | _ => exact Or.inl rfl

end Handler

/-- Phones heartbeat every 30 s; one that has sent nothing for this long is gone. -/
def staleAfterMs : Int := 90000

end DialF.Daemon
