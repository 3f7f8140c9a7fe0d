import DialF.Daemon.Reconnect
import DialF.Lib.Table

/-!
# Connections and records

A phone's connection is in the hub's map and its record in the registry, and both are updated in two
steps: a handler registers and then inserts the record, a teardown unregisters and then removes it,
the reaper removes the record and then drops the connection. Only the map of connections knows
generations; the second half of each update goes by the device id.

`agree_along_iff` gives the runs in which the two agree. They part when a second half comes too
late: a teardown removes the record that a new connection has written, the reaper drops a connection
that has come back, or a record is written for a connection that is gone.
-/

set_option autoImplicit false

namespace DialF.Daemon

open DialF.Lib

/-- The generation whose record the handler is about to insert. -/
def HandlerPhase.recording : HandlerPhase → Option Nat
  | .registered _ _ gen => some gen
  | _ => none

/-- The handler is between the two halves of an update. -/
def HandlerPhase.midway : HandlerPhase → Bool
  | .registered _ _ _ | .removing => true
  | _ => false

namespace Presence

open Reconnect

/-- The runs of a daemon and any phones. -/
def machine : Machine Reconnect ReconnectLabel where
  Init s := ∃ device inbound now, s = start device inbound now
  step := next

/-- A handler has registered this connection and not yet inserted its record. -/
def Recording (s : Reconnect) (id : String) (gen : Nat) : Prop :=
  ∃ h ∈ s.handlers, h.hello.deviceId = id ∧ h.phase.recording = some gen

/-- A handler has unregistered a connection of the device and not yet removed the record. -/
def Removing (s : Reconnect) (id : String) : Prop :=
  ∃ h ∈ s.handlers, h.hello.deviceId = id ∧ h.phase = .removing

/-- No update is between its two halves. -/
def Quiet (s : Reconnect) : Prop :=
  (∀ h ∈ s.handlers, h.phase.midway = false) ∧ s.reaped = []

/-- Between connections and records there is at most an update that is between its halves: the one
that registered the connection, the one that took it, or the reaper. -/
structure Halves (s : Reconnect) : Prop where
  recorded : ∀ id conn, s.daemon.hub.conn id = some conn → s.daemon.registry.get id = none →
    id ∈ s.reaped ∨ Recording s id conn.gen
  connected : ∀ id dev, s.daemon.registry.get id = some dev → s.daemon.hub.conn id = none →
    Removing s id

/-- **Hub and registry agree.** A device is connected exactly when it has a record, except where one
of its own updates is between its halves. -/
structure Agree (s : Reconnect) : Prop extends Halves s where
  quiet : Quiet s → ∀ id, s.daemon.hub.conn id ≠ none ↔ s.daemon.registry.get id ≠ none

/-- The second half of an update finds what its first half left: a record is inserted for a
connected device (or one whose record is about to go), a record is removed from a device without a
connection (or whose record is about to come, or whose connection is about to go), a connection is
dropped from a device without a record (or whose record is about to go). -/
def Timely (s : Reconnect) : ReconnectLabel → Prop
  | .advance i _ =>
      match s.handlers[i]? with
      | some h =>
          match h.phase with
          | .registered _ _ _ =>
              s.daemon.hub.conn h.hello.deviceId ≠ none ∨ Removing s h.hello.deviceId
          -- a connection that is still there is a newer socket's
          | .removing =>
              match s.daemon.hub.conn h.hello.deviceId with
              | some conn =>
                  h.hello.deviceId ∈ s.reaped ∨ Recording s h.hello.deviceId conn.gen
              | none => True
          | _ => True
      | none => True
  | .dropReaped =>
      match s.reaped with
      | id :: _ => s.daemon.registry.get id = none ∨ Removing s id
      | [] => True
  | _ => True

instance (s : Reconnect) (id : String) (gen : Nat) : Decidable (Recording s id gen) := by
  unfold Recording
  infer_instance

instance (s : Reconnect) (id : String) : Decidable (Removing s id) := by
  unfold Removing
  infer_instance

variable {s t : Reconnect} {a : ReconnectLabel}

/-- With no update between its halves there is no excuse. -/
theorem Halves.agree (hs : Halves s) : Agree s where
  toHalves := hs
  quiet := by
    rintro ⟨hhandlers, hreaped⟩ id
    constructor
    · intro hconn hget
      obtain ⟨conn, hconn⟩ := Option.ne_none_iff_exists'.1 hconn
      -- either excuse is an update between its halves
      rcases hs.recorded id conn hconn hget with hmem | ⟨h, hmem, -, hgen⟩
      · rw [hreaped] at hmem
        exact absurd hmem (by simp)
      · have hmid := hhandlers h hmem
        cases hphase : h.phase with
        | registered aborting prior gen => simp [hphase, HandlerPhase.midway] at hmid
        | _ => simp [hphase, HandlerPhase.recording] at hgen
    · intro hget hconn
      obtain ⟨dev, hget⟩ := Option.ne_none_iff_exists'.1 hget
      obtain ⟨h, hmem, -, hphase⟩ := hs.connected id dev hget hconn
      have hmid := hhandlers h hmem
      simp [hphase, HandlerPhase.midway] at hmid

theorem agree_iff_halves : Agree s ↔ Halves s :=
  ⟨Agree.toHalves, Halves.agree⟩

/-! ## Handlers that go on -/

/-- A step that leaves what the two maps say, and takes no excuse away. -/
theorem Halves.of_same (hs : Halves s) (hhub : t.daemon.hub = s.daemon.hub)
    (hget : ∀ id, t.daemon.registry.get id = none ↔ s.daemon.registry.get id = none)
    (hreaped : t.reaped = s.reaped) (hrec : ∀ id gen, Recording s id gen → Recording t id gen)
    (hrem : ∀ id, Removing s id → Removing t id) : Halves t where
  recorded := by
    intro id conn hconn hnone
    rw [hhub] at hconn
    rw [hreaped]
    rcases hs.recorded id conn hconn ((hget id).1 hnone) with hmem | hex
    · exact Or.inl hmem
    · exact Or.inr (hrec id conn.gen hex)
  connected := by
    intro id dev hdev hconn
    rw [hhub] at hconn
    have hsome : s.daemon.registry.get id ≠ none := by
      rw [ne_eq, ← hget, hdev]
      simp
    obtain ⟨dev', hdev'⟩ := Option.ne_none_iff_exists'.1 hsome
    exact hrem id (hs.connected id dev' hdev' hconn)

/-- The same, where a handler goes on that was not between its halves. -/
theorem Halves.of_set (hs : Halves s) {i : Nat} {h h' : Handler} (hi : s.handlers[i]? = some h)
    (hhandlers : t.handlers = s.handlers.set i h') (hhub : t.daemon.hub = s.daemon.hub)
    (hregistry : t.daemon.registry = s.daemon.registry) (hreaped : t.reaped = s.reaped)
    (hmid : h.phase.midway = false) : Halves t := by
  refine hs.of_same hhub (fun id => by rw [hregistry]) hreaped ?_ ?_
  · intro id gen hex
    rw [Recording, hhandlers]
    -- the handler that goes on excused nothing
    refine exists_mem_set_of_not hi ?_ hex
    rintro ⟨-, hgen⟩
    cases hphase : h.phase with
    | registered aborting prior g => simp [hphase, HandlerPhase.midway] at hmid
    | _ => simp [hphase, HandlerPhase.recording] at hgen
  · intro id hex
    rw [Removing, hhandlers]
    refine exists_mem_set_of_not hi ?_ hex
    rintro ⟨-, hphase⟩
    simp [hphase, HandlerPhase.midway] at hmid

/-! ## The critical sections of a handler -/

section Advance

variable {i : Nat} {nowMs : Int} {hello : Hello} {aborting : Bool} {prior : Option CallInfo}
  {gen : Nat}

/-- The state after a section of the handler `i`. -/
def advanced (s : Reconnect) (i : Nat) (h' : Handler) (daemon : DaemonState) : Reconnect :=
  { s with daemon := daemon, handlers := s.handlers.set i h' }

/-- A registered connection is excused until its record is there. -/
theorem halves_register (hs : Halves s)
    (hi : s.handlers[i]? = some ⟨hello, .looked aborting prior⟩) :
    Halves (advanced s i ⟨hello, .registered aborting prior s.daemon.hub.connGen⟩
      { s.daemon with hub := (s.daemon.hub.register hello.deviceId).1 }) where
  recorded := by
    intro id conn hconn hnone
    by_cases hid : id = hello.deviceId
    · subst hid
      obtain rfl := Option.some.inj (Hub.conn_register.symm.trans hconn)
      exact Or.inr (exists_mem_set_self hi ⟨rfl, rfl⟩)
    · have hold := (Hub.conn_register_of_ne hid).symm.trans hconn
      rcases hs.recorded id conn hold hnone with hmem | hex
      · exact Or.inl hmem
      · exact Or.inr (exists_mem_set_of_not hi (by simp [HandlerPhase.recording]) hex)
  connected := by
    intro id dev hdev hconn
    by_cases hid : id = hello.deviceId
    · subst hid
      exact absurd (Hub.conn_register.symm.trans hconn) (by simp)
    · have hold := (Hub.conn_register_of_ne hid).symm.trans hconn
      exact exists_mem_set_of_not hi (by simp) (hs.connected id dev hdev hold)

/-- A teardown that found itself current is excused until the record is gone. -/
theorem halves_unregister (hs : Halves s) (hi : s.handlers[i]? = some ⟨hello, .stopped gen⟩) :
    Halves (advanced s i ⟨hello, .removing⟩
      { s.daemon with hub := s.daemon.hub.dropDevice hello.deviceId }) where
  recorded := by
    intro id conn hconn hnone
    by_cases hid : id = hello.deviceId
    · subst hid
      exact absurd (Hub.conn_dropDevice.symm.trans hconn) (by simp)
    · have hold := (Hub.conn_dropDevice_of_ne hid).symm.trans hconn
      rcases hs.recorded id conn hold hnone with hmem | hex
      · exact Or.inl hmem
      · exact Or.inr (exists_mem_set_of_not hi (by simp [HandlerPhase.recording]) hex)
  connected := by
    intro id dev hdev hconn
    by_cases hid : id = hello.deviceId
    · subst hid
      exact exists_mem_set_self hi ⟨rfl, rfl⟩
    · have hold := (Hub.conn_dropDevice_of_ne hid).symm.trans hconn
      exact exists_mem_set_of_not hi (by simp) (hs.connected id dev hdev hold)

/-- A record is inserted in time exactly when there is a connection, or its removal is under way. -/
theorem halves_upsert_iff (hs : Halves s)
    (hi : s.handlers[i]? = some ⟨hello, .registered aborting prior gen⟩) :
    Halves (advanced s i ⟨hello, .recorded aborting gen⟩
        { s.daemon with
          registry := s.daemon.registry.upsert (hello.record nowMs prior) }) ↔
      (s.daemon.hub.conn hello.deviceId ≠ none ∨ Removing s hello.deviceId) := by
  have hself : (s.daemon.registry.upsert (hello.record nowMs prior)).get hello.deviceId =
      some (hello.record nowMs prior) := Registry.get_upsert
  have hother : ∀ id, id ≠ hello.deviceId →
      (s.daemon.registry.upsert (hello.record nowMs prior)).get id =
        s.daemon.registry.get id := fun _ hid => Registry.get_upsert_of_ne hid
  constructor
  · intro ht
    by_cases hconn : s.daemon.hub.conn hello.deviceId = none
    · exact Or.inr (exists_mem_of_exists_set (by simp) (ht.connected _ _ hself hconn))
    · exact Or.inl hconn
  -- other devices have what they had; this one has its record, and a connection or an excuse
  · intro htimely
    constructor
    · intro id conn hconn hnone
      by_cases hid : id = hello.deviceId
      · subst hid
        exact absurd (hself.symm.trans hnone) (by simp)
      · rcases hs.recorded id conn hconn ((hother id hid).symm.trans hnone) with hmem | hex
        · exact Or.inl hmem
        · refine Or.inr (exists_mem_set_of_not hi ?_ hex)
          rintro ⟨hdev, -⟩
          exact hid hdev.symm
    · intro id dev hdev hconn
      by_cases hid : id = hello.deviceId
      · subst hid
        rcases htimely with hsome | hex
        · exact absurd hconn hsome
        · exact exists_mem_set_of_not hi (by simp) hex
      · exact exists_mem_set_of_not hi (by simp)
          (hs.connected id dev ((hother id hid).symm.trans hdev) hconn)

/-- A record is removed in time exactly when there is no connection, or its record is about to come,
or it is about to be dropped. -/
theorem halves_remove_iff (hs : Halves s) (hi : s.handlers[i]? = some ⟨hello, .removing⟩) :
    Halves (advanced s i ⟨hello, .closed⟩
        { s.daemon with registry := s.daemon.registry.remove hello.deviceId }) ↔
      ∀ conn, s.daemon.hub.conn hello.deviceId = some conn →
        hello.deviceId ∈ s.reaped ∨ Recording s hello.deviceId conn.gen := by
  constructor
  · intro ht conn hconn
    rcases ht.recorded _ conn hconn Registry.get_remove with hmem | hex
    · exact Or.inl hmem
    · exact Or.inr (exists_mem_of_exists_set (by simp [HandlerPhase.recording]) hex)
  · intro htimely
    constructor
    · intro id conn hconn hnone
      have hexcuse : id ∈ s.reaped ∨ Recording s id conn.gen := by
        by_cases hid : id = hello.deviceId
        · subst hid
          exact htimely conn hconn
        · exact hs.recorded id conn hconn ((Registry.get_remove_of_ne hid).symm.trans hnone)
      rcases hexcuse with hmem | hex
      · exact Or.inl hmem
      · exact Or.inr (exists_mem_set_of_not hi (by simp [HandlerPhase.recording]) hex)
    · intro id dev hdev hconn
      by_cases hid : id = hello.deviceId
      · subst hid
        exact absurd (Registry.get_remove.symm.trans hdev) (by simp)
      · refine exists_mem_set_of_not hi ?_
          (hs.connected id dev ((Registry.get_remove_of_ne hid).symm.trans hdev) hconn)
        rintro ⟨hdevice, -⟩
        exact hid hdevice.symm

/-- **What a section of a handler does to the agreement.** -/
theorem halves_advance_iff (hs : Halves s) (h : s.next (.advance i nowMs) = some t) :
    Halves t ↔ Timely s (.advance i nowMs) := by
  obtain ⟨handler, handler', daemon, hi, hadv, rfl⟩ := next_advance_eq_some h
  simp only [Timely, hi]
  cases Handler.advance_section hadv with
  | looked hello aborting prior => exact iff_of_true (halves_register hs hi) trivial
  | current hello gen hremoved => exact iff_of_true (halves_unregister hs hi) trivial
  | registered hello aborting prior gen => exact halves_upsert_iff hs hi
  | removing hello =>
      refine (halves_remove_iff hs hi).trans ?_
      cases s.daemon.hub.conn hello.deviceId <;> simp
  -- the other sections leave the two maps alone, and no half of an update behind
  | hungUp hello gen =>
      exact iff_of_true (hs.of_set hi rfl (DaemonState.fire_hub _ _ _)
        (DaemonState.fire_registry _ _ _) rfl rfl) trivial
  | greeted _ | aborted _ _ | spared _ _ _ | judged _ _ _ | recorded _ _ | superseded _ _ _ =>
      exact iff_of_true (hs.of_set hi rfl rfl rfl rfl rfl) trivial

end Advance

/-! ## The other steps -/

/-- The reaper removes a record before it drops the connection. -/
theorem halves_reap {nowMs : Int} (hs : Halves s) (h : s.next (.reap nowMs) = some t) :
    Halves t := by
  simp only [next] at h
  split at h
  · rename_i hreaped
    obtain rfl := Option.some.inj h
    constructor
    · intro id conn hconn hnone
      cases hget : s.daemon.registry.get id with
      | none =>
          rcases hs.recorded id conn hconn hget with hmem | hex
          · rw [hreaped] at hmem
            exact absurd hmem (by simp)
          · exact Or.inr hex
      | some dev =>
          -- a record that the reaper takes leaves its device among those still to be dropped
          by_cases hstale : dev.lastSeenMs < nowMs - staleAfterMs
          · exact Or.inl (Registry.mem_stale.2 ⟨dev, hget, hstale⟩)
          · have hseen := Registry.get_reapOlderThan_of_seen hget hstale
            exact absurd (hseen.symm.trans hnone) (by simp)
    · intro id dev hdev hconn
      cases hget : s.daemon.registry.get id with
      | none =>
          have hgone : (s.daemon.registry.reapOlderThan (nowMs - staleAfterMs)).1.get id = none :=
            Registry.get_reapOlderThan_of_none hget
          exact absurd (hgone.symm.trans hdev) (by simp)
      | some dev' => exact hs.connected id dev' hget hconn
  · simp at h

/-- A connection is dropped in time exactly when the record is gone, or about to go. -/
theorem halves_dropReaped_iff (hs : Halves s) (h : s.next .dropReaped = some t) :
    Halves t ↔ Timely s .dropReaped := by
  simp only [next] at h
  split at h
  · rename_i id ids hreaped
    obtain rfl := Option.some.inj h
    simp only [Timely, hreaped]
    constructor
    · intro ht
      cases hget : s.daemon.registry.get id with
      | none => exact Or.inl rfl
      | some dev => exact Or.inr (ht.connected id dev hget Hub.conn_dropDevice)
    · intro htimely
      constructor
      · intro other conn hconn hnone
        by_cases hid : other = id
        · subst hid
          rw [Hub.conn_dropDevice] at hconn
          exact absurd hconn (by simp)
        · rw [Hub.conn_dropDevice_of_ne hid] at hconn
          rcases hs.recorded other conn hconn hnone with hmem | hex
          · rw [hreaped] at hmem
            rcases List.mem_cons.1 hmem with heq | hmem
            · exact absurd heq hid
            · exact Or.inl hmem
          · exact Or.inr hex
      · intro other dev hdev hconn
        by_cases hid : other = id
        · subst hid
          rcases htimely with hnone | hex
          · exact absurd (hnone.symm.trans hdev) (by simp)
          · exact hex
        · rw [Hub.conn_dropDevice_of_ne hid] at hconn
          exact hs.connected other dev hdev hconn
  · simp at h

/-- **A step keeps hub and registry in agreement exactly when it is timely.** -/
theorem halves_iff_of_step (hs : Halves s) (h : s.next a = some t) : Halves t ↔ Timely s a := by
  have hrefl : ∀ t : Reconnect, t.daemon.hub = s.daemon.hub →
      (∀ id, t.daemon.registry.get id = none ↔ s.daemon.registry.get id = none) →
      t.reaped = s.reaped → t.handlers = s.handlers → Halves t := by
    intro t hhub hget hreaped hhandlers
    refine hs.of_same hhub hget hreaped ?_ ?_
    · intro id gen hex
      rw [Recording, hhandlers]
      exact hex
    · intro id hex
      rw [Removing, hhandlers]
      exact hex
  cases a with
  | hello hello =>
      obtain rfl := Option.some.inj h
      refine iff_of_true (hs.of_same rfl (fun _ => Iff.rfl) rfl ?_ ?_) trivial
      · rintro id gen ⟨x, hx, hrest⟩
        exact ⟨x, List.mem_append_left _ hx, hrest⟩
      · rintro id ⟨x, hx, hrest⟩
        exact ⟨x, List.mem_append_left _ hx, hrest⟩
  | advance i nowMs => exact halves_advance_iff hs h
  | heartbeat i nowMs =>
      simp only [next] at h
      obtain ⟨handler, -, -, rfl⟩ := read_eq_some h
      exact iff_of_true (hrefl _ rfl (fun _ => Registry.get_onHeartbeat_eq_none) rfl rfl) trivial
  | callState i nowMs report =>
      simp only [next] at h
      obtain ⟨handler, -, -, rfl⟩ := read_eq_some h
      exact iff_of_true (hrefl _ rfl (fun _ => Registry.get_onCallState_eq_none) rfl rfl) trivial
  | stop i =>
      obtain ⟨hello, gen, hi, rfl⟩ := next_stop_eq_some h
      exact iff_of_true (hs.of_set hi rfl rfl rfl rfl rfl) trivial
  | reap nowMs => exact iff_of_true (halves_reap hs h) trivial
  | dropReaped => exact halves_dropReaped_iff hs h
  | setBusy busy | dial now number | answer | hangup now | callEnded now =>
      obtain rfl := Option.some.inj h
      exact iff_of_true (hrefl _ rfl (fun _ => Iff.rfl) rfl rfl) trivial

theorem halves_start (device : String) (inbound : Bool) (now : Nat) :
    Halves (start device inbound now) where
  recorded := by
    intro id conn hconn
    simp [start, DaemonState.start, Hub.new, Hub.conn] at hconn
  connected := by
    intro id dev hdev
    simp [start, DaemonState.start, Registry.new, Registry.get] at hdev

/-- **The runs in which hub and registry agree.** -/
theorem agree_along_iff (device : String) (inbound : Bool) (now : Nat)
    (run : List ReconnectLabel) :
    machine.Along Agree (start device inbound now) run ↔
      machine.Meets Timely (start device inbound now) run := by
  refine Machine.along_iff_meets (I := fun _ => True) (fun _ _ _ _ _ => trivial) ?_ trivial
    (halves_start device inbound now).agree run
  intro s a t _ hs hstep
  rw [agree_iff_halves]
  exact halves_iff_of_step (agree_iff_halves.1 hs) hstep

/-- A phone reconnects between the two halves of its old connection's teardown. -/
def lateTeardownRun : List ReconnectLabel :=
  [.hello ⟨"p", "phone", "app", "10.0.0.2"⟩] ++ List.replicate 6 (.advance 0 0) ++
    [.stop 0, .advance 0 1] ++ [.hello ⟨"p", "phone", "app", "10.0.0.2"⟩] ++
    List.replicate 6 (.advance 1 2) ++ [.advance 0 3]

/-- The phone that has just reconnected is connected, is missing from the registry, and nobody is
left to write its record. -/
theorem exists_not_agree :
    ∃ s, machine.run (start "q" false 0) lateTeardownRun = some s ∧ Quiet s ∧ ¬ Agree s := by
  refine ⟨_, rfl, ⟨by decide, rfl⟩, fun hs => ?_⟩
  exact absurd (hs.quiet ⟨by decide, rfl⟩ "p") (by decide)

end Presence

end DialF.Daemon
