import Mathlib.Logic.Function.Basic
import DialF.Daemon.WaitAnswer
import DialF.Daemon.Commands

/-!
# A job and the phones that it does not drive

While a job drives one phone, others connect, relaunch their apps, send frames and drop off. What
the daemon keeps of a phone goes by its device id: the record, the last instance, the connection
with its ack table, the handlers of its sockets. The flag that aborts a job, and the one that says
that the card is held, are the daemon's.

The machine starts where a job has begun to drive a phone, at whatever else the daemon is doing, and
notes what the job gets to know: the verdicts of `call_ended`, of the turns of `wait_for_answer` and
of `cancelled`, and, in the ack tables, what its commands return. Generations and ids of commands
come from two counters and are only compared; a step that draws a number brings one that has not
been drawn, of which the counter's next is one.

`apart_iff` compares a run with the run of the same steps of the job, of its phone and of the reaper
alone: the job gets to know the same exactly when no other phone's app is found relaunched.
-/

set_option autoImplicit false

namespace DialF.Daemon

open DialF.Lib

/-- What a job gets to know from the daemon, its commands apart. -/
inductive Observation where
  | ended (verdict : Bool)
  | waited (verdict : WaitVerdict)
  | cancelled (cancelled : Bool)
  deriving DecidableEq

/-- The daemon, the ack tables and the handlers of each device, the devices that the reaper has
still to drop, the numbers drawn, the job with its deadline while it waits, what it has got to know,
and the handlers that have sent a hangup after an abort. -/
structure Phones where
  daemon : DaemonState
  hubs : String → CommandHub
  sockets : String → List Handler
  reaped : List String
  gens : List Nat
  ids : List Nat
  job : PhoneJobIo
  wait : Option (Bool × Nat)
  observed : List Observation
  cleanups : List (String × Nat)

/-- What the phones do at the daemon, each by its device and the place of its handler. -/
inductive PhonesLabel where
  | hello (hello : Hello)
  | advance (device : String) (k : Nat) (nowMs : Int) (n : Nat)
  | stop (device : String) (k : Nat)
  | heartbeat (device : String) (k : Nat) (nowMs : Int)
  | callState (device : String) (k : Nat) (nowMs : Int) (report : CallReport)
  | reap (nowMs : Int)
  | dropReaped (device : String)
  | hub (device : String) (a : CommandLabel) (n : Nat)
  | dial (now : Nat) (number : String)
  | answer
  | hangup (now : Nat)
  | callEnded (now : Nat)
  | wait (now timeoutMs : Nat)
  | poll (now : Nat) (cancel : Bool)
  | look (cancel : Bool)

/-- The phone that a step belongs to, if it does to one. -/
def PhonesLabel.device : PhonesLabel → Option String
  | .hello h => some h.deviceId
  | .advance device _ _ _ | .stop device _ | .heartbeat device _ _ | .callState device _ _ _
  | .dropReaped device | .hub device _ _ => some device
  | _ => none

/-- The step belongs to no other phone. -/
def PhonesLabel.sparesOthers (driven : String) (a : PhonesLabel) : Bool :=
  match a.device with
  | some device => device == driven
  | none => true

/-- A step of the hub that draws a generation. -/
def CommandLabel.drawsGen : CommandLabel → Bool
  | .register _ => true
  | _ => false

/-- A step of the hub that draws the id of a command. -/
def CommandLabel.drawsId : CommandLabel → Bool
  | .number _ | .fire _ _ => true
  | _ => false

/-- A step of the device's commands and acks; its connections come and go with its handlers. -/
def CommandLabel.isOf (device : String) : CommandLabel → Bool
  | .register _ | .unregister _ _ | .dropDevice _ => false
  | .command other _ | .fire other _ | .ack other _ _ => other == device
  | _ => true

/-- What a handler's section does to the ack tables. -/
def HandlerPhase.hubLabel (device : String) : HandlerPhase → Option CommandLabel
  | .looked _ _ => some (.register device)
  | .recorded true _ => some (.fire device (.hangup none))
  | .stopped gen => some (.unregister device gen)
  | _ => none

/-- The handler has aborted a job, and will hang up. -/
def HandlerPhase.aborting : HandlerPhase → Bool
  | .judged _ aborting => aborting
  | .looked aborting _ => aborting
  | .registered aborting _ _ => aborting
  | .recorded aborting _ => aborting
  | _ => false

namespace Phones

/-- The handler of a socket of the device. -/
def handler (s : Phones) (device : String) (k : Nat) : Option Handler :=
  match (s.sockets device)[k]? with
  | some h => if h.hello.deviceId = device then some h else none
  | none => none

/-- A step of the device's commands, acks and connections, with the number that it draws. -/
def hubStep (s : Phones) (device : String) (a : CommandLabel) (n : Nat) : Option Phones :=
  if (a.drawsGen && decide (n ∈ s.gens)) || (a.drawsId && decide (n ∈ s.ids)) then none
  else
    -- the device's table draws from the daemon's counters: whichever it needs is `n`
    match ({ s.hubs device with connGen := n, seq := n } : CommandHub).step a with
    | some hub =>
        some { s with
          hubs := Function.update s.hubs device hub
          gens := if a.drawsGen then n :: s.gens else s.gens
          ids := if a.drawsId then n :: s.ids else s.ids }
    | none => none

/-- The daemon, with the number that its next connection gets. -/
def drawing (d : DaemonState) (n : Nat) : DaemonState :=
  { d with hub := { d.hub with connGen := n } }

/-- The hangups after aborts, with that of a handler that is connected and at it. -/
def cleanedUp (s : Phones) (device : String) (k : Nat) (h : Handler) : List (String × Nat) :=
  -- a hangup to a device that is not connected goes nowhere
  match h.phase, s.daemon.hub.conn device with
  | .recorded true _, some _ => s.cleanups ++ [(device, k)]
  | _, _ => s.cleanups

/-- A frame that a serving handler reads. -/
def read (s : Phones) (device : String) (k : Nat) (f : Registry → Registry) : Option Phones :=
  match s.handler device k with
  | some h =>
      if h.isServing then
        some { s with daemon := { s.daemon with registry := f s.daemon.registry } }
      else none
  | none => none

/-- One step. -/
def step (s : Phones) : PhonesLabel → Option Phones
  | .hello hello =>
      some { s with
        sockets := Function.update s.sockets hello.deviceId
          (s.sockets hello.deviceId ++ [⟨hello, .greeted⟩]) }
  | .advance device k nowMs n =>
      match s.handler device k with
      | some h =>
          match h.advance nowMs (drawing s.daemon n) with
          | some (h', daemon) =>
              let t := { s with
                daemon := daemon
                sockets := Function.update s.sockets device ((s.sockets device).set k h')
                cleanups := s.cleanedUp device k h }
              -- the same section, seen by the ack tables
              match h.phase.hubLabel device with
              | some a => t.hubStep device a n
              | none => some t
          | none => none
      | none => none
  | .stop device k =>
      match (s.handler device k).bind Handler.stop with
      | some h =>
          some { s with
            sockets := Function.update s.sockets device ((s.sockets device).set k h) }
      | none => none
  | .heartbeat device k nowMs => s.read device k fun reg => reg.onHeartbeat device nowMs
  | .callState device k nowMs report =>
      s.read device k fun reg => reg.onCallState device nowMs report
  -- the daemon's own; what it takes of a device is decided by the device's record
  | .reap nowMs =>
      let (registry, ids) := s.daemon.registry.reapOlderThan (nowMs - staleAfterMs)
      some { s with
        daemon := { s.daemon with registry := registry }
        reaped := s.reaped ++ ids }
  | .dropReaped device =>
      if device ∈ s.reaped then
        ({ s with
          daemon := { s.daemon with hub := s.daemon.hub.dropDevice device }
          reaped := s.reaped.filter fun id => id != device } : Phones).hubStep device
            (.dropDevice device) 0
      else none
  | .hub device a n => if a.isOf device then s.hubStep device a n else none
  | .dial now number => some { s with job := (s.job.dial now number).1 }
  | .answer => some { s with job := s.job.answer.1 }
  | .hangup now => some { s with job := (s.job.hangup now).1 }
  | .callEnded now =>
      let poll := s.job.callEnded now s.daemon.registry
      some { s with job := poll.1, observed := s.observed ++ [.ended poll.2] }
  | .wait now timeoutMs => some { s with wait := some (false, now + timeoutMs) }
  -- a cancel of the client and an abort of the daemon are one flag to the wait
  | .poll now cancel =>
      match s.wait with
      | some (seen, deadline) =>
          let turn := s.job.waitTurn now deadline seen (cancel || s.daemon.jobAbort)
            s.daemon.registry
          some { s with
            job := turn.1
            wait :=
              match turn.2 with
              | .waiting seen => some (seen, deadline)
              | _ => none
            observed := s.observed ++ [.waited turn.2] }
      | none => none
  | .look cancel =>
      some { s with observed := s.observed ++ [.cancelled (cancel || s.daemon.jobAbort)] }

/-- A job has begun to drive the phone. -/
structure Begins (driven : String) (s : Phones) : Prop where
  device : s.job.deviceId = driven
  cardBusy : s.daemon.cardBusy = true
  jobAbort : s.daemon.jobAbort = false
  abortedBy : s.daemon.abortedBy = []
  observed : s.observed = []
  cleanups : s.cleanups = []

/-- The runs of a daemon from the beginning of a job on. -/
def machine : Machine Phones PhonesLabel where
  Init s := ∃ driven, Begins driven s
  step := step

/-- A handler of the phone has aborted an earlier job and not yet hung up. -/
def Aborting (s : Phones) (device : String) (k : Nat) : Prop :=
  ∃ h, s.handler device k = some h ∧ h.phase.aborting = true

/-- **Phones do not disturb each other**, in a run from `s` to `t`. -/
structure Apart (driven : String) (s t : Phones) (run : List PhonesLabel) : Prop where
  /-- No other phone sets the flag that aborts the job. -/
  flag : ∀ device ∈ t.daemon.abortedBy, device = driven
  /-- Without the steps of the other phones the job gets to know the same. -/
  alone : ∃ t', machine.run s (run.filter (PhonesLabel.sparesOthers driven)) = some t' ∧
    t'.observed = t.observed ∧ t'.daemon.jobAbort = t.daemon.jobAbort ∧
      ∀ i, (t'.hubs driven).outcome i = (t.hubs driven).outcome i
  /-- No other phone is told to hang up, except for an abort from before the job. -/
  cleanups : ∀ c ∈ t.cleanups, c.1 = driven ∨ s.Aborting c.1 c.2

/-- The step does not find another phone's app relaunched while the card is held. -/
def Spares (driven : String) (s : Phones) : PhonesLabel → Prop
  | .advance device k _ _ =>
      match s.handler device k with
      | some h =>
          device ≠ driven → h.phase = .compared true → s.daemon.cardBusy = false
      | none => True
  | _ => True

instance (driven : String) (s : Phones) (a : PhonesLabel) : Decidable (Spares driven s a) := by
  unfold Spares
  split
  · split <;> infer_instance
  · infer_instance

end Phones

/-! ## What a daemon has for one phone -/

/-- Alike to a job that drives the phone. -/
structure DaemonState.SameFor (id : String) (d d' : DaemonState) : Prop where
  record : d.registry.get id = d'.registry.get id
  instances : d.instances.lookup id = d'.instances.lookup id
  conn : d.hub.conn id = d'.hub.conn id
  cardBusy : d.cardBusy = d'.cardBusy
  jobAbort : d.jobAbort = d'.jobAbort

namespace DaemonState.SameFor

variable {id other : String} {d d' d₁ : DaemonState} {h h₁ : Handler} {nowMs : Int} {n : Nat}

theorem refl (d : DaemonState) : SameFor id d d := ⟨rfl, rfl, rfl, rfl, rfl⟩

theorem trans (h : SameFor id d d') (h' : SameFor id d' d₁) : SameFor id d d₁ :=
  ⟨h.record.trans h'.record, h.instances.trans h'.instances, h.conn.trans h'.conn,
    h.cardBusy.trans h'.cardBusy, h.jobAbort.trans h'.jobAbort⟩

theorem symm (h : SameFor id d d') : SameFor id d' d :=
  ⟨h.record.symm, h.instances.symm, h.conn.symm, h.cardBusy.symm, h.jobAbort.symm⟩

theorem drawing (h : SameFor id d d') : SameFor id (Phones.drawing d n) (Phones.drawing d' n) :=
  ⟨h.record, h.instances, h.conn, h.cardBusy, h.jobAbort⟩

theorem currentCall (h : SameFor id d d') :
    d.registry.currentCall id = d'.registry.currentCall id := by
  rw [Registry.currentCall, h.record]
  rfl

theorem callState (h : SameFor id d d') : d.registry.callState id = d'.registry.callState id := by
  rw [Registry.callState, h.currentCall]
  rfl

/-- Registries that are written alike. -/
theorem of_registry (h : SameFor id d d') {reg reg' : Registry} (hget : reg.get id = reg'.get id) :
    SameFor id { d with registry := reg } { d' with registry := reg' } :=
  ⟨hget, h.instances, h.conn, h.cardBusy, h.jobAbort⟩

/-- A fire is sent to a connection, and is no state that the daemon reads. -/
theorem of_fire (d : DaemonState) (device : String) (action : Action) :
    SameFor id (d.fire device action) d := by
  unfold DaemonState.fire
  split
  · exact ⟨rfl, rfl, rfl, rfl, rfl⟩
  · exact refl d

theorem fire (h : SameFor id d d') (action : Action) :
    SameFor id (d.fire id action) (d'.fire id action) :=
  (of_fire d id action).trans (h.trans (of_fire d' id action).symm)

theorem unregister_snd (h : SameFor id d d') (gen : Nat) :
    (d.hub.unregister id gen).2 = (d'.hub.unregister id gen).2 := by
  unfold Hub.unregister
  rw [← h.conn]
  split
  · split <;> rfl
  · rfl

theorem conn_unregister (h : SameFor id d d') (gen : Nat) :
    (d.hub.unregister id gen).1.conn id = (d'.hub.unregister id gen).1.conn id := by
  rcases d.hub.unregister_cases id gen with ⟨hyes, hhub⟩ | ⟨hno, hhub⟩
  · rcases d'.hub.unregister_cases id gen with ⟨-, hhub'⟩ | ⟨hno', -⟩
    · rw [hhub, hhub', Hub.conn_dropDevice, Hub.conn_dropDevice]
    · simp [← h.unregister_snd, hyes] at hno'
  · rcases d'.hub.unregister_cases id gen with ⟨hyes', -⟩ | ⟨-, hhub'⟩
    · simp [← h.unregister_snd, hno] at hyes'
    · rw [hhub, hhub', h.conn]

/-- **A section of a handler of the phone does the same in daemons that are alike.** -/
theorem advance (hd : SameFor id d d') (hdev : h.hello.deviceId = id) (hgen : d.hub.connGen = n)
    (hgen' : d'.hub.connGen = n) (hadv : h.advance nowMs d = some (h₁, d₁)) :
    ∃ d₁', h.advance nowMs d' = some (h₁, d₁') ∧ SameFor id d₁ d₁' := by
  obtain ⟨hello, phase⟩ := h
  subst hdev
  cases phase with
  | greeted =>
      cases hadv
      refine ⟨{ d' with instances := d'.instances.insert hello.deviceId hello.instanceId }, ?_,
        ⟨hd.record, ?_, hd.conn, hd.cardBusy, hd.jobAbort⟩⟩
      · simp only [Handler.advance, hd.instances]
      · exact (AList.lookup_insert d.instances).trans (AList.lookup_insert d'.instances).symm
  -- both daemons see the card alike, and both set the flag or neither
  | compared relaunched =>
      simp only [Handler.advance] at hadv ⊢
      split at hadv
      · rename_i hab
        cases hadv
        rw [if_pos (hd.cardBusy ▸ hab)]
        exact ⟨_, rfl, hd.record, hd.instances, hd.conn, hd.cardBusy, rfl⟩
      · rename_i hab
        cases hadv
        rw [if_neg (hd.cardBusy ▸ hab)]
        exact ⟨_, rfl, hd⟩
  | judged relaunched aborting =>
      cases hadv
      refine ⟨d', ?_, hd⟩
      simp only [Handler.advance, hd.currentCall]
  | looked aborting prior =>
      cases hadv
      refine ⟨{ d' with hub := (d'.hub.register hello.deviceId).1 }, ?_,
        ⟨hd.record, hd.instances, ?_, hd.cardBusy, hd.jobAbort⟩⟩
      · simp only [Handler.advance, Hub.register, hgen, hgen']
      · exact Hub.conn_register.trans ((by rw [hgen, hgen'] : some _ = some _).trans
          Hub.conn_register.symm)
  | registered aborting prior gen =>
      cases hadv
      refine ⟨_, rfl, hd.of_registry ?_⟩
      have hget : ∀ reg : Registry,
          (reg.upsert (hello.record nowMs prior)).get hello.deviceId =
            some (hello.record nowMs prior) := fun reg => Registry.get_upsert
      rw [hget, hget]
  | recorded aborting gen =>
      cases hadv
      refine ⟨_, rfl, ?_⟩
      cases aborting with
      | true => exact hd.fire _
      | false => exact hd
  | stopped gen =>
      cases hadv
      refine ⟨{ d' with hub := (d'.hub.unregister hello.deviceId gen).1 }, ?_,
        ⟨hd.record, hd.instances, hd.conn_unregister gen, hd.cardBusy, hd.jobAbort⟩⟩
      have hsnd : (d.hub.unregister hello.deviceId gen).2 =
          (d'.hub.unregister hello.deviceId gen).2 := hd.unregister_snd gen
      simp only [Handler.advance, ← hsnd]
      rfl
  | removing =>
      cases hadv
      refine ⟨_, rfl, hd.of_registry ?_⟩
      rw [Registry.get_remove, Registry.get_remove]
  | serving gen | closed => simp [Handler.advance] at hadv

/-- **A section of another phone's handler is not seen**, but for the abort check. -/
theorem advance_of_ne (hne : id ≠ h.hello.deviceId)
    (hspares : h.phase = .compared true → d.cardBusy = false)
    (hadv : h.advance nowMs d = some (h₁, d₁)) : SameFor id d₁ d := by
  cases Handler.advance_section hadv with
  | greeted hello => exact ⟨rfl, AList.lookup_insert_ne hne, rfl, rfl, rfl⟩
  -- the one section that sets the daemon's flag
  | aborted hello hbusy => exact Bool.noConfusion ((hspares rfl).symm.trans hbusy)
  | looked hello aborting prior => exact ⟨rfl, rfl, Hub.conn_register_of_ne hne, rfl, rfl⟩
  | registered hello aborting prior gen =>
      have hget : (d.registry.upsert (hello.record nowMs prior)).get id = d.registry.get id :=
        Registry.get_upsert_of_ne hne
      exact (refl d).of_registry hget
  | hungUp hello gen => exact of_fire d hello.deviceId _
  | current hello gen hremoved => exact ⟨rfl, rfl, Hub.conn_dropDevice_of_ne hne, rfl, rfl⟩
  | removing hello => exact (refl d).of_registry (Registry.get_remove_of_ne hne)
  | spared _ _ _ | judged _ _ _ | recorded _ _ | superseded _ _ _ => exact refl d

end DaemonState.SameFor

/-! ## The abort of a handler -/

namespace Handler

variable {h h' : Handler} {d d' : DaemonState} {nowMs : Int}

theorem stop_aborting (hstop : h.stop = some h') : h'.phase.aborting = false := by
  obtain ⟨gen, -, rfl⟩ := stop_eq_some hstop
  rfl

/-- A section aborts the job where it has found the app relaunched while the card is held, and no
other section does. -/
theorem advance_abort (hadv : h.advance nowMs d = some (h', d')) :
    (¬ (h.phase = .compared true ∧ d.cardBusy = true) ∧ d'.abortedBy = d.abortedBy ∧
        (h'.phase.aborting = true → h.phase.aborting = true)) ∨
      h.phase = .compared true ∧ d.cardBusy = true ∧
        d'.abortedBy = d.abortedBy ++ [h.hello.deviceId] := by
  cases advance_section hadv with
  | aborted hello hbusy => exact Or.inr ⟨rfl, hbusy, rfl⟩
  | spared hello relaunched hno =>
      refine Or.inl ⟨?_, rfl, id⟩
      rintro ⟨hrelaunched, hbusy⟩
      obtain rfl := HandlerPhase.compared.inj hrelaunched
      exact Bool.noConfusion (hbusy.symm.trans hno)
  | hungUp hello gen =>
      exact Or.inl ⟨by simp, DaemonState.fire_abortedBy d hello.deviceId _,
        by simp [HandlerPhase.aborting]⟩
  | _ => exact Or.inl ⟨by simp, rfl, by simp [HandlerPhase.aborting]⟩

end Handler

/-! ## What the phones are for one job -/

namespace Phones

variable {driven device : String} {s s' t u : Phones} {k n : Nat} {nowMs : Int} {h : Handler}

/-- Alike to the job, which drives the phone. What has been drawn in the one is free in the other. -/
structure SameFor (driven : String) (s s' : Phones) : Prop where
  daemon : DaemonState.SameFor driven s.daemon s'.daemon
  hub : s.hubs driven = s'.hubs driven
  sockets : s.sockets driven = s'.sockets driven
  reaped : driven ∈ s.reaped ↔ driven ∈ s'.reaped
  gens : s'.gens ⊆ s.gens
  ids : s'.ids ⊆ s.ids
  device : s.job.deviceId = driven
  job : s.job = s'.job
  wait : s.wait = s'.wait
  observed : s.observed = s'.observed

theorem handler_eq_some (hh : s.handler device k = some h) :
    (s.sockets device)[k]? = some h ∧ h.hello.deviceId = device := by
  unfold handler at hh
  split at hh
  · split at hh
    · rename_i hk hdev
      obtain rfl := Option.some.inj hh
      exact ⟨hk, hdev⟩
    · simp at hh
  · simp at hh

/-- What the end of a reader loop leaves. -/
theorem stop_eq_some (h : step s (.stop device k) = some t) :
    ∃ x, (s.handler device k).bind Handler.stop = some x ∧
      t = { s with
        sockets := Function.update s.sockets device ((s.sockets device).set k x) } := by
  simp only [step] at h
  split at h
  · rename_i x hstop
    exact ⟨x, hstop, (Option.some.inj h).symm⟩
  · simp at h

theorem subset_drawn (draws : Bool) (n : Nat) (ns : List Nat) :
    ns ⊆ if draws then n :: ns else ns := by
  cases draws with
  | true => exact List.subset_cons_self n ns
  | false => exact fun _ hmem => hmem

theorem drawn_mono (draws : Bool) (n : Nat) {ns ns' : List Nat} (hsub : ns ⊆ ns') :
    (if draws then n :: ns else ns) ⊆ if draws then n :: ns' else ns' := by
  cases draws with
  | true => exact List.cons_subset_cons n hsub
  | false => exact hsub

/-- What a step of the ack tables leaves. -/
theorem hubStep_eq_some {a : CommandLabel} (h : s.hubStep device a n = some t) :
    (a.drawsGen = true → n ∉ s.gens) ∧ (a.drawsId = true → n ∉ s.ids) ∧
      ∃ hub, ({ s.hubs device with connGen := n, seq := n } : CommandHub).step a = some hub ∧
        t = { s with
          hubs := Function.update s.hubs device hub
          gens := if a.drawsGen then n :: s.gens else s.gens
          ids := if a.drawsId then n :: s.ids else s.ids } := by
  unfold hubStep at h
  split at h
  · simp at h
  · rename_i hfree
    split at h
    · rename_i hub hstep
      obtain rfl := Option.some.inj h
      refine ⟨?_, ?_, hub, hstep, rfl⟩
      · intro hdraws hmem
        exact hfree (by simp [hdraws, hmem])
      · intro hdraws hmem
        exact hfree (by simp [hdraws, hmem])
    · simp at h

namespace SameFor

theorem refl (hdev : s.job.deviceId = driven) : SameFor driven s s :=
  ⟨.refl _, rfl, rfl, Iff.rfl, fun _ h => h, fun _ h => h, hdev, rfl, rfl, rfl⟩

theorem trans (hs : SameFor driven s s') (ht : SameFor driven s' t) : SameFor driven s t where
  daemon := hs.daemon.trans ht.daemon
  hub := hs.hub.trans ht.hub
  sockets := hs.sockets.trans ht.sockets
  reaped := hs.reaped.trans ht.reaped
  gens := List.Subset.trans ht.gens hs.gens
  ids := List.Subset.trans ht.ids hs.ids
  device := hs.device
  job := hs.job.trans ht.job
  wait := hs.wait.trans ht.wait
  observed := hs.observed.trans ht.observed

theorem handler (hs : SameFor driven s s') (k : Nat) :
    s.handler driven k = s'.handler driven k := by
  rw [Phones.handler, hs.sockets]
  rfl

theorem callState (hs : SameFor driven s s') :
    s.daemon.registry.callState s.job.deviceId = s'.daemon.registry.callState s.job.deviceId := by
  rw [hs.device]
  exact hs.daemon.callState

/-- The daemons go on alike. -/
theorem of_daemon (hs : SameFor driven s s') {d d' : DaemonState}
    (hd : DaemonState.SameFor driven d d') :
    SameFor driven { s with daemon := d } { s' with daemon := d' } :=
  { hs with daemon := hd }

/-- **A step of the phone's ack table does the same in states that are alike.** -/
theorem hubStep (hs : SameFor driven s s') {a : CommandLabel}
    (h : s.hubStep driven a n = some t) :
    ∃ t', s'.hubStep driven a n = some t' ∧ SameFor driven t t' := by
  obtain ⟨hgen, hid, hub, hstep, rfl⟩ := hubStep_eq_some h
  -- fewer numbers are drawn in the shorter run, so that a free one is free there too
  have hfree : ¬ ((a.drawsGen && decide (n ∈ s'.gens)) || (a.drawsId && decide (n ∈ s'.ids))) := by
    rw [Bool.or_eq_true, Bool.and_eq_true, Bool.and_eq_true, decide_eq_true_iff,
      decide_eq_true_iff]
    rintro (⟨hdraws, hmem⟩ | ⟨hdraws, hmem⟩)
    · exact hgen hdraws (hs.gens hmem)
    · exact hid hdraws (hs.ids hmem)
  rw [hs.hub] at hstep
  refine ⟨_, by rw [Phones.hubStep, if_neg hfree, hstep], ?_⟩
  refine { hs with hub := ?_, gens := drawn_mono _ n hs.gens, ids := drawn_mono _ n hs.ids }
  simp only [Function.update_self]

theorem read_eq_some {f : Registry → Registry} (h : s.read device k f = some t) :
    t = { s with daemon := { s.daemon with registry := f s.daemon.registry } } := by
  unfold Phones.read at h
  split at h
  · split at h
    · exact (Option.some.inj h).symm
    · simp at h
  · simp at h

/-- A frame of another phone is not seen. -/
theorem of_read (hdev : s.job.deviceId = driven) {f : Registry → Registry}
    (hf : ∀ reg : Registry, (f reg).get driven = reg.get driven) (h : s.read device k f = some t) :
    SameFor driven t s := by
  rw [read_eq_some h]
  exact { refl hdev with daemon := (DaemonState.SameFor.refl _).of_registry (hf _) }

/-- **A frame of the phone is read alike.** -/
theorem read (hs : SameFor driven s s') {f : Registry → Registry}
    (hf : ∀ reg reg' : Registry, reg.get driven = reg'.get driven →
      (f reg).get driven = (f reg').get driven)
    (h : s.read driven k f = some t) : ∃ t', s'.read driven k f = some t' ∧ SameFor driven t t' := by
  unfold Phones.read at h ⊢
  rw [← hs.handler]
  split at h
  · split at h
    · rename_i hserving
      obtain rfl := Option.some.inj h
      exact ⟨_, if_pos hserving, hs.of_daemon (hs.daemon.of_registry (hf _ _ hs.daemon.record))⟩
    · simp at h
  · simp at h

/-- **A section of a handler of the phone does the same.** -/
theorem advance (hs : SameFor driven s s') (h : step s (.advance driven k nowMs n) = some t) :
    ∃ t', step s' (.advance driven k nowMs n) = some t' ∧ SameFor driven t t' := by
  simp only [step, ← hs.handler] at h ⊢
  split at h
  · rename_i handler hhandler
    split at h
    · rename_i handler' d hadv
      obtain ⟨d', hadv', hd⟩ :=
        hs.daemon.drawing.advance (handler_eq_some hhandler).2 rfl rfl hadv
      have hnext : SameFor driven
          { s with
            daemon := d
            sockets := Function.update s.sockets driven ((s.sockets driven).set k handler')
            cleanups := s.cleanedUp driven k handler }
          { s' with
            daemon := d'
            sockets := Function.update s'.sockets driven ((s'.sockets driven).set k handler')
            cleanups := s'.cleanedUp driven k handler } :=
        { hs with
          daemon := hd
          sockets := by simp only [Function.update_self, hs.sockets] }
      simp only [hadv']
      split at h
      · exact hnext.hubStep h
      · obtain rfl := Option.some.inj h
        exact ⟨_, rfl, hnext⟩
    · simp at h
  · simp at h

/-- **The reaper takes the phone's record in both or in neither.** -/
theorem reap (hs : SameFor driven s s') (h : step s (.reap nowMs) = some t) :
    ∃ t', step s' (.reap nowMs) = some t' ∧ SameFor driven t t' := by
  obtain rfl := Option.some.inj h
  have hget : (s.daemon.registry.reapOlderThan (nowMs - staleAfterMs)).1.get driven =
      (s'.daemon.registry.reapOlderThan (nowMs - staleAfterMs)).1.get driven := by
    rw [Registry.get_reapOlderThan, Registry.get_reapOlderThan, hs.daemon.record]
  refine ⟨_, rfl, { hs with daemon := hs.daemon.of_registry hget, reaped := ?_ }⟩
  have hstale : driven ∈ s.daemon.registry.stale (nowMs - staleAfterMs) ↔
      driven ∈ s'.daemon.registry.stale (nowMs - staleAfterMs) := by
    rw [Registry.mem_stale, Registry.mem_stale, hs.daemon.record]
  exact List.mem_append.trans ((or_congr hs.reaped hstale).trans List.mem_append.symm)

/-- **A step of the job, of its phone or of the reaper does the same in states that are alike.** -/
theorem step_own (hs : SameFor driven s s') {a : PhonesLabel} (hown : a.sparesOthers driven = true)
    (h : step s a = some t) : ∃ t', step s' a = some t' ∧ SameFor driven t t' := by
  cases a with
  | hello hello =>
      obtain rfl : hello.deviceId = driven := beq_iff_eq.1 hown
      obtain rfl := Option.some.inj h
      refine ⟨_, rfl, { hs with sockets := ?_ }⟩
      simp only [Function.update_self, hs.sockets]
  | advance device k nowMs n =>
      obtain rfl : device = driven := beq_iff_eq.1 hown
      exact hs.advance h
  | stop device k =>
      obtain rfl : device = driven := beq_iff_eq.1 hown
      obtain ⟨handler, hstop, rfl⟩ := stop_eq_some h
      rw [hs.handler] at hstop
      refine ⟨{ s' with
        sockets := Function.update s'.sockets device ((s'.sockets device).set k handler) },
        by simp only [step, hstop], { hs with sockets := ?_ }⟩
      simp only [Function.update_self, hs.sockets]
  | heartbeat device k nowMs =>
      obtain rfl : device = driven := beq_iff_eq.1 hown
      have hread : s.read device k (fun reg => reg.onHeartbeat device nowMs) = some t := h
      refine hs.read (fun reg reg' hget => ?_) hread
      simp only [Registry.onHeartbeat, Registry.get_modify, hget]
  | callState device k nowMs report =>
      obtain rfl : device = driven := beq_iff_eq.1 hown
      have hread : s.read device k (fun reg => reg.onCallState device nowMs report) = some t := h
      refine hs.read (fun reg reg' hget => ?_) hread
      simp only [Registry.onCallState, Registry.get_modify, hget]
  | reap nowMs => exact hs.reap h
  | dropReaped device =>
      obtain rfl : device = driven := beq_iff_eq.1 hown
      simp only [step] at h ⊢
      split at h
      · rename_i hmem
        rw [if_pos (hs.reaped.1 hmem)]
        refine SameFor.hubStep ?_ h
        refine { hs with daemon := { hs.daemon with conn := ?_ }, reaped := ?_ }
        · exact Hub.conn_dropDevice.trans Hub.conn_dropDevice.symm
        · simp
      · simp at h
  | hub device a n =>
      obtain rfl : device = driven := beq_iff_eq.1 hown
      simp only [step] at h ⊢
      split at h
      · rename_i hof
        rw [if_pos hof]
        exact hs.hubStep h
      · simp at h
  | dial now number =>
      obtain rfl := Option.some.inj h
      exact ⟨_, rfl, { hs with job := by rw [hs.job] }⟩
  | answer =>
      obtain rfl := Option.some.inj h
      exact ⟨_, rfl, { hs with job := by rw [hs.job] }⟩
  | hangup now =>
      obtain rfl := Option.some.inj h
      exact ⟨_, rfl, { hs with job := by rw [hs.job] }⟩
  | callEnded now =>
      obtain rfl := Option.some.inj h
      have hpoll : s.job.callEnded now s.daemon.registry =
          s'.job.callEnded now s'.daemon.registry := by
        rw [← hs.job, PhoneJobIo.callEnded, hs.callState]
        rfl
      exact ⟨_, rfl, { hs with
        job := by rw [hpoll]
        observed := by rw [hpoll, hs.observed] }⟩
  | wait now timeoutMs =>
      obtain rfl := Option.some.inj h
      exact ⟨_, rfl, { hs with wait := rfl }⟩
  | poll now cancel =>
      simp only [step, ← hs.wait] at h ⊢
      split at h
      · rename_i seen deadline hwait
        obtain rfl := Option.some.inj h
        have hturn : s.job.waitTurn now deadline seen (cancel || s.daemon.jobAbort)
              s.daemon.registry =
            s'.job.waitTurn now deadline seen (cancel || s'.daemon.jobAbort)
              s'.daemon.registry := by
          rw [← hs.job, ← hs.daemon.jobAbort, PhoneJobIo.waitTurn, hs.callState]
          rfl
        refine ⟨_, rfl, { hs with
          device := PhoneJobIo.waitTurn_deviceId.trans hs.device
          job := ?_
          wait := ?_
          observed := ?_ }⟩
        · rw [hturn]
        · rw [hturn]
        · rw [hturn, hs.observed]
      · simp at h
  | look cancel =>
      obtain rfl := Option.some.inj h
      exact ⟨_, rfl, { hs with observed := by rw [hs.observed, hs.daemon.jobAbort] }⟩

/-- A step of another phone's ack table is not seen. -/
theorem of_hubStep {a : CommandLabel} (h : s.hubStep device a n = some t)
    (hdev : s.job.deviceId = driven) (hne : driven ≠ device) : SameFor driven t s := by
  obtain ⟨-, -, hub, -, rfl⟩ := hubStep_eq_some h
  exact { refl hdev with
    hub := Function.update_of_ne hne _ _
    gens := subset_drawn _ n _
    ids := subset_drawn _ n _ }

/-- The sockets of another phone are not seen. -/
theorem of_sockets (hdev : s.job.deviceId = driven) (hne : driven ≠ device)
    (hs : List Handler) :
    SameFor driven { s with sockets := Function.update s.sockets device hs } s :=
  { refl hdev with sockets := Function.update_of_ne hne _ _ }

/-- **A step of another phone is not seen**, but for the abort check. -/
theorem step_other (hdev : s.job.deviceId = driven) {a : PhonesLabel}
    (hother : a.sparesOthers driven = false) (hspares : Spares driven s a)
    (h : step s a = some t) : SameFor driven t s := by
  cases a with
  | hello hello =>
      have hne : driven ≠ hello.deviceId := fun heq => (beq_eq_false_iff_ne.1 hother) heq.symm
      obtain rfl := Option.some.inj h
      exact of_sockets hdev hne _
  | advance device k nowMs n =>
      have hne : driven ≠ device := fun heq => (beq_eq_false_iff_ne.1 hother) heq.symm
      simp only [step] at h
      split at h
      · rename_i handler hhandler
        obtain ⟨-, rfl⟩ := handler_eq_some hhandler
        split at h
        · rename_i handler' d hadv
          have hfree : handler.phase = .compared true → s.daemon.cardBusy = false := by
            simp only [Spares, hhandler] at hspares
            exact hspares (Ne.symm hne)
          have hd : DaemonState.SameFor driven d (drawing s.daemon n) :=
            DaemonState.SameFor.advance_of_ne hne hfree hadv
          have hnext : SameFor driven
              { s with
                daemon := d
                sockets := Function.update s.sockets handler.hello.deviceId
                  ((s.sockets handler.hello.deviceId).set k handler')
                cleanups := s.cleanedUp handler.hello.deviceId k handler } s :=
            { of_sockets hdev hne _ with daemon := ⟨hd.1, hd.2, hd.3, hd.4, hd.5⟩ }
          split at h
          · exact (of_hubStep h hdev hne).trans hnext
          · obtain rfl := Option.some.inj h
            exact hnext
        · simp at h
      · simp at h
  | stop device k =>
      have hne : driven ≠ device := fun heq => (beq_eq_false_iff_ne.1 hother) heq.symm
      obtain ⟨handler, -, rfl⟩ := stop_eq_some h
      exact of_sockets hdev hne _
  | heartbeat device k nowMs =>
      have hne : driven ≠ device := fun heq => (beq_eq_false_iff_ne.1 hother) heq.symm
      have hread : s.read device k (fun reg => reg.onHeartbeat device nowMs) = some t := h
      exact of_read hdev (fun reg => Registry.get_modify_of_ne hne _) hread
  | callState device k nowMs report =>
      have hne : driven ≠ device := fun heq => (beq_eq_false_iff_ne.1 hother) heq.symm
      have hread : s.read device k (fun reg => reg.onCallState device nowMs report) = some t := h
      exact of_read hdev (fun reg => Registry.get_modify_of_ne hne _) hread
  | dropReaped device =>
      have hne : driven ≠ device := fun heq => (beq_eq_false_iff_ne.1 hother) heq.symm
      simp only [step] at h
      split at h
      · refine (of_hubStep h hdev hne).trans
          { refl hdev with
            daemon := ⟨rfl, rfl, Hub.conn_dropDevice_of_ne hne, rfl, rfl⟩
            reaped := ?_ }
        simp [hne]
      · simp at h
  | hub device a n =>
      have hne : driven ≠ device := fun heq => (beq_eq_false_iff_ne.1 hother) heq.symm
      simp only [step] at h
      split at h
      · exact of_hubStep h hdev hne
      · simp at h
  | reap _ | dial _ _ | answer | hangup _ | callEnded _ | wait _ _ | poll _ _ | look _ =>
      simp [PhonesLabel.sparesOthers, PhonesLabel.device] at hother

end SameFor

/-! ## What the other phones leave behind -/

/-- What a handler's section leaves. -/
theorem advance_eq_some (h : step s (.advance device k nowMs n) = some t) :
    ∃ x x' d, s.handler device k = some x ∧
      x.advance nowMs (drawing s.daemon n) = some (x', d) ∧ t.daemon = d ∧
      t.sockets = Function.update s.sockets device ((s.sockets device).set k x') ∧
      t.cleanups = s.cleanedUp device k x := by
  simp only [step] at h
  split at h
  · rename_i x hhandler
    split at h
    · rename_i x' d hadv
      refine ⟨x, x', d, hhandler, hadv, ?_⟩
      split at h
      · obtain ⟨-, -, hub, -, rfl⟩ := hubStep_eq_some h
        exact ⟨rfl, rfl, rfl⟩
      · obtain rfl := Option.some.inj h
        exact ⟨rfl, rfl, rfl⟩
    · simp at h
  · simp at h

/-- What a step does to the sockets, to the record of the aborts and to that of the hangups. -/
theorem step_cases {a : PhonesLabel} (h : step s a = some t) :
    (t.daemon.abortedBy = s.daemon.abortedBy ∧ t.sockets = s.sockets ∧
        t.cleanups = s.cleanups) ∨
      (∃ device hs, t.daemon.abortedBy = s.daemon.abortedBy ∧
        t.sockets = Function.update s.sockets device hs ∧ t.cleanups = s.cleanups ∧
        ∀ (k : Nat) (x : Handler), hs[k]? = some x →
          (s.sockets device)[k]? = some x ∨ x.phase.aborting = false) ∨
      ∃ device k nowMs n x x' d, a = .advance device k nowMs n ∧
        s.handler device k = some x ∧ x.advance nowMs (drawing s.daemon n) = some (x', d) ∧
        t.daemon = d ∧
        t.sockets = Function.update s.sockets device ((s.sockets device).set k x') ∧
        t.cleanups = s.cleanedUp device k x := by
  cases a with
  | hello hello =>
      obtain rfl := Option.some.inj h
      refine Or.inr (Or.inl ⟨hello.deviceId, _, rfl, rfl, rfl, fun k x hk => ?_⟩)
      rcases getElem?_concat_cases hk with hold | ⟨-, rfl⟩
      · exact Or.inl hold
      · exact Or.inr rfl
  | advance device k nowMs n =>
      obtain ⟨x, x', d, hsection⟩ := advance_eq_some h
      exact Or.inr (Or.inr ⟨device, k, nowMs, n, x, x', d, rfl, hsection⟩)
  | stop device k =>
      obtain ⟨x, hstop, rfl⟩ := stop_eq_some h
      refine Or.inr (Or.inl ⟨device, _, rfl, rfl, rfl, fun j y hj => ?_⟩)
      rcases getElem?_set_cases hj with ⟨rfl, rfl⟩ | ⟨-, hold⟩
      · obtain ⟨x₀, -, hx⟩ := Option.bind_eq_some_iff.1 hstop
        exact Or.inr (Handler.stop_aborting hx)
      · exact Or.inl hold
  | heartbeat device k nowMs =>
      have hread : s.read device k (fun reg => reg.onHeartbeat device nowMs) = some t := h
      rw [SameFor.read_eq_some hread]
      exact Or.inl ⟨rfl, rfl, rfl⟩
  | callState device k nowMs report =>
      have hread : s.read device k (fun reg => reg.onCallState device nowMs report) = some t := h
      rw [SameFor.read_eq_some hread]
      exact Or.inl ⟨rfl, rfl, rfl⟩
  | dropReaped device =>
      simp only [step] at h
      split at h
      · obtain ⟨-, -, hub, -, rfl⟩ := hubStep_eq_some h
        exact Or.inl ⟨rfl, rfl, rfl⟩
      · simp at h
  | hub device a n =>
      simp only [step] at h
      split at h
      · obtain ⟨-, -, hub, -, rfl⟩ := hubStep_eq_some h
        exact Or.inl ⟨rfl, rfl, rfl⟩
      · simp at h
  | poll now cancel =>
      simp only [step] at h
      split at h
      · obtain rfl := Option.some.inj h
        exact Or.inl ⟨rfl, rfl, rfl⟩
      · simp at h
  | reap _ | dial _ _ | answer | hangup _ | callEnded _ | wait _ _ | look _ =>
      obtain rfl := Option.some.inj h
      exact Or.inl ⟨rfl, rfl, rfl⟩

/-- The abort of the job is not another phone's, and what other phones have still to hang up, or
have hung up, they had to from `s` on. -/
structure Untouched (driven : String) (s t : Phones) : Prop where
  flag : ∀ device ∈ t.daemon.abortedBy, device = driven
  aborting : ∀ device k, device ≠ driven → t.Aborting device k → s.Aborting device k
  cleanups : ∀ c ∈ t.cleanups, c.1 = driven ∨ s.Aborting c.1 c.2

theorem aborting_iff : s.Aborting device k ↔
    ∃ h, (s.sockets device)[k]? = some h ∧ h.hello.deviceId = device ∧ h.phase.aborting = true := by
  constructor
  · rintro ⟨h, hh, habort⟩
    obtain ⟨hk, hdev⟩ := handler_eq_some hh
    exact ⟨h, hk, hdev, habort⟩
  · rintro ⟨h, hk, hdev, habort⟩
    refine ⟨h, ?_, habort⟩
    simp only [handler, hk]
    exact if_pos hdev

/-- A hangup after an abort is that of a handler at it. -/
theorem mem_cleanedUp {c : String × Nat} (hh : s.handler device k = some h)
    (hmem : c ∈ s.cleanedUp device k h) : c ∈ s.cleanups ∨ c = (device, k) ∧ s.Aborting device k := by
  unfold cleanedUp at hmem
  split at hmem
  · rename_i hphase _
    rcases List.mem_append.1 hmem with hold | hnew
    · exact Or.inl hold
    · refine Or.inr ⟨List.mem_singleton.1 hnew, h, hh, ?_⟩
      rw [hphase]
      rfl
  · exact Or.inl hmem

namespace Untouched

theorem begins (hs : Begins driven s) : Untouched driven s s where
  flag := by simp [hs.abortedBy]
  aborting := fun _ _ _ haborting => haborting
  cleanups := by simp [hs.cleanups]

/-- A section of a handler, of another phone with the card free, leaves the others' aborts alone. -/
theorem advance (ht : Untouched driven s t) {x x' : Handler} {d : DaemonState}
    (hspares : Spares driven t (.advance device k nowMs n)) (hh : t.handler device k = some x)
    (hadv : x.advance nowMs (drawing t.daemon n) = some (x', d)) (hdaemon : u.daemon = d)
    (hsockets : u.sockets = Function.update t.sockets device ((t.sockets device).set k x'))
    (hcleanups : u.cleanups = t.cleanedUp device k x) : Untouched driven s u := by
  obtain ⟨hk, hdev⟩ := handler_eq_some hh
  -- an abort that begins here is the driven phone's own
  have habort : d.abortedBy = t.daemon.abortedBy ∧
        (x'.phase.aborting = true → x.phase.aborting = true) ∨
      device = driven ∧ d.abortedBy = t.daemon.abortedBy ++ [device] := by
    rcases Handler.advance_abort hadv with ⟨-, hkeeps⟩ | ⟨hphase, hbusy, hmore⟩
    · exact Or.inl hkeeps
    · refine Or.inr ⟨by_contra fun hne => ?_, hdev ▸ hmore⟩
      simp only [Spares, hh] at hspares
      have hfree : t.daemon.cardBusy = false := hspares hne hphase
      exact Bool.noConfusion (hfree.symm.trans hbusy)
  constructor
  · intro other hmem
    rw [hdaemon] at hmem
    rcases habort with ⟨hsame, -⟩ | ⟨hself, hmore⟩
    · exact ht.flag other (hsame ▸ hmem)
    · rw [hmore] at hmem
      rcases List.mem_append.1 hmem with hold | hnew
      · exact ht.flag other hold
      · exact (List.mem_singleton.1 hnew).trans hself
  · intro other j hne haborting
    refine ht.aborting other j hne ?_
    obtain ⟨y, hy, hydev, hyabort⟩ := aborting_iff.1 haborting
    rw [hsockets] at hy
    by_cases hother : other = device
    · subst hother
      rw [Function.update_self] at hy
      rcases getElem?_set_cases hy with ⟨rfl, rfl⟩ | ⟨-, hold⟩
      · rcases habort with ⟨-, hkeeps⟩ | ⟨hself, -⟩
        -- the handler was aborting before this section
        · exact ⟨x, hh, hkeeps hyabort⟩
        · exact absurd hself hne
      · exact aborting_iff.2 ⟨y, hold, hydev, hyabort⟩
    · rw [Function.update_of_ne hother] at hy
      exact aborting_iff.2 ⟨y, hy, hydev, hyabort⟩
  · intro c hmem
    rw [hcleanups] at hmem
    rcases mem_cleanedUp hh hmem with hold | ⟨rfl, haborting⟩
    · exact ht.cleanups c hold
    · by_cases hself : device = driven
      · exact Or.inl hself
      · exact Or.inr (ht.aborting device k hself haborting)

/-- **A step leaves the job to its phone**, if it does not find another's app relaunched. -/
theorem step (ht : Untouched driven s t) {a : PhonesLabel} (hspares : Spares driven t a)
    (h : t.step a = some u) : Untouched driven s u := by
  rcases step_cases h with ⟨hflag, hsockets, hcleanups⟩ |
    ⟨device, hs, hflag, hsockets, hcleanups, hold⟩ |
    ⟨device, k, nowMs, n, x, x', d, rfl, hh, hadv, hdaemon, hsockets, hcleanups⟩
  · constructor
    · rw [hflag]
      exact ht.flag
    · intro other j hne haborting
      refine ht.aborting other j hne ?_
      rw [aborting_iff, hsockets] at haborting
      exact aborting_iff.2 haborting
    · rw [hcleanups]
      exact ht.cleanups
  · constructor
    · rw [hflag]
      exact ht.flag
    · intro other j hne haborting
      refine ht.aborting other j hne ?_
      obtain ⟨y, hy, hydev, hyabort⟩ := aborting_iff.1 haborting
      rw [hsockets] at hy
      by_cases hother : other = device
      · subst hother
        rw [Function.update_self] at hy
        rcases hold j y hy with hsame | hquiet
        · exact aborting_iff.2 ⟨y, hsame, hydev, hyabort⟩
        · simp [hquiet] at hyabort
      · rw [Function.update_of_ne hother] at hy
        exact aborting_iff.2 ⟨y, hy, hydev, hyabort⟩
    · rw [hcleanups]
      exact ht.cleanups
  · exact ht.advance hspares hh hadv hdaemon hsockets hcleanups

end Untouched

/-- An abort stays on record. -/
theorem abortedBy_step {a : PhonesLabel} (h : step s a = some t) :
    s.daemon.abortedBy ⊆ t.daemon.abortedBy := by
  rcases step_cases h with ⟨hflag, -⟩ | ⟨device, hs, hflag, -⟩ |
    ⟨device, k, nowMs, n, x, x', d, -, -, hadv, hdaemon, -⟩
  · rw [hflag]
    exact fun _ hmem => hmem
  · rw [hflag]
    exact fun _ hmem => hmem
  · rw [hdaemon]
    rcases Handler.advance_abort hadv with ⟨-, hsame, -⟩ | ⟨-, -, hmore⟩
    · rw [hsame]
      exact fun _ hmem => hmem
    · rw [hmore]
      exact List.subset_append_left _ _

/-- A step that finds another phone's app relaunched sets the flag. -/
theorem spares_of_flag {a : PhonesLabel} (h : step s a = some t)
    (hflag : ∀ device ∈ t.daemon.abortedBy, device = driven) : Spares driven s a := by
  cases a with
  | advance device k nowMs n =>
      obtain ⟨x, x', d, hh, hadv, hdaemon, -, -⟩ := advance_eq_some h
      simp only [Spares, hh]
      intro hne hphase
      rcases Handler.advance_abort hadv with ⟨hnot, -, -⟩ | ⟨-, -, hmore⟩
      · exact Bool.eq_false_iff.2 fun hbusy => hnot ⟨hphase, hbusy⟩
      · refine absurd ?_ hne
        rw [← (handler_eq_some hh).2]
        refine hflag _ ?_
        rw [hdaemon, hmore]
        exact List.mem_append_right _ (List.mem_singleton.2 rfl)
  | _ => trivial

/-- **When a job and another phone are apart.** From the beginning of a job on, whatever else the
daemon is doing then: in a run no other phone sets the job's abort flag, changes what the job gets
to know or is told to hang up exactly when no other phone's handler reaches the abort check having
found its app relaunched while the card is held. -/
theorem apart_iff (driven : String) (s t : Phones) (run : List PhonesLabel)
    (hs : Begins driven s) (hrun : machine.run s run = some t) :
    Apart driven s t run ↔ machine.Meets (Spares driven) s run := by
  constructor
  · intro hapart
    -- an abort stays on record, so that the flag is clean all along the run
    have hback : ∀ u a v, machine.step u a = some v →
        (∀ device ∈ v.daemon.abortedBy, device = driven) →
        (∀ device ∈ u.daemon.abortedBy, device = driven) ∧ Spares driven u a :=
      fun u a v hstep hflag =>
        ⟨fun device hmem => hflag device (abortedBy_step hstep hmem), spares_of_flag hstep hflag⟩
    exact (Machine.meets_of_run hback hrun hapart.flag).2
  · intro hspares
    have huntouched : Untouched driven s t :=
      Machine.run_preserves (fun _ _ _ hu hok hstep => hu.step hok hstep) (Untouched.begins hs)
        hspares hrun
    -- the run and its part for the phone go side by side, alike to the job at each step
    have hown : ∀ u u' a v, SameFor driven u u' → PhonesLabel.sparesOthers driven a = true →
        machine.step u a = some v → ∃ v', machine.step u' a = some v' ∧ SameFor driven v v' :=
      fun u u' a v hu hown hstep => hu.step_own hown hstep
    have hother : ∀ u u' a v, SameFor driven u u' → PhonesLabel.sparesOthers driven a = false →
        Spares driven u a → machine.step u a = some v → SameFor driven v u' :=
      fun u u' a v hu hother hok hstep =>
        (SameFor.step_other hu.device hother hok hstep).trans hu
    obtain ⟨t', hrun', halike⟩ :=
      Machine.run_filter hown hother (SameFor.refl hs.device) hspares hrun
    refine ⟨huntouched.flag, ⟨t', hrun', ?_⟩, huntouched.cleanups⟩
    refine ⟨halike.observed.symm, halike.daemon.jobAbort.symm, fun i => ?_⟩
    rw [halike.hub]

/-- A daemon on which a job has begun to drive a phone. -/
def driving (driven : String) : Phones where
  daemon := { DaemonState.start with cardBusy := true }
  hubs := fun _ => .new
  sockets := fun _ => []
  reaped := []
  gens := []
  ids := []
  job := .new driven false 0
  wait := none
  observed := []
  cleanups := []

theorem begins_driving (driven : String) : Begins driven (driving driven) :=
  ⟨rfl, rfl, rfl, rfl, rfl, rfl⟩

/-- A phone connects by its socket `k`. -/
def connects (device instanceId : String) (k gen : Nat) : List PhonesLabel :=
  .hello ⟨device, "phone", instanceId, "10.0.0.2"⟩ ::
    List.replicate 6 (.advance device k 0 gen)

/-- Another phone connects, and reports a call of its own that comes and goes while the job dials. -/
def otherCall : List PhonesLabel :=
  connects "a" "i1" 0 1 ++ connects "b" "i1" 0 2 ++
    [.dial 1 "100", .hub "a" (.command "a" (.dial "100" none)) 0,
      .callState "b" 0 0 ⟨"y", .active, none, .incoming⟩,
      .callState "a" 0 0 ⟨"x", .active, none, .outgoing⟩, .callEnded 2,
      .callState "b" 0 0 ⟨"y", .ended, none, .incoming⟩, .stop "b" 0, .callEnded 3]

theorem apart_otherCall : ∃ t, machine.run (driving "a") otherCall = some t ∧
    Apart "a" (driving "a") t otherCall := by
  have hsome : (machine.run (driving "a") otherCall).isSome = true := rfl
  obtain ⟨t, hrun⟩ := Option.isSome_iff_exists.1 hsome
  exact ⟨t, hrun, (apart_iff "a" _ t _ (begins_driving "a") hrun).2 (by decide)⟩

/-- Another phone's app is relaunched while the job runs. -/
def otherRelaunch : List PhonesLabel :=
  connects "a" "i1" 0 1 ++ connects "b" "i1" 0 2 ++ [.dial 1 "100"] ++ connects "b" "i2" 1 3 ++
    [.look false]

theorem otherRelaunch_aborts : ((machine.run (driving "a") otherRelaunch).map fun t =>
    (t.daemon.abortedBy, t.observed, t.daemon.fired)) =
      some (["b"], [.cancelled true], [("b", .hangup none)]) := rfl

theorem exists_not_apart : ∃ s t run, Begins "a" s ∧ machine.run s run = some t ∧
    ¬ Apart "a" s t run := by
  obtain ⟨t, hrun, hends⟩ := Option.map_eq_some_iff.1 otherRelaunch_aborts
  refine ⟨driving "a", t, otherRelaunch, begins_driving "a", hrun, fun hapart => ?_⟩
  have hflag : t.daemon.abortedBy = ["b"] := congrArg Prod.fst hends
  have hself : "b" = "a" := hapart.flag "b" (by rw [hflag]; exact List.mem_singleton.2 rfl)
  exact absurd hself (by decide)

end Phones

end DialF.Daemon
