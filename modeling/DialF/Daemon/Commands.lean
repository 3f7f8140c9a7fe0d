import Mathlib.Data.List.AList
import Mathlib.Data.List.Perm.Basic
import Std.Data.String.ToNat
import DialF.Lib.Machine
import DialF.Lib.Table
import DialF.Daemon.Protocol

/-!
# Commands and their acks

`Hub::command` looks a connection up, takes a number, parks a waiter in the connection's ack table,
puts a frame in its send queue and awaits the ack. Acks, superseding connections, disconnects and
timeouts work on the same tables, and each access to a table or to the map of connections is a step
of its own here, so that every order of them is a run. A waiter that is taken out of a table is
settled by a later step.

The ack tables of all connections, superseded ones included, are one list of waiters that carry
their connection's generation. `acked` and `resolved` record, for the theorems, the acks that took a
waiter and the ids that were settled.

`ackCorrect_of_reach` is the result: an `Ok` answers an ack of the command's own, no id is settled
twice, no ack settles another command, and no waiter outlives its command.
-/

set_option autoImplicit false

namespace DialF.Daemon

open DialF.Lib

/-- What is sent to a waiter: the phone's outcome, or why there is none. -/
inductive Ack where
  | ok
  | err (msg : String)
  deriving DecidableEq

/-- What `command` returns. The sender of a waiter is never dropped unused, so that arm of the
source has no counterpart. -/
inductive Outcome where
  | ok
  | notConnected
  | channelClosed
  | reported (msg : String)
  | timedOut
  deriving DecidableEq

/-- The outcome of a settled waiter. -/
def Ack.outcome : Ack → Outcome
  | .ok => .ok
  | .err msg => .reported msg

/-- A waiter in an ack table: the table's connection, the id, and the command that waits. -/
structure Waiter where
  gen : Nat
  cmdId : String
  cmd : Nat
  deriving DecidableEq

/-- How far a command has come. -/
inductive CommandPhase where
  | called
  | looked (gen : Nat)
  | numbered (gen : Nat) (cmdId : String)
  | pending (gen : Nat) (cmdId : String)
  | sendFailed (gen : Nat) (cmdId : String)
  | sent (gen : Nat) (cmdId : String)
  | timedOut (gen : Nat) (cmdId : String)
  | returned (cmdId : Option String) (outcome : Outcome)
  deriving DecidableEq

namespace CommandPhase

/-- The id, from its number on. -/
def cmdId : CommandPhase → Option String
  | .numbered _ k | .pending _ k | .sendFailed _ k | .sent _ k | .timedOut _ k => some k
  | .returned k _ => k
  | _ => none

/-- The id, from the moment on that it stands in a table. -/
def inserted : CommandPhase → Option String
  | .pending _ k | .sendFailed _ k | .sent _ k | .timedOut _ k => some k
  | .returned k _ => k
  | _ => none

/-- The table and the id under which the command still waits. -/
def waits : CommandPhase → Option (Nat × String)
  | .pending g k | .sendFailed g k | .sent g k | .timedOut g k => some (g, k)
  | _ => none

/-- The command has not returned. -/
def isOutstanding : CommandPhase → Bool
  | .returned _ _ => false
  | _ => true

end CommandPhase

/-- A command future, and the oneshot that its waiter sends to. -/
structure Command where
  device : String
  action : Action
  phase : CommandPhase
  slot : Option Ack
  deriving DecidableEq

/-- A frame in a connection's send queue. -/
structure CmdFrame where
  gen : Nat
  cmdId : String
  action : Action
  deriving DecidableEq

/-- A `resolve_ack` that has looked its connection up. -/
structure Lookup where
  gen : Nat
  cmdId : String
  ack : Ack
  deriving DecidableEq

/-- A `resolve_ack` that has taken a waiter and not yet settled it. -/
structure Delivery where
  waiter : Waiter
  ack : Ack
  deriving DecidableEq

/-- An ack that took a waiter: the id it named, what it said, and the waiting command as it was. -/
structure AckRecord where
  cmdId : String
  ack : Ack
  cmd : Nat
  phase : CommandPhase
  deriving DecidableEq

/-- The hub, its commands, and the acks under way. -/
structure CommandHub where
  conns : AList fun _ : String => Nat
  connGen : Nat
  seq : Nat
  closed : List Nat
  acks : List Waiter
  draining : List (Nat × String)
  commands : List Command
  lookups : List Lookup
  deliveries : List Delivery
  frames : List CmdFrame
  acked : List AckRecord
  resolved : List String

/-- What can happen to the commands and to the connections that carry them. -/
inductive CommandLabel where
  | register (device : String)
  | unregister (device : String) (gen : Nat)
  | dropDevice (device : String)
  | drain (j : Nat)
  | closeChannel (gen : Nat)
  | command (device : String) (action : Action)
  | lookup (i : Nat)
  | number (i : Nat)
  | insert (i : Nat)
  | send (i : Nat)
  | await (i : Nat)
  | timeout (i : Nat)
  | cleanup (i : Nat)
  | fire (device : String) (action : Action)
  | ack (device cmdId : String) (ack : Ack)
  | take (j : Nat)
  | deliver (j : Nat)

namespace CommandHub

/-- An empty hub; ids and generations start at 1. -/
def new : CommandHub := ⟨∅, 1, 1, [], [], [], [], [], [], [], [], []⟩

/-- `next_cmd_id`, from the number it takes. -/
def cmdIdOf (n : Nat) : String := "c-" ++ n.repr

/-- Put the command in another phase. -/
def goTo (s : CommandHub) (i : Nat) (c : Command) (phase : CommandPhase) : CommandHub :=
  { s with commands := s.commands.set i { c with phase := phase } }

/-- Send to the waiters of commands. -/
def settle (commands : List Command) (is : List Nat) (ack : Ack) : List Command :=
  is.foldl (fun cs i => cs.modify i fun c => { c with slot := some ack }) commands

/-- Take an id out of a connection's table. -/
def removeAck (s : CommandHub) (gen : Nat) (cmdId : String) : List Waiter :=
  s.acks.filter fun w => !(w.gen == gen && w.cmdId == cmdId)

/-- A connection that is no longer the device's: its waiters are to be told why. -/
def retire (s : CommandHub) (gen : Option Nat) (reason : String) : List (Nat × String) :=
  s.draining ++ (gen.map (·, reason)).toList

/-- One step of the command `i`. -/
def advance (s : CommandHub) (i : Nat) (c : Command) : CommandLabel → Option CommandHub
  | .lookup _ =>
      match c.phase with
      | .called =>
          match s.conns.lookup c.device with
          | some gen => some (s.goTo i c (.looked gen))
          | none => some (s.goTo i c (.returned none .notConnected))
      | _ => none
  -- the connection that was looked up is kept, whether or not it is still the device's
  | .number _ =>
      match c.phase with
      | .looked gen =>
          some { s.goTo i c (.numbered gen (cmdIdOf s.seq)) with seq := s.seq + 1 }
      | _ => none
  | .insert _ =>
      match c.phase with
      | .numbered gen k =>
          some { s.goTo i c (.pending gen k) with acks := s.removeAck gen k ++ [⟨gen, k, i⟩] }
      | _ => none
  | .send _ =>
      match c.phase with
      | .pending gen k =>
          -- the waiter stays in the table until `cleanup`
          if gen ∈ s.closed then some (s.goTo i c (.sendFailed gen k))
          else some { s.goTo i c (.sent gen k) with frames := s.frames ++ [⟨gen, k, c.action⟩] }
      | _ => none
  | .await _ =>
      match c.phase, c.slot with
      | .sent _ k, some ack => some (s.goTo i c (.returned (some k) ack.outcome))
      | _, _ => none
  -- the timer is looked at only when the waiter has nothing
  | .timeout _ =>
      match c.phase, c.slot with
      | .sent gen k, none => some (s.goTo i c (.timedOut gen k))
      | _, _ => none
  | .cleanup _ =>
      match c.phase with
      | .sendFailed gen k =>
          some { s.goTo i c (.returned (some k) .channelClosed) with acks := s.removeAck gen k }
      | .timedOut gen k =>
          some { s.goTo i c (.returned (some k) .timedOut) with acks := s.removeAck gen k }
      | _ => none
  | _ => none

/-- The step of a label that belongs to the command `i`. -/
def stepCommand (s : CommandHub) (i : Nat) (a : CommandLabel) : Option CommandHub :=
  match s.commands[i]? with
  | some c => s.advance i c a
  | none => none

/-- One step of the hub. -/
def step (s : CommandHub) : CommandLabel → Option CommandHub
  | .register device =>
      some { s with
        conns := s.conns.insert device s.connGen
        connGen := s.connGen + 1
        draining := s.retire (s.conns.lookup device) "connection superseded" }
  | .unregister device gen =>
      -- a newer connection owns the device otherwise, and is left alone
      if s.conns.lookup device = some gen then
        some { s with
          conns := s.conns.erase device
          draining := s.retire (some gen) "device disconnected" }
      else some s
  | .dropDevice device =>
      some { s with
        conns := s.conns.erase device
        draining := s.retire (s.conns.lookup device) "device disconnected" }
  | .drain j =>
      match s.draining[j]? with
      | some (gen, reason) =>
          -- every waiter of the table, whatever its command has come to by now
          let ws := s.acks.filter fun w => w.gen == gen
          some { s with
            draining := s.draining.eraseIdx j
            acks := s.acks.filter fun w => !(w.gen == gen)
            commands := settle s.commands (ws.map Waiter.cmd) (.err reason)
            resolved := s.resolved ++ ws.map Waiter.cmdId }
      | none => none
  | .closeChannel gen => some { s with closed := gen :: s.closed }
  | .command device action =>
      some { s with commands := s.commands ++ [⟨device, action, .called, none⟩] }
  | .lookup i => s.stepCommand i (.lookup i)
  | .number i => s.stepCommand i (.number i)
  | .insert i => s.stepCommand i (.insert i)
  | .send i => s.stepCommand i (.send i)
  | .await i => s.stepCommand i (.await i)
  | .timeout i => s.stepCommand i (.timeout i)
  | .cleanup i => s.stepCommand i (.cleanup i)
  | .fire device action =>
      match s.conns.lookup device with
      | some gen =>
          some { s with
            -- a number is taken and no waiter is parked
            seq := s.seq + 1
            frames :=
              if gen ∈ s.closed then s.frames
              else s.frames ++ [⟨gen, cmdIdOf s.seq, action⟩] }
      | none => some s
  | .ack device k ack =>
      match s.conns.lookup device with
      | some gen => some { s with lookups := s.lookups ++ [⟨gen, k, ack⟩] }
      | none => some s
  | .take j =>
      match s.lookups[j]? with
      | some l =>
          -- the table of the connection that was looked up, superseded or not
          match s.acks.find? fun w => w.gen == l.gen && w.cmdId == l.cmdId with
          | some w =>
              some { s with
                lookups := s.lookups.eraseIdx j
                acks := s.removeAck l.gen l.cmdId
                deliveries := s.deliveries ++ [⟨w, l.ack⟩]
                acked := s.acked ++
                  ((s.commands[w.cmd]?).map fun c => ⟨l.cmdId, l.ack, w.cmd, c.phase⟩).toList }
          | none => some { s with lookups := s.lookups.eraseIdx j }
      | none => none
  | .deliver j =>
      match s.deliveries[j]? with
      | some d =>
          some { s with
            deliveries := s.deliveries.eraseIdx j
            commands := settle s.commands [d.waiter.cmd] d.ack
            resolved := s.resolved ++ [d.waiter.cmdId] }
      | none => none

/-- The runs of a hub from its start. -/
def machine : Machine CommandHub CommandLabel where
  Init s := s = new
  step := step

/-- An ack that says `ok` took the waiter of the command `i` while that was outstanding. -/
def AckedOk (s : CommandHub) (i : Nat) (k : String) : Prop :=
  ∃ r ∈ s.acked, r.cmd = i ∧ r.cmdId = k ∧ r.ack = .ok ∧ r.phase.isOutstanding = true ∧
    r.phase.cmdId = some k

/-- **Acks are correct.** -/
structure AckCorrect (s : CommandHub) : Prop where
  /-- A command returns `Ok` only on an ack of its own, processed while it was pending. -/
  okAcked : ∀ (i : Nat) (c : Command) (k : Option String), s.commands[i]? = some c →
    c.phase = .returned k .ok → ∃ id, k = some id ∧ s.AckedOk i id
  /-- No id is settled twice. -/
  once : s.resolved.Nodup
  /-- An ack takes the waiter of the command it names. -/
  own : ∀ r ∈ s.acked, ∃ c, s.commands[r.cmd]? = some c ∧ c.phase.cmdId = some r.cmdId
  /-- No waiter outlives its command. -/
  noLeak : (∀ c ∈ s.commands, c.phase.isOutstanding = false) → s.acks = []

/-! ## The invariant -/

/-- The command `i` has put its waiter `k` into a table. -/
def Inserted (s : CommandHub) (i : Nat) (k : String) : Prop :=
  ∃ c, s.commands[i]? = some c ∧ c.phase.inserted = some k

/-- The ids that are settled, being settled, or in a table. -/
def ids (s : CommandHub) : List String :=
  s.resolved ++ (s.deliveries.map (·.waiter.cmdId) ++ s.acks.map Waiter.cmdId)

/-- What holds of the commands throughout: ids are used once, and who waits is known by its id. -/
structure Inv (s : CommandHub) : Prop where
  numbered : ∀ (i : Nat) (c : Command) (k : String), s.commands[i]? = some c →
    c.phase.cmdId = some k → ∃ n, n < s.seq ∧ k = cmdIdOf n
  distinct : ∀ (i j : Nat) (c d : Command) (k : String), s.commands[i]? = some c →
    s.commands[j]? = some d → c.phase.cmdId = some k → d.phase.cmdId = some k → i = j
  waiting : ∀ w ∈ s.acks, ∃ c, s.commands[w.cmd]? = some c ∧
    c.phase.waits = some (w.gen, w.cmdId)
  delivering : ∀ d ∈ s.deliveries, s.Inserted d.waiter.cmd d.waiter.cmdId ∧
    (d.ack = .ok → s.AckedOk d.waiter.cmd d.waiter.cmdId)
  settled : ∀ k ∈ s.resolved, ∃ i, s.Inserted i k
  once : s.ids.Nodup
  slot : ∀ (i : Nat) (c : Command), s.commands[i]? = some c → c.slot ≠ none →
    ∃ k ∈ s.resolved, c.phase.inserted = some k
  slotOk : ∀ (i : Nat) (c : Command), s.commands[i]? = some c → c.slot = some .ok →
    ∃ k, c.phase.inserted = some k ∧ s.AckedOk i k
  okAcked : ∀ (i : Nat) (c : Command) (k : Option String), s.commands[i]? = some c →
    c.phase = .returned k .ok → ∃ id, k = some id ∧ s.AckedOk i id
  own : ∀ r ∈ s.acked, s.Inserted r.cmd r.cmdId

variable {s t : CommandHub} {i : Nat} {c : Command}

theorem cmdIdOf_injective : Function.Injective cmdIdOf := by
  intro m n h
  exact Nat.repr_injective (String.append_right_inj _ |>.1 h)

theorem cmdId_of_inserted {p : CommandPhase} {k : String} (h : p.inserted = some k) :
    p.cmdId = some k := by
  cases p with
  | pending _ _ | sendFailed _ _ | sent _ _ | timedOut _ _ | returned _ _ => exact h
  | called | looked _ | numbered _ _ => simp [CommandPhase.inserted] at h

theorem inserted_of_waits {p : CommandPhase} {g : Nat} {k : String} (h : p.waits = some (g, k)) :
    p.inserted = some k := by
  cases p with
  | pending _ _ | sendFailed _ _ | sent _ _ | timedOut _ _ =>
      simp only [CommandPhase.waits, Option.some.injEq, Prod.mk.injEq] at h
      simp only [CommandPhase.inserted, h.2]
  | called | looked _ | numbered _ _ | returned _ _ => simp [CommandPhase.waits] at h

theorem isOutstanding_of_waits {p : CommandPhase} {x : Nat × String} (h : p.waits = some x) :
    p.isOutstanding = true := by
  cases p with
  | returned _ _ => simp [CommandPhase.waits] at h
  | _ => rfl

theorem inv_new : Inv new where
  numbered := by simp [new]
  distinct := by simp [new]
  waiting := by simp [new]
  delivering := by simp [new]
  settled := by simp [new]
  once := by simp [new, ids]
  slot := by simp [new]
  slotOk := by simp [new]
  okAcked := by simp [new]
  own := by simp [new]

/-- **The invariant says that acks are correct.** -/
theorem Inv.ackCorrect (hI : Inv s) : AckCorrect s where
  okAcked := hI.okAcked
  once := hI.once.of_append_left
  own := by
    intro r hr
    obtain ⟨c, hc, hk⟩ := hI.own r hr
    exact ⟨c, hc, cmdId_of_inserted hk⟩
  noLeak := by
    intro hall
    apply List.eq_nil_iff_forall_not_mem.2
    intro w hw
    obtain ⟨c, hc, hwaits⟩ := hI.waiting w hw
    have hout := isOutstanding_of_waits hwaits
    rw [hall c (List.mem_of_getElem? hc)] at hout
    exact absurd hout (by simp)

/-! ## What a step keeps -/

/-- A step that leaves the commands, their waiters and what was settled as they are. -/
theorem Inv.of_eq (hI : Inv s) (hseq : s.seq ≤ t.seq) (hcommands : t.commands = s.commands)
    (hacks : t.acks = s.acks) (hdeliveries : t.deliveries = s.deliveries)
    (hacked : t.acked = s.acked) (hresolved : t.resolved = s.resolved) : Inv t := by
  have hins : ∀ i k, t.Inserted i k ↔ s.Inserted i k := by
    intro i k
    rw [Inserted, Inserted, hcommands]
  have hok : ∀ i k, t.AckedOk i k ↔ s.AckedOk i k := by
    intro i k
    rw [AckedOk, AckedOk, hacked]
  constructor
  · intro i c k hi hk
    rw [hcommands] at hi
    obtain ⟨n, hn, hkn⟩ := hI.numbered i c k hi hk
    exact ⟨n, by omega, hkn⟩
  · rw [hcommands]
    exact hI.distinct
  · rw [hacks, hcommands]
    exact hI.waiting
  · simp only [hdeliveries, hins, hok]
    exact hI.delivering
  · simp only [hresolved, hins]
    exact hI.settled
  · rw [ids, hresolved, hdeliveries, hacks]
    exact hI.once
  · rw [hcommands, hresolved]
    exact hI.slot
  · simp only [hcommands, hok]
    exact hI.slotOk
  · simp only [hcommands, hok]
    exact hI.okAcked
  · simp only [hacked, hins]
    exact hI.own

theorem inserted_goTo {p : CommandPhase} (hi : s.commands[i]? = some c)
    (hins : ∀ k, c.phase.inserted = some k → p.inserted = some k) {j : Nat} {k : String}
    (h : s.Inserted j k) : (s.goTo i c p).Inserted j k := by
  obtain ⟨d, hd, hk⟩ := h
  by_cases hij : i = j
  · subst hij
    obtain rfl := Option.some.inj (hi.symm.trans hd)
    exact ⟨{ c with phase := p }, getElem?_set_self_of_some hi, hins k hk⟩
  · refine ⟨d, ?_, hk⟩
    rw [goTo, List.getElem?_set_ne hij]
    exact hd

/-- A command goes on: its id stays or is the next one, and it waits where its waiter stands. -/
theorem Inv.goTo (hI : Inv s) {p : CommandPhase} {acks : List Waiter} {seq : Nat}
    {frames : List CmdFrame} (hi : s.commands[i]? = some c) (hseq : s.seq ≤ seq)
    (hid : ∀ k, p.cmdId = some k → c.phase.cmdId = some k ∨ k = cmdIdOf s.seq ∧ s.seq < seq)
    (hins : ∀ k, c.phase.inserted = some k → p.inserted = some k)
    (hacks : acks.Sublist s.acks)
    (hwaits : ∀ w ∈ acks, c.phase.waits = some (w.gen, w.cmdId) → p.waits = some (w.gen, w.cmdId))
    (hok : ∀ k, p = .returned k .ok → c.slot = some .ok ∧ c.phase.inserted = k) :
    Inv { s.goTo i c p with acks := acks, seq := seq, frames := frames } := by
  have hgo : ∀ j k, s.Inserted j k → (s.goTo i c p).Inserted j k :=
    fun j k => inserted_goTo hi hins
  -- the number that comes next is of no command yet
  have hfresh : ∀ (j : Nat) (d : Command), s.commands[j]? = some d →
      d.phase.cmdId ≠ some (cmdIdOf s.seq) := by
    intro j d hd hk
    obtain ⟨n, hn, heq⟩ := hI.numbered j d _ hd hk
    exact absurd (cmdIdOf_injective heq) (by omega)
  constructor
  · intro j d k hd hk
    rcases getElem?_set_cases hd with ⟨rfl, rfl⟩ | ⟨-, hold⟩
    · rcases hid k hk with hk | ⟨rfl, hlt⟩
      · obtain ⟨n, hn, hkn⟩ := hI.numbered j c k hi hk
        exact ⟨n, by simp only; omega, hkn⟩
      · exact ⟨s.seq, hlt, rfl⟩
    · obtain ⟨n, hn, hkn⟩ := hI.numbered j d k hold hk
      exact ⟨n, by simp only; omega, hkn⟩
  · intro j l d e k hd he hdk hek
    rcases getElem?_set_cases hd with ⟨rfl, rfl⟩ | ⟨-, hd'⟩
    · rcases getElem?_set_cases he with ⟨rfl, rfl⟩ | ⟨-, he'⟩
      · rfl
      · rcases hid k hdk with hck | ⟨rfl, -⟩
        · exact hI.distinct j l c e k hi he' hck hek
        · exact absurd hek (hfresh l e he')
    · rcases getElem?_set_cases he with ⟨rfl, rfl⟩ | ⟨-, he'⟩
      · rcases hid k hek with hck | ⟨rfl, -⟩
        · exact hI.distinct j l d c k hd' hi hdk hck
        · exact absurd hdk (hfresh j d hd')
      · exact hI.distinct j l d e k hd' he' hdk hek
  · intro w hw
    obtain ⟨d, hd, hwait⟩ := hI.waiting w (hacks.subset hw)
    by_cases hwi : i = w.cmd
    · subst hwi
      obtain rfl := Option.some.inj (hi.symm.trans hd)
      exact ⟨{ c with phase := p }, getElem?_set_self_of_some hi, hwaits w hw hwait⟩
    · exact ⟨d, by rw [← hd]; exact List.getElem?_set_ne hwi, hwait⟩
  · intro d hd
    exact ⟨hgo _ _ (hI.delivering d hd).1, (hI.delivering d hd).2⟩
  · intro k hk
    obtain ⟨j, hj⟩ := hI.settled k hk
    exact ⟨j, hgo j k hj⟩
  · exact hI.once.sublist ((List.Sublist.refl _).append ((List.Sublist.refl _).append (hacks.map _)))
  · intro j d hd hslot
    rcases getElem?_set_cases hd with ⟨rfl, rfl⟩ | ⟨-, hd⟩
    · obtain ⟨k, hk, hck⟩ := hI.slot j c hi hslot
      exact ⟨k, hk, hins k hck⟩
    · exact hI.slot j d hd hslot
  · intro j d hd hslot
    rcases getElem?_set_cases hd with ⟨rfl, rfl⟩ | ⟨-, hd⟩
    · obtain ⟨k, hck, hack⟩ := hI.slotOk j c hi hslot
      exact ⟨k, hins k hck, hack⟩
    · exact hI.slotOk j d hd hslot
  · intro j d k hd hp
    rcases getElem?_set_cases hd with ⟨rfl, rfl⟩ | ⟨-, hd⟩
    · obtain ⟨hslot, hck⟩ := hok k hp
      obtain ⟨id, hid, hack⟩ := hI.slotOk j c hi hslot
      exact ⟨id, hck.symm.trans hid, hack⟩
    · exact hI.okAcked j d k hd hp
  · intro r hr
    exact hgo _ _ (hI.own r hr)

/-! ## Waiters that move -/

theorem getElem?_settle (commands : List Command) (is : List Nat) (ack : Ack) (i : Nat) :
    (settle commands is ack)[i]? =
      (commands[i]?).map fun c => if i ∈ is then { c with slot := some ack } else c := by
  induction is generalizing commands with
  | nil => simp [settle]
  | cons j is ih =>
      have hfold : settle commands (j :: is) ack =
          settle (commands.modify j fun c => { c with slot := some ack }) is ack := rfl
      rw [hfold, ih, List.getElem?_modify]
      cases hc : commands[i]? with
      | none => rfl
      | some c =>
          by_cases hij : j = i
          · subst hij
            by_cases hmem : j ∈ is <;> simp [hmem]
          · have hne : ¬ i = j := Ne.symm hij
            by_cases hmem : i ∈ is <;> simp [hij, hne, hmem]

/-- A settled command is as it was, its slot apart. -/
theorem of_getElem?_settle {commands : List Command} {is : List Nat} {ack : Ack} {d : Command}
    (h : (settle commands is ack)[i]? = some d) :
    ∃ c, commands[i]? = some c ∧ d.phase = c.phase ∧
      ((i ∈ is ∧ d.slot = some ack) ∨ (i ∉ is ∧ d.slot = c.slot)) := by
  rw [getElem?_settle] at h
  obtain ⟨c, hc, rfl⟩ := Option.map_eq_some_iff.1 h
  refine ⟨c, hc, ?_, ?_⟩
  · split <;> rfl
  · by_cases hmem : i ∈ is
    · exact Or.inl ⟨hmem, by rw [if_pos hmem]⟩
    · exact Or.inr ⟨hmem, by rw [if_neg hmem]⟩

theorem exists_getElem?_settle {commands : List Command} (is : List Nat) (ack : Ack)
    (h : commands[i]? = some c) :
    ∃ d, (settle commands is ack)[i]? = some d ∧ d.phase = c.phase := by
  rw [getElem?_settle, h]
  refine ⟨_, rfl, ?_⟩
  split <;> rfl

/-- Waiters that are no longer to be settled are: whether drained from a table or taken by an ack. -/
theorem Inv.settle (hI : Inv s) {ws : List Waiter} {ack : Ack} {acks : List Waiter}
    {deliveries : List Delivery} {draining : List (Nat × String)}
    (hacks : ∀ w ∈ acks, w ∈ s.acks) (hdeliveries : ∀ d ∈ deliveries, d ∈ s.deliveries)
    (hws : ∀ w ∈ ws, s.Inserted w.cmd w.cmdId ∧ (ack = .ok → s.AckedOk w.cmd w.cmdId))
    (honce : ((s.resolved ++ ws.map Waiter.cmdId) ++
      (deliveries.map (·.waiter.cmdId) ++ acks.map Waiter.cmdId)).Nodup) :
    Inv { s with
      acks := acks, deliveries := deliveries, draining := draining
      commands := CommandHub.settle s.commands (ws.map Waiter.cmd) ack
      resolved := s.resolved ++ ws.map Waiter.cmdId } := by
  have hins : ∀ (j : Nat) (k : String), s.Inserted j k →
      ∃ c, (CommandHub.settle s.commands (ws.map Waiter.cmd) ack)[j]? = some c ∧
        c.phase.inserted = some k := by
    rintro j k ⟨c, hc, hk⟩
    obtain ⟨d, hd, hphase⟩ := exists_getElem?_settle (ws.map Waiter.cmd) ack hc
    exact ⟨d, hd, hphase ▸ hk⟩
  -- what the slot of a command that was settled just now says of it
  have hnew : ∀ (j : Nat) (c : Command), s.commands[j]? = some c → j ∈ ws.map Waiter.cmd →
      ∃ w ∈ ws, w.cmd = j ∧ c.phase.inserted = some w.cmdId := by
    intro j c hc hmem
    obtain ⟨w, hw, rfl⟩ := List.mem_map.1 hmem
    obtain ⟨d, hd, hk⟩ := (hws w hw).1
    obtain rfl := Option.some.inj (hc.symm.trans hd)
    exact ⟨w, hw, rfl, hk⟩
  constructor
  · intro j d k hd hk
    obtain ⟨c, hc, hphase, -⟩ := of_getElem?_settle hd
    exact hI.numbered j c k hc (hphase ▸ hk)
  · intro j l d e k hd he hdk hek
    obtain ⟨c, hc, hphase, -⟩ := of_getElem?_settle hd
    obtain ⟨c', hc', hphase', -⟩ := of_getElem?_settle he
    exact hI.distinct j l c c' k hc hc' (hphase ▸ hdk) (hphase' ▸ hek)
  · intro w hw
    obtain ⟨c, hc, hwaits⟩ := hI.waiting w (hacks w hw)
    obtain ⟨d, hd, hphase⟩ := exists_getElem?_settle (ws.map Waiter.cmd) ack hc
    exact ⟨d, hd, hphase ▸ hwaits⟩
  · intro d hd
    obtain ⟨hinserted, hok⟩ := hI.delivering d (hdeliveries d hd)
    exact ⟨hins _ _ hinserted, hok⟩
  · intro k hk
    rcases List.mem_append.1 hk with hold | hmem
    · obtain ⟨j, hj⟩ := hI.settled k hold
      exact ⟨j, hins j k hj⟩
    · obtain ⟨w, hw, rfl⟩ := List.mem_map.1 hmem
      exact ⟨w.cmd, hins _ _ (hws w hw).1⟩
  · exact honce
  · intro j d hd hslot
    obtain ⟨c, hc, hphase, ⟨hmem, -⟩ | ⟨-, hsame⟩⟩ := of_getElem?_settle hd
    · obtain ⟨w, hw, -, hk⟩ := hnew j c hc hmem
      exact ⟨w.cmdId, List.mem_append_right _ (List.mem_map_of_mem hw), hphase ▸ hk⟩
    · obtain ⟨k, hk, hck⟩ := hI.slot j c hc (hsame ▸ hslot)
      exact ⟨k, List.mem_append_left _ hk, hphase ▸ hck⟩
  · intro j d hd hslot
    obtain ⟨c, hc, hphase, ⟨hmem, hack⟩ | ⟨-, hsame⟩⟩ := of_getElem?_settle hd
    · obtain ⟨w, hw, rfl, hk⟩ := hnew j c hc hmem
      obtain rfl := Option.some.inj (hack.symm.trans hslot)
      exact ⟨w.cmdId, hphase ▸ hk, (hws w hw).2 rfl⟩
    · obtain ⟨k, hck, hok⟩ := hI.slotOk j c hc (hsame ▸ hslot)
      exact ⟨k, hphase ▸ hck, hok⟩
  · intro j d k hd hp
    obtain ⟨c, hc, hphase, -⟩ := of_getElem?_settle hd
    exact hI.okAcked j c k hc (hphase ▸ hp)
  · intro r hr
    exact hins _ _ (hI.own r hr)

/-- The ids in play belong to commands that have put their waiters into tables. -/
theorem Inv.inserted_of_mem_ids (hI : Inv s) {k : String} (h : k ∈ s.ids) :
    ∃ i, s.Inserted i k := by
  rcases List.mem_append.1 h with hres | hrest
  · exact hI.settled k hres
  rcases List.mem_append.1 hrest with hdel | hack
  · obtain ⟨d, hd, rfl⟩ := List.mem_map.1 hdel
    exact ⟨_, (hI.delivering d hd).1⟩
  · obtain ⟨w, hw, rfl⟩ := List.mem_map.1 hack
    obtain ⟨c, hc, hwaits⟩ := hI.waiting w hw
    exact ⟨w.cmd, c, hc, inserted_of_waits hwaits⟩

/-- A waiter is put into a table under an id that is not in play. -/
theorem Inv.insertAck (hI : Inv s) {gen : Nat} {k : String} (hi : s.commands[i]? = some c)
    (hp : c.phase = .pending gen k) (hfresh : k ∉ s.ids) :
    Inv { s with acks := s.removeAck gen k ++ [⟨gen, k, i⟩] } := by
  have hsub : (s.removeAck gen k).Sublist s.acks := List.filter_sublist
  refine ⟨hI.numbered, hI.distinct, ?_, hI.delivering, hI.settled, ?_, hI.slot, hI.slotOk,
    hI.okAcked, hI.own⟩
  · intro w hw
    rcases List.mem_append.1 hw with hold | hnew
    · exact hI.waiting w (hsub.subset hold)
    · rw [List.mem_singleton.1 hnew]
      exact ⟨c, hi, by rw [hp]; rfl⟩
  · have hless : (s.resolved ++ (s.deliveries.map (·.waiter.cmdId) ++
        (s.removeAck gen k).map Waiter.cmdId)).Sublist s.ids :=
      (List.Sublist.refl _).append ((List.Sublist.refl _).append (hsub.map _))
    rw [ids, List.map_append, ← List.append_assoc, ← List.append_assoc,
      List.append_assoc s.resolved]
    refine List.Nodup.append (hI.once.sublist hless) (List.nodup_singleton _) ?_
    intro id hid hnew
    rw [List.mem_singleton.1 hnew] at hid
    exact hfresh (hless.subset hid)

/-- An ack takes the waiter that stands under its id. -/
theorem Inv.take (hI : Inv s) {l : Lookup} {w : Waiter} {lookups : List Lookup}
    (hw : (s.acks.find? fun w => w.gen == l.gen && w.cmdId == l.cmdId) = some w) :
    Inv { s with
      lookups := lookups
      acks := s.removeAck l.gen l.cmdId
      deliveries := s.deliveries ++ [⟨w, l.ack⟩]
      acked := s.acked ++
        ((s.commands[w.cmd]?).map fun c => ⟨l.cmdId, l.ack, w.cmd, c.phase⟩).toList } := by
  have hmem : w ∈ s.acks := List.mem_of_find?_eq_some hw
  have hmatch := List.find?_some hw
  have hkey : w.gen = l.gen ∧ w.cmdId = l.cmdId := by
    simpa only [Bool.and_eq_true, beq_iff_eq] using hmatch
  obtain ⟨c, hc, hwaits⟩ := hI.waiting w hmem
  have hinserted : s.Inserted w.cmd w.cmdId := ⟨c, hc, inserted_of_waits hwaits⟩
  have hrecord : ((s.commands[w.cmd]?).map fun c =>
      (⟨l.cmdId, l.ack, w.cmd, c.phase⟩ : AckRecord)).toList =
        [⟨l.cmdId, l.ack, w.cmd, c.phase⟩] := by
    rw [hc]
    rfl
  have hmore : ∀ (j : Nat) (k : String), s.AckedOk j k →
      ∃ r ∈ s.acked ++ [⟨l.cmdId, l.ack, w.cmd, c.phase⟩], r.cmd = j ∧ r.cmdId = k ∧
        r.ack = .ok ∧ r.phase.isOutstanding = true ∧ r.phase.cmdId = some k := by
    rintro j k ⟨r, hr, hrest⟩
    exact ⟨r, List.mem_append_left _ hr, hrest⟩
  rw [hrecord]
  refine ⟨hI.numbered, hI.distinct, ?_, ?_, hI.settled, ?_, hI.slot, ?_, ?_, ?_⟩
  · intro v hv
    exact hI.waiting v (List.mem_of_mem_filter hv)
  · intro d hd
    rcases List.mem_append.1 hd with hold | hnew
    · exact ⟨(hI.delivering d hold).1, fun hok => hmore _ _ ((hI.delivering d hold).2 hok)⟩
    · obtain rfl := List.mem_singleton.1 hnew
      refine ⟨hinserted, fun hok => ?_⟩
      exact ⟨_, List.mem_append_right _ (List.mem_singleton.2 rfl), rfl, hkey.2.symm, hok,
        isOutstanding_of_waits hwaits, cmdId_of_inserted (inserted_of_waits hwaits)⟩
  -- the id moves from the table to the deliveries, and stands once as before
  · have hpart : (w :: s.removeAck l.gen l.cmdId).Subperm s.acks := by
      have hsplit := List.filter_append_perm
        (fun w => w.gen == l.gen && w.cmdId == l.cmdId) s.acks
      have hfound : [w].Sublist (s.acks.filter fun w => w.gen == l.gen && w.cmdId == l.cmdId) := by
        rw [List.singleton_sublist, List.mem_filter]
        exact ⟨hmem, hmatch⟩
      exact (hfound.append (List.Sublist.refl _)).subperm.trans hsplit.subperm
    have hids := subperm_map Waiter.cmdId hpart
    rw [ids, List.map_append, List.append_assoc]
    refine nodup_of_subperm ?_ hI.once
    exact (List.subperm_append_left _).2 ((List.subperm_append_left _).2 hids)
  · intro j d hd hslot
    obtain ⟨k, hk, hack⟩ := hI.slotOk j d hd hslot
    exact ⟨k, hk, hmore j k hack⟩
  · intro j d k hd hp
    obtain ⟨id, hid, hack⟩ := hI.okAcked j d k hd hp
    exact ⟨id, hid, hmore j id hack⟩
  · intro r hr
    rcases List.mem_append.1 hr with hold | hnew
    · exact hI.own r hold
    · obtain rfl := List.mem_singleton.1 hnew
      exact ⟨c, hc, by rw [← hkey.2]; exact inserted_of_waits hwaits⟩

/-! ## One step -/

/-- The table without the waiter of a command that gives up keeps no waiter of that command. -/
theorem waits_ne_of_mem_removeAck {gen : Nat} {k : String} (hwaits : c.phase.waits = some (gen, k)) :
    ∀ w ∈ s.removeAck gen k, c.phase.waits ≠ some (w.gen, w.cmdId) := by
  intro w hw heq
  obtain ⟨-, hkey⟩ := List.mem_filter.1 hw
  rw [hwaits, Option.some.injEq, Prod.mk.injEq] at heq
  simp [← heq.1, ← heq.2] at hkey

/-- What a step of a command does, with the branch that it takes. -/
inductive Does (s : CommandHub) (i : Nat) (c : Command) : CommandLabel → CommandHub → Prop where
  | found {j gen : Nat} (hp : c.phase = .called) (hconn : s.conns.lookup c.device = some gen) :
      Does s i c (.lookup j) (s.goTo i c (.looked gen))
  | missing {j : Nat} (hp : c.phase = .called) (hconn : s.conns.lookup c.device = none) :
      Does s i c (.lookup j) (s.goTo i c (.returned none .notConnected))
  | number {j gen : Nat} (hp : c.phase = .looked gen) :
      Does s i c (.number j)
        { s.goTo i c (.numbered gen (cmdIdOf s.seq)) with seq := s.seq + 1 }
  | insert {j gen : Nat} {k : String} (hp : c.phase = .numbered gen k) :
      Does s i c (.insert j)
        { s.goTo i c (.pending gen k) with acks := s.removeAck gen k ++ [⟨gen, k, i⟩] }
  | sendFailed {j gen : Nat} {k : String} (hp : c.phase = .pending gen k)
      (hclosed : gen ∈ s.closed) :
      Does s i c (.send j) (s.goTo i c (.sendFailed gen k))
  | sent {j gen : Nat} {k : String} (hp : c.phase = .pending gen k) (hopen : gen ∉ s.closed) :
      Does s i c (.send j)
        { s.goTo i c (.sent gen k) with frames := s.frames ++ [⟨gen, k, c.action⟩] }
  | await {j gen : Nat} {k : String} {ack : Ack} (hp : c.phase = .sent gen k)
      (hslot : c.slot = some ack) :
      Does s i c (.await j) (s.goTo i c (.returned (some k) ack.outcome))
  | timeout {j gen : Nat} {k : String} (hp : c.phase = .sent gen k) (hslot : c.slot = none) :
      Does s i c (.timeout j) (s.goTo i c (.timedOut gen k))
  | cleanup {j gen : Nat} {k : String} {outcome : Outcome}
      (hwaits : c.phase.waits = some (gen, k)) (hne : outcome ≠ .ok) :
      Does s i c (.cleanup j)
        { s.goTo i c (.returned (some k) outcome) with acks := s.removeAck gen k }

theorem does_of_advance {a : CommandLabel} (h : s.advance i c a = some t) : Does s i c a t := by
  cases a with
  | lookup j =>
      simp only [advance] at h
      split at h
      · rename_i hp
        split at h
        · rename_i gen hconn
          obtain rfl := Option.some.inj h
          exact .found hp hconn
        · rename_i hconn
          obtain rfl := Option.some.inj h
          exact .missing hp hconn
      · simp at h
  | number j =>
      simp only [advance] at h
      split at h
      · rename_i gen hp
        obtain rfl := Option.some.inj h
        exact .number hp
      · simp at h
  | insert j =>
      simp only [advance] at h
      split at h
      · rename_i gen k hp
        obtain rfl := Option.some.inj h
        exact .insert hp
      · simp at h
  | send j =>
      simp only [advance] at h
      split at h
      · rename_i gen k hp
        split at h
        · rename_i hclosed
          obtain rfl := Option.some.inj h
          exact .sendFailed hp hclosed
        · rename_i hopen
          obtain rfl := Option.some.inj h
          exact .sent hp hopen
      · simp at h
  | await j =>
      simp only [advance] at h
      split at h
      · rename_i gen k ack hp hslot
        obtain rfl := Option.some.inj h
        exact .await hp hslot
      · simp at h
  | timeout j =>
      simp only [advance] at h
      split at h
      · rename_i gen k hp hslot
        obtain rfl := Option.some.inj h
        exact .timeout hp hslot
      · simp at h
  | cleanup j =>
      simp only [advance] at h
      split at h
      · rename_i gen k hp
        obtain rfl := Option.some.inj h
        exact .cleanup (by rw [hp]; rfl) (by simp)
      · rename_i gen k hp
        obtain rfl := Option.some.inj h
        exact .cleanup (by rw [hp]; rfl) (by simp)
      · simp at h
  | register _ | unregister _ _ | dropDevice _ | drain _ | closeChannel _ | command _ _
  | fire _ _ | ack _ _ _ | take _ | deliver _ => simp [advance] at h

/-- A command that has not put a waiter into a table goes on without one. -/
theorem Inv.goTo_unnumbered (hI : Inv s) {p : CommandPhase} {seq : Nat}
    (hi : s.commands[i]? = some c) (hseq : s.seq ≤ seq)
    (hid : ∀ k, p.cmdId = some k → c.phase.cmdId = some k ∨ k = cmdIdOf s.seq ∧ s.seq < seq)
    (hins : c.phase.inserted = none) (hwaits : c.phase.waits = none)
    (hok : ∀ k, p ≠ .returned k .ok) : Inv { s.goTo i c p with seq := seq } := by
  refine hI.goTo hi hseq hid ?_ (List.Sublist.refl _) ?_ fun k hk => absurd hk (hok k)
  · simp [hins]
  · simp [hwaits]

/-- The number of a waiter that is put into a table has not been used for one before. -/
theorem inv_insert {gen : Nat} {k : String} (hI : Inv s) (hi : s.commands[i]? = some c)
    (hp : c.phase = .numbered gen k) :
    Inv { s.goTo i c (.pending gen k) with acks := s.removeAck gen k ++ [⟨gen, k, i⟩] } := by
  have hgo : Inv (s.goTo i c (.pending gen k)) := by
    refine hI.goTo_unnumbered hi (Nat.le_refl _) ?_ (by rw [hp]; rfl) (by rw [hp]; rfl) (by simp)
    intro k' hk'
    exact Or.inl (by rw [hp]; exact hk')
  have hi' : (s.goTo i c (.pending gen k)).commands[i]? =
      some { c with phase := .pending gen k } := getElem?_set_self_of_some hi
  -- an id in play is of a command that has put its waiter into a table; this one has not
  refine hgo.insertAck hi' rfl fun hmem => ?_
  obtain ⟨j, d, hd, hk⟩ := hI.inserted_of_mem_ids (k := k) hmem
  have hij := hI.distinct i j c d k hi hd (by rw [hp]; rfl) (cmdId_of_inserted hk)
  subst hij
  obtain rfl := Option.some.inj (hi.symm.trans hd)
  rw [hp] at hk
  exact absurd hk (by simp [CommandPhase.inserted])

/-- A command goes on with its waiter where it stands. -/
theorem inv_waiting {gen : Nat} {k : String} {p : CommandPhase} {frames : List CmdFrame}
    (hI : Inv s) (hi : s.commands[i]? = some c) (hc : c.phase.waits = some (gen, k))
    (hp : p.waits = some (gen, k)) : Inv { s.goTo i c p with frames := frames } := by
  have hcid := cmdId_of_inserted (inserted_of_waits hc)
  have hpid := cmdId_of_inserted (inserted_of_waits hp)
  refine hI.goTo hi (Nat.le_refl _) ?_ ?_ (List.Sublist.refl _) ?_ ?_
  · intro k' hk'
    exact Or.inl (hcid.trans (hpid.symm.trans hk'))
  · intro k' hk'
    exact (inserted_of_waits hp).trans ((inserted_of_waits hc).symm.trans hk')
  · intro w _ hwait
    exact hp.trans (hc.symm.trans hwait)
  · rintro k' rfl
    exact absurd hp (by simp [CommandPhase.waits])

/-- A command returns what its slot holds, and a settled waiter stands in no table. -/
theorem inv_await {gen : Nat} {k : String} {ack : Ack} (hI : Inv s)
    (hi : s.commands[i]? = some c) (hp : c.phase = .sent gen k) (hslot : c.slot = some ack) :
    Inv (s.goTo i c (.returned (some k) ack.outcome)) := by
  obtain ⟨k', hk', hck⟩ := hI.slot i c hi (by simp [hslot])
  rw [hp] at hck
  obtain rfl := Option.some.inj hck
  refine hI.goTo hi (Nat.le_refl _) ?_ ?_ (List.Sublist.refl _) ?_ ?_
  · intro k' hk'
    exact Or.inl (by rw [hp, ← hk']; rfl)
  · simp [hp, CommandPhase.inserted]
  · intro w hw hwait
    rw [hp] at hwait
    have hid : w.cmdId = k := ((Prod.mk.inj (Option.some.inj hwait)).2).symm
    -- the id is settled, so it stands in no table
    have hdisj := (List.nodup_append.1 hI.once).2.2 k hk' k
      (List.mem_append_right _ (hid ▸ List.mem_map_of_mem hw))
    exact absurd rfl hdisj
  · intro k' hret
    obtain ⟨rfl, hout⟩ := CommandPhase.returned.inj hret
    refine ⟨?_, by rw [hp]; rfl⟩
    cases ack with
    | ok => exact hslot
    | err msg => exact absurd hout (by simp [Ack.outcome])

/-- A command that gives up takes its waiter along. -/
theorem inv_cleanup {gen : Nat} {k : String} {outcome : Outcome} (hI : Inv s)
    (hi : s.commands[i]? = some c) (hwaits : c.phase.waits = some (gen, k))
    (hne : outcome ≠ .ok) :
    Inv { s.goTo i c (.returned (some k) outcome) with acks := s.removeAck gen k } := by
  have hins := inserted_of_waits hwaits
  refine hI.goTo hi (Nat.le_refl _) ?_ ?_ List.filter_sublist ?_ ?_
  · intro k' hk'
    exact Or.inl ((cmdId_of_inserted hins).trans hk')
  · intro k' hk'
    exact hins.symm.trans hk'
  · intro w hw hwait
    exact absurd hwait (waits_ne_of_mem_removeAck hwaits w hw)
  · intro k' hret
    exact absurd (CommandPhase.returned.inj hret).2 hne

/-- **A step of a command keeps the invariant.** -/
theorem inv_advance {a : CommandLabel} (hI : Inv s) (hi : s.commands[i]? = some c)
    (h : s.advance i c a = some t) : Inv t := by
  cases does_of_advance h with
  | found hp hconn | missing hp hconn =>
      exact hI.goTo_unnumbered hi (Nat.le_refl _) (by simp [CommandPhase.cmdId]) (by rw [hp]; rfl)
        (by rw [hp]; rfl) (by simp)
  | number hp =>
      refine hI.goTo_unnumbered hi (Nat.le_succ _) ?_ (by rw [hp]; rfl) (by rw [hp]; rfl) (by simp)
      intro k hk
      exact Or.inr ⟨(Option.some.inj hk).symm, Nat.lt_succ_self _⟩
  | insert hp => exact inv_insert hI hi hp
  | @sendFailed _ gen k hp hclosed =>
      exact @inv_waiting s i c gen k (.sendFailed gen k) s.frames hI hi (by rw [hp]; rfl) rfl
  | sent hp hopen => exact inv_waiting hI hi (by rw [hp]; rfl) rfl
  | await hp hslot => exact inv_await hI hi hp hslot
  | @timeout _ gen k hp hslot =>
      exact @inv_waiting s i c gen k (.timedOut gen k) s.frames hI hi (by rw [hp]; rfl) rfl
  | cleanup hwaits hne => exact inv_cleanup hI hi hwaits hne

theorem inv_stepCommand {a : CommandLabel} (hI : Inv s) (h : s.stepCommand i a = some t) :
    Inv t := by
  rw [stepCommand] at h
  cases hi : s.commands[i]? with
  | none => simp [hi] at h
  | some c =>
      rw [hi] at h
      exact inv_advance hI hi h

theorem inv_command (hI : Inv s) (device : String) (action : Action) :
    Inv { s with commands := s.commands ++ [⟨device, action, .called, none⟩] } := by
  have hold : ∀ (j : Nat) (d : Command),
      (s.commands ++ [⟨device, action, .called, none⟩])[j]? = some d →
        s.commands[j]? = some d ∨ d.phase = .called ∧ d.slot = none := by
    intro j d hd
    rcases getElem?_concat_cases hd with hold | ⟨-, rfl⟩
    · exact Or.inl hold
    · exact Or.inr ⟨rfl, rfl⟩
  have hins : ∀ (j : Nat) (k : String), s.Inserted j k → ∃ d,
      (s.commands ++ [⟨device, action, .called, none⟩])[j]? = some d ∧
        d.phase.inserted = some k := by
    rintro j k ⟨d, hd, hk⟩
    exact ⟨d, getElem?_concat_of_some hd, hk⟩
  constructor
  · intro j d k hd hk
    rcases hold j d hd with hd | ⟨hp, -⟩
    · exact hI.numbered j d k hd hk
    · simp [hp, CommandPhase.cmdId] at hk
  · intro j l d e k hd he hdk hek
    rcases hold j d hd with hd | ⟨hp, -⟩
    · rcases hold l e he with he | ⟨hp, -⟩
      · exact hI.distinct j l d e k hd he hdk hek
      · simp [hp, CommandPhase.cmdId] at hek
    · simp [hp, CommandPhase.cmdId] at hdk
  · intro w hw
    obtain ⟨d, hd, hwaits⟩ := hI.waiting w hw
    exact ⟨d, getElem?_concat_of_some hd, hwaits⟩
  · intro d hd
    exact ⟨hins _ _ (hI.delivering d hd).1, (hI.delivering d hd).2⟩
  · intro k hk
    obtain ⟨j, hj⟩ := hI.settled k hk
    exact ⟨j, hins j k hj⟩
  · exact hI.once
  · intro j d hd hslot
    rcases hold j d hd with hd | ⟨-, hnone⟩
    · exact hI.slot j d hd hslot
    · exact absurd hnone hslot
  · intro j d hd hslot
    rcases hold j d hd with hd | ⟨-, hnone⟩
    · exact hI.slotOk j d hd hslot
    · rw [hnone] at hslot
      exact absurd hslot (by simp)
  · intro j d k hd hp
    rcases hold j d hd with hd | ⟨hcalled, -⟩
    · exact hI.okAcked j d k hd hp
    · rw [hcalled] at hp
      exact absurd hp (by simp)
  · intro r hr
    exact hins _ _ (hI.own r hr)

/-- All the waiters of a connection are told why. -/
theorem inv_drain (hI : Inv s) (gen : Nat) (reason : String) (draining : List (Nat × String)) :
    Inv { s with
      draining := draining
      acks := s.acks.filter fun w => !(w.gen == gen)
      commands := CommandHub.settle s.commands
        ((s.acks.filter fun w => w.gen == gen).map Waiter.cmd) (.err reason)
      resolved := s.resolved ++ (s.acks.filter fun w => w.gen == gen).map Waiter.cmdId } := by
  refine hI.settle (fun w hw => List.mem_of_mem_filter hw) (fun d hd => hd) ?_ ?_
  · intro w hw
    obtain ⟨c, hc, hwaits⟩ := hI.waiting w (List.mem_of_mem_filter hw)
    exact ⟨⟨c, hc, inserted_of_waits hwaits⟩, fun h => absurd h (by simp)⟩
  · have hsplit := List.filter_append_perm (fun w : Waiter => w.gen == gen) s.acks
    refine (List.Perm.nodup_iff ?_).1 hI.once
    rw [ids, List.append_assoc]
    refine List.Perm.append_left _ ?_
    refine ((hsplit.symm.map Waiter.cmdId).append_left _).trans ?_
    rw [List.map_append]
    exact List.perm_append_comm_assoc _ _ _

theorem inv_deliver (hI : Inv s) {j : Nat} {d : Delivery} (hj : s.deliveries[j]? = some d) :
    Inv { s with
      deliveries := s.deliveries.eraseIdx j
      commands := CommandHub.settle s.commands [d.waiter.cmd] d.ack
      resolved := s.resolved ++ [d.waiter.cmdId] } := by
  obtain ⟨hlt, hget⟩ := List.getElem?_eq_some_iff.1 hj
  have hperm : (d :: s.deliveries.eraseIdx j).Perm s.deliveries := by
    rw [← hget]
    exact List.getElem_cons_eraseIdx_perm hlt
  refine @Inv.settle s hI [d.waiter] d.ack s.acks (s.deliveries.eraseIdx j) s.draining
    (fun w hw => hw) ?_ ?_ ?_
  · intro e he
    exact hperm.subset (List.mem_cons_of_mem _ he)
  · intro w hw
    obtain rfl := List.mem_singleton.1 hw
    exact hI.delivering d (List.mem_of_getElem? hj)
  · refine (List.Perm.nodup_iff ?_).1 hI.once
    rw [ids, List.append_assoc]
    refine List.Perm.append_left _ ?_
    exact (hperm.symm.map fun d => d.waiter.cmdId).append_right _

/-- **One step keeps the invariant.** -/
theorem inv_step {a : CommandLabel} (hI : Inv s) (h : s.step a = some t) : Inv t := by
  cases a with
  | register device =>
      obtain rfl := Option.some.inj h
      exact hI.of_eq (Nat.le_refl _) rfl rfl rfl rfl rfl
  | unregister device gen =>
      simp only [step] at h
      split at h
      · obtain rfl := Option.some.inj h
        exact hI.of_eq (Nat.le_refl _) rfl rfl rfl rfl rfl
      · obtain rfl := Option.some.inj h
        exact hI
  | dropDevice device =>
      obtain rfl := Option.some.inj h
      exact hI.of_eq (Nat.le_refl _) rfl rfl rfl rfl rfl
  | drain j =>
      simp only [step] at h
      split at h
      · rename_i gen reason _
        obtain rfl := Option.some.inj h
        exact inv_drain hI gen reason _
      · simp at h
  | closeChannel gen =>
      obtain rfl := Option.some.inj h
      exact hI.of_eq (Nat.le_refl _) rfl rfl rfl rfl rfl
  | command device action =>
      obtain rfl := Option.some.inj h
      exact inv_command hI device action
  | lookup i | number i | insert i | send i | await i | timeout i | cleanup i =>
      exact inv_stepCommand hI h
  | fire device action =>
      simp only [step] at h
      split at h
      · obtain rfl := Option.some.inj h
        exact hI.of_eq (Nat.le_succ _) rfl rfl rfl rfl rfl
      · obtain rfl := Option.some.inj h
        exact hI
  | ack device k ack =>
      simp only [step] at h
      split at h
      · obtain rfl := Option.some.inj h
        exact hI.of_eq (Nat.le_refl _) rfl rfl rfl rfl rfl
      · obtain rfl := Option.some.inj h
        exact hI
  | take j =>
      simp only [step] at h
      split at h
      · split at h
        · rename_i w hw
          obtain rfl := Option.some.inj h
          exact hI.take hw
        · obtain rfl := Option.some.inj h
          exact hI.of_eq (Nat.le_refl _) rfl rfl rfl rfl rfl
      · simp at h
  | deliver j =>
      simp only [step] at h
      split at h
      · rename_i d hd
        obtain rfl := Option.some.inj h
        exact inv_deliver hI hd
      · simp at h

/-! ## Commands that have returned -/

/-- What the command `i` has returned. -/
def outcome (s : CommandHub) (i : Nat) : Option Outcome :=
  match s.commands[i]? with
  | some c =>
      match c.phase with
      | .returned _ outcome => some outcome
      | _ => none
  | none => none

/-- The id of the command `i`. -/
def commandId (s : CommandHub) (i : Nat) : Option String :=
  (s.commands[i]?).bind fun c => c.phase.cmdId

theorem outcome_eq_some {o : Outcome} (h : s.outcome i = some o) :
    ∃ c, s.commands[i]? = some c ∧ c.phase.isOutstanding = false := by
  unfold outcome at h
  split at h
  · rename_i c hc
    split at h
    · rename_i k o' hp
      exact ⟨c, hc, by rw [hp]; rfl⟩
    · simp at h
  · simp at h

/-- A command goes on in its phase alone, and not once it has returned. -/
theorem advance_commands {a : CommandLabel} (h : s.advance i c a = some t) :
    (∃ p, t.commands = (s.goTo i c p).commands) ∧ c.phase.isOutstanding = true := by
  cases does_of_advance h with
  | number hp | insert hp => exact ⟨⟨_, rfl⟩, by rw [hp]; rfl⟩
  | found hp _ | missing hp _ | sendFailed hp _ | sent hp _ | timeout hp _ =>
      exact ⟨⟨_, rfl⟩, by rw [hp]; rfl⟩
  | await hp hslot => exact ⟨⟨_, rfl⟩, by rw [hp]; rfl⟩
  | cleanup hwaits hne => exact ⟨⟨_, rfl⟩, isOutstanding_of_waits hwaits⟩

/-- **A command that has returned stays as it has.** -/
theorem step_returned {a : CommandLabel} (h : s.step a = some t) (hi : s.commands[i]? = some c)
    (hret : c.phase.isOutstanding = false) :
    ∃ d, t.commands[i]? = some d ∧ d.phase = c.phase := by
  have hown : ∀ {j : Nat} {a : CommandLabel}, s.stepCommand j a = some t →
      ∃ d, t.commands[i]? = some d ∧ d.phase = c.phase := by
    intro j a h
    unfold stepCommand at h
    split at h
    · rename_i d hj
      obtain ⟨⟨p, hcommands⟩, hout⟩ := advance_commands h
      -- only a command that has not returned takes a step
      have hij : j ≠ i := by
        rintro rfl
        obtain rfl := Option.some.inj (hi.symm.trans hj)
        rw [hret] at hout
        exact absurd hout (by simp)
      refine ⟨c, ?_, rfl⟩
      rw [hcommands]
      exact (List.getElem?_set_ne hij).trans hi
    · simp at h
  cases a with
  | lookup j | number j | insert j | send j | await j | timeout j | cleanup j => exact hown h
  | register device | dropDevice device | closeChannel gen =>
      obtain rfl := Option.some.inj h
      exact ⟨c, hi, rfl⟩
  | command device action =>
      obtain rfl := Option.some.inj h
      exact ⟨c, getElem?_concat_of_some hi, rfl⟩
  | unregister device gen =>
      simp only [step] at h
      split at h
      all_goals
        obtain rfl := Option.some.inj h
        exact ⟨c, hi, rfl⟩
  | fire device action | ack device k ack =>
      simp only [step] at h
      split at h
      all_goals
        obtain rfl := Option.some.inj h
        exact ⟨c, hi, rfl⟩
  | drain j =>
      simp only [step] at h
      split at h
      · obtain rfl := Option.some.inj h
        exact exists_getElem?_settle _ _ hi
      · simp at h
  | take j =>
      simp only [step] at h
      split at h
      · split at h
        all_goals
          obtain rfl := Option.some.inj h
          exact ⟨c, hi, rfl⟩
      · simp at h
  | deliver j =>
      simp only [step] at h
      split at h
      · obtain rfl := Option.some.inj h
        exact exists_getElem?_settle _ _ hi
      · simp at h

/-- **In every order of commands, acks, disconnects and timeouts, acks are correct.** -/
theorem ackCorrect_of_reach (h : machine.Reach s) : AckCorrect s := by
  have hinv : ∀ s, machine.Reach s → Inv s := by
    apply Machine.invariant
    · rintro _ rfl
      exact inv_new
    · intro s a t hI _ hstep
      exact inv_step hI hstep
  exact (hinv s h).ackCorrect

/-- An acked command. -/
def ackedRun : List CommandLabel :=
  [.register "p", .command "p" (.answer none), .lookup 0, .number 0, .insert 0, .send 0,
    .ack "p" "c-1" .ok, .take 0, .deliver 0, .await 0]

theorem ackCorrect_ackedRun :
    ∃ s, machine.run new ackedRun = some s ∧
      s.commands = [⟨"p", .answer none, .returned (some "c-1") .ok, some .ok⟩] ∧ AckCorrect s := by
  refine ⟨_, rfl, rfl, ?_⟩
  exact ackCorrect_of_reach
    (Machine.reach_of_run (.init rfl) (show machine.run new ackedRun = some _ from rfl))

end CommandHub

end DialF.Daemon
