import DialF.Lib.Machine
import DialF.Lib.Notify

/-!
# The server of a device share

The tasks of one running share: the accept loop, one task for each connection, the forward loops and
the tunnels they splice, and the caller that stops the share. Each label is one stretch of a task
between two points where it yields. All tasks but the tunnels wait on one notification cell.

A share ends when its accept loop handles the expiry or when `stop` raises the signal, and it clears
the room when from then on nothing begins to relay, every connection that relays has its signal, and
no tunnel relays (`Cleared`). The signal reaches only tasks that wait at that moment, so a
connection that enters its relay afterwards is not cut, unless it takes the permit that `stop`
leaves; and a tunnel never waits. `cleared_along_iff` says that a share fails to clear the room in
no other way.
-/

set_option autoImplicit false

namespace DialF.Share

open DialF.Lib

/-- An IP address. -/
abbrev Addr := Nat

/-- The configuration that the tasks of a share look at. -/
structure ServerConfig where
  expires : Bool
  requireAuth : Bool
  forwards : Nat

/-- The tasks that wait for the end of the share. -/
inductive Task where
  | accept
  | forward (k : Nat)
  | conn (c : Nat)
  deriving DecidableEq

/-- A listening loop: between two rounds, waiting in its `select!`, or left. -/
inductive Loop where
  | top
  | parked
  | done
  deriving DecidableEq

/-- A connection on the share's port: in its handshake, connecting upstream, in `pump`, or over. -/
inductive Phase where
  | handshake
  | connecting
  | relaying
  | closed
  deriving DecidableEq

/-- A connection, and how far it has come. -/
structure Conn where
  peer : Addr
  phase : Phase
  deriving DecidableEq

/-- A connection on a forward port. -/
inductive Tunnel where
  | connecting
  | relaying
  | closed
  deriving DecidableEq

/-- How far a call of `stop` has come. -/
inductive StopPhase where
  | notCalled
  | wokeWaiters
  | wokeOne
  | abortedForwards
  | returned
  deriving DecidableEq

/-- The state of a share. `ended` remembers that it has expired or been stopped, and `late` that
something has begun to relay since. -/
structure Server where
  cancel : Notify Task
  due : Bool
  accept : Loop
  acceptAborted : Bool
  live : Bool
  forwards : List Loop
  authed : List Addr
  conns : List Conn
  tunnels : List Tunnel
  stop : StopPhase
  ended : Bool
  late : Bool
  deriving DecidableEq

/-- What a task, a peer or the clock does next. Where `select!` finds several branches ready, it
takes the one that it happens to look at first; `cancelFirst` is that choice in `pump`. -/
inductive Label where
  | deadline
  | acceptPoll
  | acceptConn (peer : Addr)
  | acceptFailed
  | acceptCancelled
  | acceptExpired
  | acceptAborted
  | forwardPoll (k : Nat)
  | forwardConn (k : Nat) (peer : Addr)
  | forwardFailed (k : Nat)
  | forwardCancelled (k : Nat)
  | forwardExpired (k : Nat)
  | forwardAborted (k : Nat)
  | authenticated (c : Nat)
  | connected (c : Nat) (cancelFirst : Bool)
  | cut (c : Nat)
  | hangUp (c : Nat)
  | tunnelConnected (f : Nat)
  | tunnelClosed (f : Nat)
  | stopWakeWaiters
  | stopWakeOne
  | stopAbortForwards
  | stopJoined
  | stopTimedOut
  deriving DecidableEq

/-- The forward loop `k` has not left. -/
def Server.Listens (s : Server) (k : Nat) : Prop :=
  s.forwards[k]? = some .top ∨ s.forwards[k]? = some .parked

instance (s : Server) (k : Nat) : Decidable (s.Listens k) := inferInstanceAs (Decidable (_ ∨ _))

/-- The forward loop `k` moves on. -/
def Server.setForward (s : Server) (k : Nat) (loop : Loop) (cancel : Notify Task) : Server :=
  { s with forwards := s.forwards.set k loop, cancel := cancel }

/-- The connection `c` moves on. -/
def Server.setConn (s : Server) (c : Nat) (conn : Conn) (cancel : Notify Task) : Server :=
  { s with conns := s.conns.set c conn, cancel := cancel }

variable (config : ServerConfig)

/-- A share that has just been started. -/
def Server.start : Server where
  cancel := .new
  due := false
  accept := .top
  acceptAborted := false
  live := true
  forwards := List.replicate config.forwards .top
  authed := []
  conns := []
  tunnels := []
  stop := .notCalled
  ended := false
  late := false

/-- The accept loop. It may find a connection ready before it looks at its signal. -/
def Server.acceptLoop (s : Server) : Label → Option Server
  | .acceptPoll =>
      if s.accept = .top then
        match s.cancel.wait .accept with
        | (cancel, true) => some { s with cancel := cancel, accept := .done, live := false }
        | (cancel, false) => some { s with cancel := cancel, accept := .parked }
      else none
  | .acceptConn peer =>
      if s.accept ≠ .done then
        some { s with
          cancel := s.cancel.cancel .accept
          accept := .top
          conns := s.conns ++ [⟨peer, .handshake⟩] }
      else none
  | .acceptFailed =>
      if s.accept ≠ .done then
        some { s with cancel := s.cancel.cancel .accept, accept := .top }
      else none
  | .acceptCancelled =>
      if s.accept = .parked ∧ s.cancel.IsWoken .accept then
        some { s with cancel := s.cancel.complete .accept, accept := .done, live := false }
      else none
  | .acceptExpired =>
      if s.accept ≠ .done ∧ s.due = true then
        some { s with
          -- whoever waits now is woken; no permit is left for those that come later
          cancel := (s.cancel.cancel .accept).notifyWaiters
          accept := .done
          live := false
          ended := true }
      else none
  | .acceptAborted =>
      if s.acceptAborted = true ∧ s.accept ≠ .done then
        some { s with cancel := s.cancel.cancel .accept, accept := .done }
      else none
  | _ => none

/-- The forward loops. -/
def Server.forwardLoop (s : Server) : Label → Option Server
  | .forwardPoll k =>
      if s.forwards[k]? = some .top then
        match s.cancel.wait (.forward k) with
        | (cancel, true) => some (s.setForward k .done cancel)
        | (cancel, false) => some (s.setForward k .parked cancel)
      else none
  | .forwardConn k peer =>
      if s.Listens k then
        let s' := s.setForward k .top (s.cancel.cancel (.forward k))
        -- only an address that has authenticated on the share's own port gets a tunnel
        if config.requireAuth = true ∧ peer ∉ s.authed then some s'
        else some { s' with tunnels := s.tunnels ++ [.connecting] }
      else none
  | .forwardFailed k =>
      if s.Listens k then
        some (s.setForward k .top (s.cancel.cancel (.forward k)))
      else none
  | .forwardCancelled k =>
      if s.forwards[k]? = some .parked ∧ s.cancel.IsWoken (.forward k) then
        some (s.setForward k .done (s.cancel.complete (.forward k)))
      else none
  | .forwardExpired k =>
      if s.Listens k ∧ s.due = true then
        some (s.setForward k .done (s.cancel.cancel (.forward k)))
      else none
  | .forwardAborted k =>
      if (s.stop = .abortedForwards ∨ s.stop = .returned) ∧ s.Listens k then
        some (s.setForward k .done (s.cancel.cancel (.forward k)))
      else none
  | _ => none

/-- The task of a connection: `serve_conn`, `splice` and `pump`. -/
def Server.serveConn (s : Server) : Label → Option Server
  | .authenticated c =>
      match s.conns[c]? with
      | some ⟨peer, .handshake⟩ =>
          some { s.setConn c ⟨peer, .connecting⟩ s.cancel with authed := peer :: s.authed }
      | _ => none
  | .connected c cancelFirst =>
      match s.conns[c]? with
      | some ⟨peer, .connecting⟩ =>
          match s.cancel.wait (.conn c) with
          | (cancel, true) =>
              -- cut in its first poll, in which the relay may have had its turn before
              some { s.setConn c ⟨peer, .closed⟩ cancel with
                late := s.late || (s.ended && !cancelFirst) }
          | (cancel, false) =>
              some { s.setConn c ⟨peer, .relaying⟩ cancel with late := s.late || s.ended }
      | _ => none
  | .cut c =>
      match s.conns[c]? with
      | some ⟨peer, .relaying⟩ =>
          if s.cancel.IsWoken (.conn c) then
            some (s.setConn c ⟨peer, .closed⟩ (s.cancel.complete (.conn c)))
          else none
      | _ => none
  -- a refused handshake, a failed connect, or a relay that is over
  | .hangUp c =>
      match s.conns[c]? with
      | some ⟨peer, .relaying⟩ =>
          some (s.setConn c ⟨peer, .closed⟩ (s.cancel.cancel (.conn c)))
      | some ⟨peer, _⟩ => some (s.setConn c ⟨peer, .closed⟩ s.cancel)
      | none => none
  | _ => none

/-- The tunnels. -/
def Server.tunnel (s : Server) : Label → Option Server
  -- a tunnel waits for no signal
  | .tunnelConnected f =>
      if s.tunnels[f]? = some .connecting then
        some { s with tunnels := s.tunnels.set f .relaying, late := s.late || s.ended }
      else none
  | .tunnelClosed f =>
      if (s.tunnels[f]?).isSome = true then some { s with tunnels := s.tunnels.set f .closed }
      else none
  | _ => none

/-- A call of `stop`. -/
def Server.stopping (s : Server) : Label → Option Server
  | .stopWakeWaiters =>
      if s.stop = .notCalled then
        some { s with cancel := s.cancel.notifyWaiters, stop := .wokeWaiters, ended := true }
      else none
  -- a permit for a loop that is between two rounds, or for whoever waits next
  | .stopWakeOne =>
      if s.stop = .wokeWaiters then
        some { s with cancel := s.cancel.notifyOne, stop := .wokeOne }
      else none
  | .stopAbortForwards =>
      if s.stop = .wokeOne then some { s with stop := .abortedForwards } else none
  | .stopJoined =>
      if s.stop = .abortedForwards ∧ s.accept = .done then some { s with stop := .returned }
      else none
  | .stopTimedOut =>
      if s.stop = .abortedForwards ∧ s.accept ≠ .done then
        some { s with stop := .returned, acceptAborted := true }
      else none
  | _ => none

/-- One step of the share. -/
def Server.step (s : Server) (a : Label) : Option Server :=
  match a with
  | .deadline => if config.expires = true then some { s with due := true } else none
  | .acceptPoll | .acceptConn _ | .acceptFailed | .acceptCancelled | .acceptExpired
  | .acceptAborted => s.acceptLoop a
  | .forwardPoll _ | .forwardConn _ _ | .forwardFailed _ | .forwardCancelled _ | .forwardExpired _
  | .forwardAborted _ => s.forwardLoop config a
  | .authenticated _ | .connected _ _ | .cut _ | .hangUp _ => s.serveConn a
  | .tunnelConnected _ | .tunnelClosed _ => s.tunnel a
  | .stopWakeWaiters | .stopWakeOne | .stopAbortForwards | .stopJoined | .stopTimedOut =>
      s.stopping a

/-- The share as a machine. -/
def Server.machine : Machine Server Label where
  Init s := s = Server.start config
  step s a := s.step config a

/-! ## What an ended share has cleared -/

/-- The connection `c` relays. -/
def Server.Relays (s : Server) (c : Nat) : Prop := ∃ peer, s.conns[c]? = some ⟨peer, .relaying⟩

/-- Once the share has ended, nothing has begun to relay since, every connection that relays has
its signal, and no tunnel relays. -/
structure Cleared (s : Server) : Prop where
  notLate : s.late = false
  conns : s.ended = true → ∀ c, s.Relays c → s.cancel.IsWoken (.conn c)
  tunnels : s.ended = true → Tunnel.relaying ∉ s.tunnels

/-- A step that leaves the room clear: the share ends while no tunnel relays, and after the end no
tunnel is connected, and no connection but one that finds the permit and takes it first. -/
def InTime (s : Server) : Label → Prop
  | .acceptExpired => Tunnel.relaying ∉ s.tunnels
  | .stopWakeWaiters => Tunnel.relaying ∉ s.tunnels
  | .connected _ cancelFirst => s.ended = true → s.cancel.permit = true ∧ cancelFirst = true
  | .tunnelConnected _ => s.ended = false
  | _ => True

/-- The connections enrolled for the signal are those that relay. -/
def Enrolls (s : Server) : Prop :=
  ∀ c, s.cancel.Enrolled (.conn c) ↔ s.Relays c

/-! ## What a step does to the connections and their signals -/

/-- The step leaves alone what is relayed, and wakes connections at most. -/
structure Quiet (s t : Server) : Prop where
  ended : t.ended = s.ended
  late : t.late = s.late
  relays : ∀ c, t.Relays c ↔ s.Relays c
  enrolled : ∀ c, t.cancel.Enrolled (.conn c) ↔ s.cancel.Enrolled (.conn c)
  woken : ∀ c, s.cancel.IsWoken (.conn c) → t.cancel.IsWoken (.conn c)
  tunnels : Tunnel.relaying ∈ t.tunnels → Tunnel.relaying ∈ s.tunnels

/-- What a step does. -/
inductive Effect (s : Server) : Label → Server → Prop where
  | quiet {a : Label} {t : Server} : InTime s a → Quiet s t → Effect s a t
  | ends {a : Label} {t : Server} : (InTime s a ↔ Tunnel.relaying ∉ s.tunnels) →
      t.ended = true → t.late = s.late → t.conns = s.conns → t.tunnels = s.tunnels →
      (∀ c, t.cancel.IsWoken (.conn c) ↔ s.cancel.Enrolled (.conn c)) →
      (∀ c, t.cancel.Enrolled (.conn c) ↔ s.cancel.Enrolled (.conn c)) → Effect s a t
  | refused {c : Nat} {peer : Addr} {cancelFirst : Bool} :
      s.conns[c]? = some ⟨peer, .connecting⟩ → s.cancel.permit = true →
      Effect s (.connected c cancelFirst)
        { s.setConn c ⟨peer, .closed⟩ { s.cancel with permit := false } with
          late := s.late || (s.ended && !cancelFirst) }
  | relays {c : Nat} {peer : Addr} {cancelFirst : Bool} :
      s.conns[c]? = some ⟨peer, .connecting⟩ → s.cancel.permit = false →
      Effect s (.connected c cancelFirst)
        { s.setConn c ⟨peer, .relaying⟩ (s.cancel.wait (.conn c)).1 with
          late := s.late || s.ended }
  | leaves {a : Label} {c : Nat} {peer : Addr} {cancel : Notify Task} : InTime s a →
      s.conns[c]? = some ⟨peer, .relaying⟩ →
      (∀ i, cancel.Enrolled i ↔ s.cancel.Enrolled i ∧ i ≠ .conn c) →
      (∀ i, i ≠ .conn c → s.cancel.IsWoken i → cancel.IsWoken i) →
      Effect s a (s.setConn c ⟨peer, .closed⟩ cancel)
  | tunnel {f : Nat} : s.tunnels[f]? = some .connecting →
      Effect s (.tunnelConnected f)
        { s with tunnels := s.tunnels.set f .relaying, late := s.late || s.ended }

section Step

variable {config} {s t : Server}

/-- A step that only does something to the cell, for a task that is no connection, is quiet. -/
theorem Quiet.of_cancel (hended : t.ended = s.ended) (hlate : t.late = s.late)
    (hconns : t.conns = s.conns) (htunnels : t.tunnels = s.tunnels)
    (henrolled : ∀ c, t.cancel.Enrolled (.conn c) ↔ s.cancel.Enrolled (.conn c))
    (hwoken : ∀ c, s.cancel.IsWoken (.conn c) → t.cancel.IsWoken (.conn c)) : Quiet s t where
  ended := hended
  late := hlate
  relays c := by rw [Server.Relays, Server.Relays, hconns]
  enrolled := henrolled
  woken := hwoken
  tunnels h := by rwa [htunnels] at h

theorem Quiet.of_wait {i : Task} (hi : ∀ c, i ≠ .conn c) (hended : t.ended = s.ended)
    (hlate : t.late = s.late) (hconns : t.conns = s.conns) (htunnels : t.tunnels = s.tunnels)
    (hcancel : t.cancel = (s.cancel.wait i).1) : Quiet s t := by
  apply Quiet.of_cancel hended hlate hconns htunnels
  · intro c
    rw [hcancel, Notify.enrolled_wait]
    constructor
    · rintro (h | ⟨-, h⟩)
      · exact h
      · exact absurd h.symm (hi c)
    · exact Or.inl
  · intro c h
    rw [hcancel]
    exact Notify.isWoken_wait.2 h

theorem Quiet.of_leave {i : Task} (hi : ∀ c, i ≠ .conn c) (hended : t.ended = s.ended)
    (hlate : t.late = s.late) (hconns : t.conns = s.conns) (htunnels : t.tunnels = s.tunnels)
    (hcancel : t.cancel = s.cancel.cancel i ∨ t.cancel = s.cancel.complete i) : Quiet s t := by
  apply Quiet.of_cancel hended hlate hconns htunnels
  · intro c
    rcases hcancel with h | h
    · rw [h, Notify.enrolled_cancel]
      exact and_iff_left (hi c).symm
    · rw [h, Notify.enrolled_complete]
      exact and_iff_left (hi c).symm
  · intro c hc
    rcases hcancel with h | h
    · rw [h]
      exact Notify.isWoken_cancel (hi c).symm hc
    · rw [h]
      exact Notify.isWoken_complete.2 ⟨hc, (hi c).symm⟩

theorem effect_acceptLoop {a : Label} (h : s.acceptLoop a = some t) : Effect s a t := by
  have hi : ∀ c, Task.accept ≠ .conn c := fun c => by simp
  cases a <;> simp only [Server.acceptLoop, reduceCtorEq] at h
  case acceptPoll =>
      split at h
      · refine .quiet trivial ?_
        split at h <;> rename_i cancel heq <;> obtain rfl := Option.some.inj h
        · exact .of_wait hi rfl rfl rfl rfl (by rw [heq])
        · exact .of_wait hi rfl rfl rfl rfl (by rw [heq])
      · simp at h
  case acceptConn peer =>
      split at h
      · obtain rfl := Option.some.inj h
        refine .quiet trivial ?_
        have hquiet : Quiet s { s with cancel := s.cancel.cancel .accept, accept := .top } :=
          .of_leave hi rfl rfl rfl rfl (Or.inl rfl)
        refine ⟨rfl, rfl, ?_, hquiet.enrolled, hquiet.woken, id⟩
        intro c
        simp only [Server.Relays, List.getElem?_append]
        split
        · exact Iff.rfl
        · rename_i hge
          rw [List.getElem?_eq_none (Nat.le_of_not_lt hge)]
          cases hc : c - s.conns.length <;> simp
      · simp at h
  case acceptFailed =>
      split at h
      · obtain rfl := Option.some.inj h
        exact .quiet trivial (.of_leave hi rfl rfl rfl rfl (Or.inl rfl))
      · simp at h
  case acceptCancelled =>
      split at h
      · obtain rfl := Option.some.inj h
        exact .quiet trivial (.of_leave hi rfl rfl rfl rfl (Or.inr rfl))
      · simp at h
  case acceptExpired =>
      split at h
      · obtain rfl := Option.some.inj h
        refine .ends Iff.rfl rfl rfl rfl rfl ?_ ?_
        · intro c
          rw [Notify.isWoken_notifyWaiters, Notify.enrolled_cancel]
          exact and_iff_left (hi c).symm
        · intro c
          rw [Notify.enrolled_notifyWaiters, Notify.enrolled_cancel]
          exact and_iff_left (hi c).symm
      · simp at h
  case acceptAborted =>
      split at h
      · obtain rfl := Option.some.inj h
        exact .quiet trivial (.of_leave hi rfl rfl rfl rfl (Or.inl rfl))
      · simp at h

variable (config) in
theorem effect_forwardLoop {a : Label} (h : s.forwardLoop config a = some t) : Effect s a t := by
  have hi : ∀ k c, Task.forward k ≠ .conn c := fun k c => by simp
  cases a <;> simp only [Server.forwardLoop, reduceCtorEq] at h
  case forwardPoll k =>
      split at h
      · refine .quiet trivial ?_
        split at h <;> rename_i cancel heq <;> obtain rfl := Option.some.inj h
        · exact .of_wait (hi k) rfl rfl rfl rfl (by rw [Server.setForward, heq])
        · exact .of_wait (hi k) rfl rfl rfl rfl (by rw [Server.setForward, heq])
      · simp at h
  case forwardConn k peer =>
      split at h
      · refine .quiet trivial ?_
        have hquiet : Quiet s (s.setForward k .top (s.cancel.cancel (.forward k))) :=
          .of_leave (hi k) rfl rfl rfl rfl (Or.inl rfl)
        split at h <;> obtain rfl := Option.some.inj h
        · exact hquiet
        · refine ⟨rfl, rfl, hquiet.relays, hquiet.enrolled, hquiet.woken, ?_⟩
          intro hmem
          simpa using hmem
      · simp at h
  case forwardFailed k =>
      split at h
      · obtain rfl := Option.some.inj h
        exact .quiet trivial (.of_leave (hi k) rfl rfl rfl rfl (Or.inl rfl))
      · simp at h
  case forwardCancelled k =>
      split at h
      · obtain rfl := Option.some.inj h
        exact .quiet trivial (.of_leave (hi k) rfl rfl rfl rfl (Or.inr rfl))
      · simp at h
  case forwardExpired k =>
      split at h
      · obtain rfl := Option.some.inj h
        exact .quiet trivial (.of_leave (hi k) rfl rfl rfl rfl (Or.inl rfl))
      · simp at h
  case forwardAborted k =>
      split at h
      · obtain rfl := Option.some.inj h
        exact .quiet trivial (.of_leave (hi k) rfl rfl rfl rfl (Or.inl rfl))
      · simp at h

theorem relays_setConn_iff {c c' : Nat} {old new : Conn} {cancel : Notify Task}
    (hold : s.conns[c]? = some old) :
    (s.setConn c new cancel).Relays c' ↔
      if c = c' then new.phase = .relaying else s.Relays c' := by
  by_cases hc : c = c'
  · subst hc
    obtain ⟨peer, phase⟩ := new
    simp [Server.Relays, Server.setConn, List.getElem?_set_self', hold]
  · simp [Server.Relays, Server.setConn, List.getElem?_set_ne hc, hc]

/-- A connection that moves, and neither relayed nor does so now. -/
theorem Quiet.of_setConn {c : Nat} {old new : Conn} (hold : s.conns[c]? = some old)
    (hne : old.phase ≠ .relaying) (hne' : new.phase ≠ .relaying) {authed : List Addr} :
    Quiet s { s.setConn c new s.cancel with authed := authed } where
  ended := rfl
  late := rfl
  relays c' := by
    show (s.setConn c new s.cancel).Relays c' ↔ s.Relays c'
    rw [relays_setConn_iff hold]
    split
    · rename_i hc
      subst hc
      constructor
      · intro h
        exact absurd h hne'
      · rintro ⟨peer, hpeer⟩
        rw [hold, Option.some.injEq] at hpeer
        exact absurd (congrArg Conn.phase hpeer) hne
    · exact Iff.rfl
  enrolled _ := Iff.rfl
  woken _ := id
  tunnels := id

theorem effect_serveConn {a : Label} (h : s.serveConn a = some t) : Effect s a t := by
  cases a <;> simp only [Server.serveConn, reduceCtorEq] at h
  case authenticated c =>
      split at h
      · rename_i peer hconn
        obtain rfl := Option.some.inj h
        exact .quiet trivial (.of_setConn hconn (by simp) (by simp))
      · simp at h
  case connected c cancelFirst =>
      split at h
      · rename_i peer hconn
        cases hpermit : s.cancel.permit with
        | true =>
            rw [Notify.wait_of_permit hpermit] at h
            obtain rfl := Option.some.inj h
            exact .refused hconn hpermit
        | false =>
            rw [Notify.wait_of_not_permit hpermit] at h
            obtain rfl := Option.some.inj h
            have heffect : Effect s (.connected c cancelFirst) _ := .relays hconn hpermit
            rwa [Notify.wait_of_not_permit hpermit] at heffect
      · simp at h
  case cut c =>
      split at h
      · rename_i peer hconn
        split at h
        · obtain rfl := Option.some.inj h
          refine .leaves trivial hconn (fun i => Notify.enrolled_complete) ?_
          intro i hi hwoken
          exact Notify.isWoken_complete.2 ⟨hwoken, hi⟩
        · simp at h
      · simp at h
  case hangUp c =>
      split at h
      · rename_i peer hconn
        obtain rfl := Option.some.inj h
        exact .leaves trivial hconn (fun i => Notify.enrolled_cancel)
          fun i hi hwoken => Notify.isWoken_cancel hi hwoken
      · rename_i peer phase hne hconn
        obtain rfl := Option.some.inj h
        refine .quiet trivial (.of_setConn hconn ?_ (by simp))
        rintro rfl
        exact hne rfl
      · simp at h

theorem effect_tunnel {a : Label} (h : s.tunnel a = some t) : Effect s a t := by
  cases a <;> simp only [Server.tunnel, reduceCtorEq] at h
  case tunnelConnected f =>
      split at h
      · rename_i hf
        obtain rfl := Option.some.inj h
        exact .tunnel hf
      · simp at h
  case tunnelClosed f =>
      split at h
      · obtain rfl := Option.some.inj h
        refine .quiet trivial ⟨rfl, rfl, fun _ => Iff.rfl, fun _ => Iff.rfl, fun _ => id, ?_⟩
        intro hmem
        rcases List.mem_or_eq_of_mem_set hmem with hmem | hmem
        · exact hmem
        · exact absurd hmem (by simp)
      · simp at h

theorem effect_stopping {a : Label} (h : s.stopping a = some t) : Effect s a t := by
  cases a <;> simp only [Server.stopping, reduceCtorEq] at h
  case stopWakeWaiters =>
      split at h
      · obtain rfl := Option.some.inj h
        exact .ends Iff.rfl rfl rfl rfl rfl (fun c => Notify.isWoken_notifyWaiters)
          fun c => Notify.enrolled_notifyWaiters
      · simp at h
  case stopWakeOne =>
      split at h
      · obtain rfl := Option.some.inj h
        exact .quiet trivial (.of_cancel rfl rfl rfl rfl (fun c => Notify.enrolled_notifyOne)
          fun c => Notify.isWoken_notifyOne)
      · simp at h
  case stopAbortForwards =>
      split at h
      · obtain rfl := Option.some.inj h
        exact .quiet trivial (.of_cancel rfl rfl rfl rfl (fun _ => Iff.rfl) fun _ => id)
      · simp at h
  case stopJoined =>
      split at h
      · obtain rfl := Option.some.inj h
        exact .quiet trivial (.of_cancel rfl rfl rfl rfl (fun _ => Iff.rfl) fun _ => id)
      · simp at h
  case stopTimedOut =>
      split at h
      · obtain rfl := Option.some.inj h
        exact .quiet trivial (.of_cancel rfl rfl rfl rfl (fun _ => Iff.rfl) fun _ => id)
      · simp at h

theorem effect_of_step {a : Label} (h : s.step config a = some t) : Effect s a t := by
  cases a with
  | deadline =>
      simp only [Server.step] at h
      split at h
      · obtain rfl := Option.some.inj h
        exact .quiet trivial (.of_cancel rfl rfl rfl rfl (fun _ => Iff.rfl) fun _ => id)
      · simp at h
  | acceptPoll | acceptConn | acceptFailed | acceptCancelled | acceptExpired | acceptAborted =>
      exact effect_acceptLoop h
  | forwardPoll | forwardConn | forwardFailed | forwardCancelled | forwardExpired
  | forwardAborted => exact effect_forwardLoop config h
  | authenticated | connected | cut | hangUp => exact effect_serveConn h
  | tunnelConnected | tunnelClosed => exact effect_tunnel h
  | stopWakeWaiters | stopWakeOne | stopAbortForwards | stopJoined | stopTimedOut =>
      exact effect_stopping h

/-! ## Every step, and every run -/

/-- The connections enrolled stay those that relay. -/
theorem enrolls_of_effect {a : Label} (heffect : Effect s a t) (hs : Enrolls s) : Enrolls t := by
  intro c
  cases heffect with
  | quiet _ hquiet => rw [hquiet.enrolled, hquiet.relays]; exact hs c
  | ends _ _ _ hconns _ _ henrolled =>
      rw [henrolled, hs c, Server.Relays, Server.Relays, hconns]
  | @refused d peer cancelFirst hconn hpermit =>
      show _ ↔ (s.setConn d ⟨peer, .closed⟩ { s.cancel with permit := false }).Relays c
      rw [relays_setConn_iff hconn]
      split
      · rename_i hd
        subst hd
        refine iff_of_false (fun h => ?_) (by simp)
        obtain ⟨peer', hpeer'⟩ := (hs d).1 h
        rw [hconn] at hpeer'
        exact absurd hpeer' (by simp)
      · exact hs c
  | @relays d peer cancelFirst hconn hpermit =>
      show (s.cancel.wait _).1.Enrolled _ ↔ 
        (s.setConn d ⟨peer, .relaying⟩ (s.cancel.wait (.conn d)).1).Relays c
      rw [relays_setConn_iff hconn, Notify.enrolled_wait]
      split
      · rename_i hd
        subst hd
        exact iff_of_true (Or.inr ⟨hpermit, rfl⟩) rfl
      · rename_i hd
        rw [← hs c]
        constructor
        · rintro (h | ⟨-, h⟩)
          · exact h
          · exact absurd (Task.conn.inj h).symm hd
        · exact Or.inl
  | @leaves _ d peer cancel _ hconn henrolled _ =>
      show cancel.Enrolled _ ↔ _
      rw [relays_setConn_iff hconn, henrolled]
      split
      · rename_i hd
        subst hd
        exact iff_of_false (fun h => h.2 rfl) (by simp)
      · rename_i hd
        rw [← hs c]
        exact and_iff_left fun h => hd (Task.conn.inj h).symm
  | tunnel hf => exact hs c

/-- **A step leaves the room clear exactly when it is in time.** -/
theorem cleared_iff_of_effect {a : Label} (heffect : Effect s a t) (hs : Enrolls s)
    (hclear : Cleared s) : Cleared t ↔ InTime s a := by
  obtain ⟨hlate, hconns, htunnels⟩ := hclear
  cases heffect with
  | quiet hin hquiet =>
      refine iff_of_true ⟨?_, ?_, ?_⟩ hin
      · rw [hquiet.late, hlate]
      · intro hended c hrelays
        rw [hquiet.ended] at hended
        exact hquiet.woken c (hconns hended c ((hquiet.relays c).1 hrelays))
      · intro hended hmem
        rw [hquiet.ended] at hended
        exact htunnels hended (hquiet.tunnels hmem)
  | ends hin hended hlate' hconns' htunnels' hwoken _ =>
      rw [hin]
      constructor
      · intro hclear
        rw [← htunnels']
        exact hclear.tunnels hended
      · intro hmem
        refine ⟨?_, ?_, ?_⟩
        · rw [hlate', hlate]
        · -- the signal reaches everything enrolled, and all that relays is
          intro _ c hrelays
          rw [Server.Relays, hconns'] at hrelays
          exact (hwoken c).2 ((hs c).2 hrelays)
        · intro _
          rw [htunnels']
          exact hmem
  | @refused c peer cancelFirst hconn hpermit =>
      constructor
      · intro hclear hended
        refine ⟨hpermit, ?_⟩
        have hlate' := hclear.notLate
        simp only [hended, Bool.true_and, Bool.or_eq_false_iff, Bool.not_eq_false'] at hlate'
        exact hlate'.2
      · intro hin
        refine ⟨?_, ?_, htunnels⟩
        · show (s.late || (s.ended && !cancelFirst)) = false
          cases hended : s.ended with
          | false => simp [hlate]
          | true => simp [hlate, (hin hended).2]
        · intro hended d hrelays
          have hrelays' : (s.setConn c ⟨peer, .closed⟩ s.cancel).Relays d := hrelays
          rw [relays_setConn_iff hconn] at hrelays'
          split at hrelays'
          · exact absurd hrelays' (by simp)
          · exact hconns hended d hrelays'
  | @relays c peer cancelFirst hconn hpermit =>
      constructor
      · intro hclear hended
        have hlate' := hclear.notLate
        simp [hended] at hlate'
      · intro hin
        have hended : s.ended = false := by
          cases hended : s.ended with
          | false => rfl
          | true =>
              have hpermit' := (hin hended).1
              rw [hpermit] at hpermit'
              exact absurd hpermit' (by simp)
        refine ⟨by simp [hlate, hended], ?_, htunnels⟩
        intro hended'
        exact absurd (hended.symm.trans hended') (by simp)
  | @leaves _ c peer cancel hin hconn _ hwoken =>
      refine iff_of_true ⟨hlate, ?_, htunnels⟩ hin
      intro hended d hrelays
      rw [relays_setConn_iff hconn] at hrelays
      split at hrelays
      · exact absurd hrelays (by simp)
      · rename_i hd
        exact hwoken _ (fun h => hd (Task.conn.inj h).symm) (hconns hended d hrelays)
  | @tunnel f hf =>
      constructor
      · intro hclear
        have hlate' := hclear.notLate
        simp only [Bool.or_eq_false_iff] at hlate'
        exact hlate'.2
      · intro hended
        have hended' : s.ended = false := hended
        refine ⟨by simp [hlate, hended'], ?_, ?_⟩
        · intro h
          exact absurd (hended'.symm.trans h) (by simp)
        · intro h
          exact absurd (hended'.symm.trans h) (by simp)

end Step

/-- A signalled connection is cut when it runs again. -/
theorem cut_of_isWoken {s : Server} {c : Nat} {peer : Addr}
    (hconn : s.conns[c]? = some ⟨peer, .relaying⟩) (hwoken : s.cancel.IsWoken (.conn c)) :
    ∃ t, s.step config (.cut c) = some t ∧ t.conns[c]? = some ⟨peer, .closed⟩ := by
  have hlt : c < s.conns.length := by
    by_contra hge
    rw [List.getElem?_eq_none (Nat.le_of_not_lt hge)] at hconn
    exact absurd hconn (by simp)
  refine ⟨s.setConn c ⟨peer, .closed⟩ (s.cancel.complete (.conn c)), ?_, ?_⟩
  · simp [Server.step, Server.serveConn, hconn, hwoken]
  · simp [Server.setConn, hlt]

theorem enrolls_start : Enrolls (Server.start config) := by
  intro c
  simp [Server.start, Server.Relays]

theorem cleared_start : Cleared (Server.start config) where
  notLate := rfl
  conns h := absurd h (by simp [Server.start])
  tunnels h := absurd h (by simp [Server.start])

/-- **A share clears the room in the runs whose steps are all in time, and in no others.** -/
theorem cleared_along_iff (as : List Label) :
    (Server.machine config).Along Cleared (Server.start config) as ↔
      (Server.machine config).Meets InTime (Server.start config) as := by
  refine Machine.along_iff_meets (I := Enrolls) ?_ ?_ (enrolls_start config) (cleared_start config)
    as
  · intro s a t hs hst
    exact enrolls_of_effect (effect_of_step hst) hs
  · intro s a t hs hclear hst
    exact cleared_iff_of_effect (effect_of_step hst) hs hclear

/-- The share expires while a peer is in its handshake, and then relays the connection. -/
theorem exists_not_cleared :
    ∃ t, (Server.machine ⟨true, true, 0⟩).run (Server.start ⟨true, true, 0⟩)
        [.acceptPoll, .acceptConn 1, .deadline, .acceptExpired, .authenticated 0,
          .connected 0 false] = some t ∧
      ¬ Cleared t := by
  refine ⟨_, rfl, fun hclear => ?_⟩
  exact absurd hclear.notLate (by decide)

end DialF.Share
