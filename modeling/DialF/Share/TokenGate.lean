import DialF.Lib.Table
import DialF.Share.Server
import DialF.Share.Authenticate

/-!
# The gate of a share with a token

The tasks of a share, each connection with its wire, so that a connection has authenticated when its
wire says so. Peers connect in any order, on the share's own port and on the forward ports, and send
what they like in chunks of any size.

`dialled` lists the connections that have gone on to dial the upstream, and `proxied` the addresses
of the peers whose forward connections have been proxied.

`gated_of_reach`: whoever is let through has proved the token on a connection of its own.
-/

set_option autoImplicit false

namespace DialF.Share

open DialF.Lib

/-- The connection `c` is the peer's. -/
def Server.HasPeer (s : Server) (c : Nat) (peer : Addr) : Prop :=
  ∃ conn, s.conns[c]? = some conn ∧ conn.peer = peer

/-- The share, the bytes of its connections, and what has been dialled and relayed. -/
structure TokenShare where
  server : Server
  wires : List Wire
  dialled : List Nat
  proxied : List Addr

/-- A step of the share, or of one connection. -/
inductive TokenLabel where
  | server (a : Label)
  | wire (c : Nat) (a : WireLabel)
  deriving DecidableEq

namespace TokenShare

/-- The configuration of a share that has a token. -/
def config (expires : Bool) (forwards : Nat) : ServerConfig := ⟨expires, true, forwards⟩

section Machine

variable (mac : Bytes → Bytes → Digest) (token : Str) (expires : Bool) (forwards : Nat)

/-- The share as it starts, without a connection. -/
def start : TokenShare := ⟨Server.start (config expires forwards), [], [], []⟩

/-- A connection goes on to dial when its wire has been admitted. -/
def Permits (s : TokenShare) : Label → Prop
  | .authenticated c => (s.wires[c]?).map Wire.stage = some .admitted
  | _ => True

instance (s : TokenShare) (a : Label) : Decidable (s.Permits a) := by
  unfold Permits
  cases a <;> infer_instance

/-- What a step of the share's tasks adds. -/
def after (s : TokenShare) (a : Label) (server : Server) : TokenShare :=
  match a with
  | .acceptConn _ => { s with server := server, wires := s.wires ++ [Wire.new] }
  | .authenticated c => { s with server := server, dialled := c :: s.dialled }
  | .forwardConn _ peer =>
      -- a tunnel more: the connection was not refused
      if s.server.tunnels.length < server.tunnels.length then
        { s with server := server, proxied := peer :: s.proxied }
      else { s with server := server }
  | _ => { s with server := server }

/-- A connection reads lines until it has dialled or is over, and relays once it is connected. -/
def Active (s : TokenShare) (c : Nat) : WireLabel → Prop
  | .relay _ => (s.server.conns[c]?).map Conn.phase = some .relaying
  | _ => (s.server.conns[c]?).map Conn.phase = some .handshake

instance (s : TokenShare) (c : Nat) (a : WireLabel) : Decidable (s.Active c a) := by
  unfold Active
  cases a <;> infer_instance

/-- What one step does to the share, where it can be taken. -/
def step (s : TokenShare) : TokenLabel → Option TokenShare
  | .server a =>
      if s.Permits a then (s.server.step (config expires forwards) a).map (s.after a) else none
  | .wire c a =>
      match s.wires[c]? with
      | some w =>
          if s.Active c a then
            (w.step mac token a).map fun w' => { s with wires := s.wires.set c w' }
          else none
      | none => none

/-- All runs of a share with a token. -/
def machine : Machine TokenShare TokenLabel where
  Init s := s = start expires forwards
  step s a := s.step mac token expires forwards a

/-- **What the gate lets through.** -/
structure Gated (s : TokenShare) : Prop where
  /-- A connection that has dialled the upstream has proved the token for its own nonce. -/
  dialled : ∀ c ∈ s.dialled,
    ∃ w, s.wires[c]? = some w ∧ w.stage = .admitted ∧ w.Proved mac token
  /-- A forward connection is proxied for a peer that has such a connection. -/
  proxied : ∀ peer ∈ s.proxied, ∃ c ∈ s.dialled, s.server.HasPeer c peer
  /-- There are no other tunnels. -/
  tunnels : s.server.tunnels.length = s.proxied.length
  /-- Of any other connection nothing goes on to the upstream. -/
  shut : ∀ c, c ∉ s.dialled → (∀ w, s.wires[c]? = some w → w.relayed = []) ∧
    ∀ conn, s.server.conns[c]? = some conn → conn.phase = .handshake ∨ conn.phase = .closed

/-- The invariant: `Gated`, with a list entry for each fact that a step looks up. -/
structure Guarded (s : TokenShare) : Prop where
  wires : s.wires.length = s.server.conns.length
  sound : ∀ (c : Nat) (w : Wire), s.wires[c]? = some w → w.Sound mac token
  dialled : ∀ c ∈ s.dialled, ∃ w, s.wires[c]? = some w ∧ w.stage = .admitted
  authed : ∀ peer ∈ s.server.authed, ∃ c ∈ s.dialled, s.server.HasPeer c peer
  proxied : ∀ peer ∈ s.proxied, ∃ c ∈ s.dialled, s.server.HasPeer c peer
  tunnels : s.server.tunnels.length = s.proxied.length
  shut : ∀ c, c ∉ s.dialled → (∀ w, s.wires[c]? = some w → w.relayed = []) ∧
    ∀ conn, s.server.conns[c]? = some conn → conn.phase = .handshake ∨ conn.phase = .closed

end Machine

/-! ## What the tasks do to connections and addresses -/

/-- A step that lets nobody in. -/
def Plain : Label → Prop
  | .acceptConn _ | .authenticated _ | .forwardConn _ _ => False
  | _ => True

/-- A step of the share's tasks, by what it does to the connections, the addresses that have
authenticated and the tunnels. -/
inductive Moves (s : Server) : Label → Server → Prop where
  | accepts {peer : Addr} {t : Server} : t.conns = s.conns ++ [⟨peer, .handshake⟩] →
      t.authed = s.authed → t.tunnels.length = s.tunnels.length → Moves s (.acceptConn peer) t
  | authenticates {c : Nat} {peer : Addr} {t : Server} : s.conns[c]? = some ⟨peer, .handshake⟩ →
      t.conns = s.conns.set c ⟨peer, .connecting⟩ → t.authed = peer :: s.authed →
      t.tunnels.length = s.tunnels.length → Moves s (.authenticated c) t
  | proxies {k : Nat} {peer : Addr} {t : Server} : peer ∈ s.authed → t.conns = s.conns →
      t.authed = s.authed → t.tunnels.length = s.tunnels.length + 1 →
      Moves s (.forwardConn k peer) t
  | refuses {k : Nat} {peer : Addr} {t : Server} : t.conns = s.conns → t.authed = s.authed →
      t.tunnels.length = s.tunnels.length → Moves s (.forwardConn k peer) t
  | connects {a : Label} {c : Nat} {peer : Addr} {old new : Phase} {t : Server} : Plain a →
      s.conns[c]? = some ⟨peer, old⟩ → t.conns = s.conns.set c ⟨peer, new⟩ →
      new = .closed ∨ new = .relaying ∧ old = .connecting → t.authed = s.authed →
      t.tunnels.length = s.tunnels.length → Moves s a t
  | rests {a : Label} {t : Server} : Plain a → t.conns = s.conns → t.authed = s.authed →
      t.tunnels.length = s.tunnels.length → Moves s a t

section Moves

variable {expires : Bool} {forwards : Nat} {s t : Server} {a : Label}

theorem moves_acceptLoop (h : s.acceptLoop a = some t) : Moves s a t := by
  cases a <;> simp only [Server.acceptLoop, reduceCtorEq] at h
  case acceptConn peer =>
      obtain ⟨-, h⟩ := Option.ite_none_right_eq_some.1 h
      obtain rfl := Option.some.inj h
      exact .accepts rfl rfl rfl
  case acceptPoll =>
      obtain ⟨-, h⟩ := Option.ite_none_right_eq_some.1 h
      split at h <;> obtain rfl := Option.some.inj h <;>
        exact .rests trivial rfl rfl rfl
  all_goals
    obtain ⟨-, h⟩ := Option.ite_none_right_eq_some.1 h
    obtain rfl := Option.some.inj h
    exact .rests trivial rfl rfl rfl

theorem moves_forwardLoop (expires : Bool) (forwards : Nat)
    (h : s.forwardLoop (config expires forwards) a = some t) :
    Moves s a t := by
  cases a <;> simp only [Server.forwardLoop, reduceCtorEq] at h
  case forwardConn k peer =>
      obtain ⟨-, h⟩ := Option.ite_none_right_eq_some.1 h
      split at h
      · obtain rfl := Option.some.inj h
        exact .refuses rfl rfl rfl
      · rename_i hauthed
        obtain rfl := Option.some.inj h
        refine .proxies ?_ rfl rfl (by simp)
        exact Decidable.not_not.1 fun hnot => hauthed ⟨rfl, hnot⟩
  case forwardPoll k =>
      obtain ⟨-, h⟩ := Option.ite_none_right_eq_some.1 h
      split at h <;> obtain rfl := Option.some.inj h <;>
        exact .rests trivial rfl rfl rfl
  all_goals
    obtain ⟨-, h⟩ := Option.ite_none_right_eq_some.1 h
    obtain rfl := Option.some.inj h
    exact .rests trivial rfl rfl rfl

theorem moves_serveConn (h : s.serveConn a = some t) : Moves s a t := by
  cases a <;> simp only [Server.serveConn, reduceCtorEq] at h
  case authenticated c =>
      split at h
      · rename_i peer hc
        obtain rfl := Option.some.inj h
        exact .authenticates hc rfl rfl rfl
      · simp at h
  case connected c cancelFirst =>
      split at h
      · rename_i peer hc
        split at h <;> obtain rfl := Option.some.inj h
        · exact .connects trivial hc rfl (Or.inl rfl) rfl rfl
        · exact .connects trivial hc rfl (Or.inr ⟨rfl, rfl⟩) rfl rfl
      · simp at h
  case cut c =>
      split at h
      · rename_i peer hc
        obtain ⟨-, h⟩ := Option.ite_none_right_eq_some.1 h
        obtain rfl := Option.some.inj h
        exact .connects trivial hc rfl (Or.inl rfl) rfl rfl
      · simp at h
  case hangUp c =>
      split at h
      · rename_i peer hc
        obtain rfl := Option.some.inj h
        exact .connects trivial hc rfl (Or.inl rfl) rfl rfl
      · rename_i peer old _ hc
        obtain rfl := Option.some.inj h
        exact .connects trivial hc rfl (Or.inl rfl) rfl rfl
      · simp at h

theorem moves_of_step (h : s.step (config expires forwards) a = some t) : Moves s a t := by
  cases a with
  | deadline =>
      obtain ⟨-, h⟩ := Option.ite_none_right_eq_some.1 h
      obtain rfl := Option.some.inj h
      exact .rests trivial rfl rfl rfl
  | acceptPoll | acceptConn | acceptFailed | acceptCancelled | acceptExpired | acceptAborted =>
      exact moves_acceptLoop h
  | forwardPoll | forwardConn | forwardFailed | forwardCancelled | forwardExpired
  | forwardAborted => exact moves_forwardLoop expires forwards h
  | authenticated | connected | cut | hangUp => exact moves_serveConn h
  | tunnelConnected | tunnelClosed =>
      obtain ⟨-, h⟩ := Option.ite_none_right_eq_some.1 h
      obtain rfl := Option.some.inj h
      exact .rests trivial rfl rfl (by simp)
  | stopWakeWaiters | stopWakeOne | stopAbortForwards | stopJoined | stopTimedOut =>
      obtain ⟨-, h⟩ := Option.ite_none_right_eq_some.1 h
      obtain rfl := Option.some.inj h
      exact .rests trivial rfl rfl rfl

theorem hasPeer_of_set {c c' : Nat} {peer peer' : Addr} {old new : Phase}
    (hc : s.conns[c']? = some ⟨peer', old⟩) (hconns : t.conns = s.conns.set c' ⟨peer', new⟩)
    (hs : s.HasPeer c peer) : t.HasPeer c peer := by
  obtain ⟨conn, hconn, hpeer⟩ := hs
  rw [Server.HasPeer, hconns]
  by_cases heq : c' = c
  · subst heq
    obtain rfl := Option.some.inj (hc.symm.trans hconn)
    exact ⟨⟨peer', new⟩, getElem?_set_self_of_some hc, hpeer⟩
  · exact ⟨conn, (List.getElem?_set_ne heq).trans hconn, hpeer⟩

/-- A connection keeps its peer. -/
theorem hasPeer_of_moves {c : Nat} {peer : Addr} (h : Moves s a t) (hs : s.HasPeer c peer) :
    t.HasPeer c peer := by
  cases h with
  | accepts hconns _ _ =>
      obtain ⟨conn, hconn, hpeer⟩ := hs
      exact ⟨conn, hconns ▸ getElem?_concat_of_some hconn, hpeer⟩
  | proxies _ hconns _ _ | refuses hconns _ _ | rests _ hconns _ _ =>
      obtain ⟨conn, hconn, hpeer⟩ := hs
      exact ⟨conn, hconns ▸ hconn, hpeer⟩
  | authenticates hc hconns _ _ => exact hasPeer_of_set hc hconns hs
  | connects _ hc hconns _ _ _ => exact hasPeer_of_set hc hconns hs

end Moves

theorem after_of_plain {s : TokenShare} {server : Server} {a : Label} (h : Plain a) :
    s.after a server = { s with server := server } := by
  cases a <;> first | rfl | exact absurd h id

/-! ## The invariant -/

section Invariant

variable {mac : Bytes → Bytes → Digest} {token : Str} {expires : Bool} {forwards : Nat}
  {s t : TokenShare} {server : Server} {a : Label}

/-- A step of the tasks that changes neither wires nor lists, and opens no connection. -/
theorem Guarded.of_quiet (hs : s.Guarded mac token) (hmoves : Moves s.server a server)
    (hconns : server.conns.length = s.server.conns.length)
    (hauthed : server.authed = s.server.authed)
    (htunnels : server.tunnels.length = s.server.tunnels.length)
    (hshut : ∀ c, c ∉ s.dialled → ∀ conn, server.conns[c]? = some conn →
      conn.phase = .handshake ∨ conn.phase = .closed) :
    Guarded mac token { s with server := server } where
  wires := hs.wires.trans hconns.symm
  sound := hs.sound
  dialled := hs.dialled
  authed := by
    intro peer hpeer
    obtain ⟨c, hc, hhas⟩ := hs.authed peer (hauthed ▸ hpeer)
    exact ⟨c, hc, hasPeer_of_moves hmoves hhas⟩
  proxied := by
    intro peer hpeer
    obtain ⟨c, hc, hhas⟩ := hs.proxied peer hpeer
    exact ⟨c, hc, hasPeer_of_moves hmoves hhas⟩
  tunnels := htunnels.trans hs.tunnels
  shut := fun c hc => ⟨(hs.shut c hc).1, hshut c hc⟩

theorem guarded_accepts {peer : Addr} (hs : s.Guarded mac token)
    (hmoves : Moves s.server (.acceptConn peer) server)
    (hconns : server.conns = s.server.conns ++ [⟨peer, .handshake⟩])
    (hauthed : server.authed = s.server.authed)
    (htunnels : server.tunnels.length = s.server.tunnels.length) :
    (s.after (.acceptConn peer) server).Guarded mac token where
  wires := by simp [after, hconns, hs.wires]
  sound := by
    intro c w hw
    rcases getElem?_concat_cases hw with hold | ⟨-, rfl⟩
    · exact hs.sound c w hold
    · exact Wire.sound_new
  dialled := by
    intro c hc
    obtain ⟨w, hw, hstage⟩ := hs.dialled c hc
    exact ⟨w, getElem?_concat_of_some hw, hstage⟩
  authed := by
    intro p hp
    obtain ⟨c, hc, hhas⟩ := hs.authed p (hauthed ▸ hp)
    exact ⟨c, hc, hasPeer_of_moves hmoves hhas⟩
  proxied := by
    intro p hp
    obtain ⟨c, hc, hhas⟩ := hs.proxied p hp
    exact ⟨c, hc, hasPeer_of_moves hmoves hhas⟩
  tunnels := htunnels.trans hs.tunnels
  shut := by
    intro c hc
    constructor
    · intro w hw
      rcases getElem?_concat_cases hw with hold | ⟨-, rfl⟩
      · exact (hs.shut c hc).1 w hold
      · rfl
    · intro conn hconn
      rw [after, hconns] at hconn
      rcases getElem?_concat_cases hconn with hold | ⟨-, rfl⟩
      · exact (hs.shut c hc).2 conn hold
      · exact Or.inl rfl

/-- The wire has been admitted, so its peer is let in. -/
theorem guarded_authenticates {c : Nat} {peer : Addr} (hs : s.Guarded mac token)
    (hpermits : s.Permits (.authenticated c))
    (hmoves : Moves s.server (.authenticated c) server)
    (hc : s.server.conns[c]? = some ⟨peer, .handshake⟩)
    (hconns : server.conns = s.server.conns.set c ⟨peer, .connecting⟩)
    (hauthed : server.authed = peer :: s.server.authed)
    (htunnels : server.tunnels.length = s.server.tunnels.length) :
    (s.after (.authenticated c) server).Guarded mac token where
  wires := by simp [after, hconns, hs.wires]
  sound := hs.sound
  dialled := by
    intro d hd
    rcases List.mem_cons.1 hd with rfl | hold
    · exact Option.map_eq_some_iff.1 hpermits
    · exact hs.dialled d hold
  authed := by
    intro p hp
    rw [after, hauthed] at hp
    rcases List.mem_cons.1 hp with rfl | hold
    · refine ⟨c, List.mem_cons_self .., ⟨p, .connecting⟩, ?_, rfl⟩
      exact hconns ▸ getElem?_set_self_of_some hc
    · obtain ⟨d, hd, hhas⟩ := hs.authed p hold
      exact ⟨d, List.mem_cons_of_mem _ hd, hasPeer_of_moves hmoves hhas⟩
  proxied := by
    intro p hp
    obtain ⟨d, hd, hhas⟩ := hs.proxied p hp
    exact ⟨d, List.mem_cons_of_mem _ hd, hasPeer_of_moves hmoves hhas⟩
  tunnels := htunnels.trans hs.tunnels
  shut := by
    intro d hd
    obtain ⟨hne, hnot⟩ := not_or.1 (mt List.mem_cons.2 hd)
    refine ⟨(hs.shut d hnot).1, fun conn hconn => ?_⟩
    rw [after, hconns, List.getElem?_set_ne (Ne.symm hne)] at hconn
    exact (hs.shut d hnot).2 conn hconn

/-- A forward connection is proxied for an address that has authenticated. -/
theorem guarded_proxies {k : Nat} {peer : Addr} (hs : s.Guarded mac token)
    (hmoves : Moves s.server (.forwardConn k peer) server) (hpeer : peer ∈ s.server.authed)
    (hconns : server.conns = s.server.conns) (hauthed : server.authed = s.server.authed)
    (htunnels : server.tunnels.length = s.server.tunnels.length + 1) :
    (s.after (.forwardConn k peer) server).Guarded mac token := by
  have hhas : ∀ p ∈ s.server.authed, ∃ c ∈ s.dialled, server.HasPeer c p := by
    intro p hp
    obtain ⟨c, hc, hhas⟩ := hs.authed p hp
    exact ⟨c, hc, hasPeer_of_moves hmoves hhas⟩
  have hproxied : ∀ p ∈ s.proxied, ∃ c ∈ s.dialled, server.HasPeer c p := by
    intro p hp
    obtain ⟨c, hc, hhas⟩ := hs.proxied p hp
    exact ⟨c, hc, hasPeer_of_moves hmoves hhas⟩
  have hmore : s.server.tunnels.length < server.tunnels.length := by omega
  simp only [after, hmore, if_true]
  refine ⟨by simp [hconns, hs.wires], hs.sound, hs.dialled, ?_, ?_, ?_, ?_⟩
  · exact fun p hp => hhas p (hauthed ▸ hp)
  · intro p hp
    rcases List.mem_cons.1 hp with rfl | hold
    · exact hhas p hpeer
    · exact hproxied p hold
  · simp [htunnels, hs.tunnels]
  · exact fun c hc => ⟨(hs.shut c hc).1, fun conn hconn => (hs.shut c hc).2 conn (hconns ▸ hconn)⟩

theorem guarded_server (hs : s.Guarded mac token) (hpermits : s.Permits a)
    (h : s.server.step (config expires forwards) a = some server) :
    (s.after a server).Guarded mac token := by
  have hmoves := moves_of_step h
  have hquiet : server.conns = s.server.conns → server.authed = s.server.authed →
      server.tunnels.length = s.server.tunnels.length →
      Guarded mac token { s with server := server } := by
    intro hconns hauthed htunnels
    refine hs.of_quiet hmoves (by rw [hconns]) hauthed htunnels fun c hc conn hconn => ?_
    exact (hs.shut c hc).2 conn (hconns ▸ hconn)
  cases hmoves with
  | accepts hconns hauthed htunnels =>
      exact guarded_accepts hs (.accepts hconns hauthed htunnels) hconns hauthed htunnels
  | authenticates hc hconns hauthed htunnels =>
      exact guarded_authenticates hs hpermits (.authenticates hc hconns hauthed htunnels) hc hconns
        hauthed htunnels
  | proxies hpeer hconns hauthed htunnels =>
      exact guarded_proxies hs (.proxies hpeer hconns hauthed htunnels) hpeer hconns hauthed htunnels
  | refuses hconns hauthed htunnels =>
      simp only [after, htunnels, Nat.lt_irrefl, if_false]
      exact hquiet hconns hauthed htunnels
  | @connects _ c _ _ new _ hplain hc hconns hphase hauthed htunnels =>
      rw [after_of_plain hplain]
      refine hs.of_quiet (.connects hplain hc hconns hphase hauthed htunnels) (by simp [hconns])
        hauthed htunnels ?_
      intro d hd conn hconn
      rw [hconns] at hconn
      rcases getElem?_set_cases hconn with ⟨rfl, rfl⟩ | ⟨-, hold⟩
      · -- only a connection that has dialled can come to relay
        rcases hphase with hclosed | ⟨-, rfl⟩
        · exact Or.inr hclosed
        · rcases (hs.shut d hd).2 _ hc with h | h <;> cases h
      · exact (hs.shut d hd).2 conn hold
  | rests hplain hconns hauthed htunnels =>
      rw [after_of_plain hplain]
      exact hquiet hconns hauthed htunnels

theorem guarded_wire {c : Nat} {b : WireLabel} {w w' : Wire} (hs : s.Guarded mac token)
    (hw : s.wires[c]? = some w) (hactive : s.Active c b) (h : w.step mac token b = some w') :
    Guarded mac token { s with wires := s.wires.set c w' } where
  wires := by simp [hs.wires]
  sound := by
    intro d v hv
    rcases getElem?_set_cases hv with ⟨rfl, rfl⟩ | ⟨-, hold⟩
    · exact Wire.sound_step (hs.sound d w hw) h
    · exact hs.sound d v hold
  dialled := by
    intro d hd
    obtain ⟨v, hv, hstage⟩ := hs.dialled d hd
    by_cases heq : c = d
    · subst heq
      obtain rfl := Option.some.inj (hw.symm.trans hv)
      exact ⟨w', getElem?_set_self_of_some hw, Wire.admitted_step hstage h⟩
    · exact ⟨v, (List.getElem?_set_ne heq).trans hv, hstage⟩
  authed := hs.authed
  proxied := hs.proxied
  tunnels := hs.tunnels
  shut := by
    intro d hd
    refine ⟨fun v hv => ?_, (hs.shut d hd).2⟩
    rcases getElem?_set_cases hv with ⟨rfl, rfl⟩ | ⟨-, hold⟩
    · cases b with
      | relay chunk =>
          -- a connection that relays has dialled
          obtain ⟨conn, hconn, hphase⟩ := Option.map_eq_some_iff.1 hactive
          rcases (hs.shut d hd).2 conn hconn with h | h <;> cases hphase.symm.trans h
      | recv | poll | eof | fail =>
          exact (Wire.relayed_step (by simp) h).trans ((hs.shut d hd).1 w hw)
    · exact (hs.shut d hd).1 v hold

theorem guarded_step {b : TokenLabel} (hs : s.Guarded mac token)
    (h : s.step mac token expires forwards b = some t) : t.Guarded mac token := by
  cases b with
  | server a =>
      obtain ⟨hpermits, h⟩ := Option.ite_none_right_eq_some.1 h
      obtain ⟨server, hserver, rfl⟩ := Option.map_eq_some_iff.1 h
      exact guarded_server hs hpermits hserver
  | wire c b =>
      simp only [step] at h
      cases hw : s.wires[c]? with
      | none => simp [hw] at h
      | some w =>
          simp only [hw] at h
          obtain ⟨hactive, h⟩ := Option.ite_none_right_eq_some.1 h
          obtain ⟨w', hw', rfl⟩ := Option.map_eq_some_iff.1 h
          exact guarded_wire hs hw hactive hw'

theorem guarded_start : (start expires forwards).Guarded mac token where
  wires := rfl
  sound := by simp [start]
  dialled := by simp [start]
  authed := by simp [start, Server.start]
  proxied := by simp [start]
  tunnels := rfl
  shut := by simp [start, Server.start]

theorem guarded_of_reach (h : (machine mac token expires forwards).Reach s) :
    s.Guarded mac token := by
  refine Machine.invariant ?_ ?_ s h
  · rintro s rfl
    exact guarded_start
  · intro s a t hs _ hstep
    exact guarded_step hs hstep

end Invariant

/-- **The token gate.** On a share with a token, whatever the peers send and in whatever order the
tasks run, nothing gets through but behind a handshake of its own. -/
theorem gated_of_reach (mac : Bytes → Bytes → Digest) (token : Str) (expires : Bool)
    (forwards : Nat) (s : TokenShare) (h : (machine mac token expires forwards).Reach s) :
    s.Gated mac token := by
  have hs := guarded_of_reach h
  refine ⟨fun c hc => ?_, hs.proxied, hs.tunnels, hs.shut⟩
  obtain ⟨w, hw, hstage⟩ := hs.dialled c hc
  have hsound := hs.sound c w hw
  rw [Wire.Sound, hstage] at hsound
  exact ⟨w, hw, hstage, hsound⟩

/-- A nonce, and its HMAC-SHA256 under the token of `authenticatedRun`. -/
def sampleNonce : Digest :=
  #v[0, 1, 2, 3, 4, 5, 6, 7, 8, 9, 10, 11, 12, 13, 14, 15, 16, 17, 18, 19, 20, 21, 22, 23, 24, 25,
    26, 27, 28, 29, 30, 31]

/-- A digest for a concrete run. -/
def sampleDigest : Digest :=
  #v[69, 255, 175, 86, 172, 35, 250, 183, 34, 27, 6, 177, 211, 136, 238, 255, 229, 179, 7, 73, 170,
    158, 143, 135, 194, 242, 2, 170, 111, 155, 33, 14]

/-- A peer authenticates with the preamble in two chunks, and uses a forward port. -/
def authenticatedRun : List TokenLabel :=
  [.server (.acceptConn 7), .wire 0 (.recv (utf8 "DIALF-S".toList)), .wire 0 (.poll sampleNonce),
    .wire 0 (.recv (utf8 "HARE/1 adb\n".toList)), .wire 0 (.poll sampleNonce),
    .wire 0 (.recv (utf8 ("AUTH ".toList ++ hex sampleDigest.toList ++ ['\n']))),
    .wire 0 (.poll sampleNonce), .server (.authenticated 0), .server (.connected 0 true),
    .wire 0 (.relay (utf8 "000chost:version".toList)), .server (.forwardConn 0 7)]

theorem gated_authenticatedRun :
    ∃ s, (machine (fun _ _ => sampleDigest) "dvs_abcdefghijkm".toList false 1).run (start false 1)
        authenticatedRun = some s ∧ s.dialled = [0] ∧ s.proxied = [7] ∧
      s.Gated (fun _ _ => sampleDigest) "dvs_abcdefghijkm".toList := by
  have hrun : ((machine (fun _ _ => sampleDigest) "dvs_abcdefghijkm".toList false 1).run
      (start false 1) authenticatedRun).map (fun s => (s.dialled, s.proxied)) =
        some ([0], [7]) := by
    decide +kernel
  obtain ⟨s, hs, heq⟩ := Option.map_eq_some_iff.1 hrun
  obtain ⟨hdialled, hproxied⟩ := Prod.mk.inj heq
  refine ⟨s, hs, hdialled, hproxied, ?_⟩
  exact gated_of_reach _ _ _ _ _ (Machine.reach_of_run (.init rfl) hs)

end TokenShare

end DialF.Share
