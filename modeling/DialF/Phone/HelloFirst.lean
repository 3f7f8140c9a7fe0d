import DialF.Lib.Machine
import DialF.Phone.Link

/-!
# The hello is the first frame

The daemon drops a connection whose first frame is not a hello. On every socket that opens, the
hello is the first frame exactly when nothing has been given to the socket before its handshake is
complete, and nothing is sent on it between the handshake and `onOpen`'s hello
(`allHelloFirst_along_iff`). Senders use `ws` from the moment the connection attempt starts, so both
happen.
-/

set_option autoImplicit false

namespace DialF.Phone

open DialF.Lib DialF.Daemon

namespace Socket

/-- The first frame written is a hello, so that the daemon does not miss one. -/
def HelloFirst (sock : Socket) : Prop :=
  ∀ f, sock.written.head? = some f →
    f.IsHello ∧ ∀ sharedKey peer got, greet sharedKey peer f ≠ .error (.expectedHello got)

/-- The socket is open, takes frames, and has not sent its hello. -/
def Exposed (sock : Socket) : Prop :=
  sock.handshaken = true ∧ sock.greeted = false ∧ sock.closing = false

/-- What holds of every socket: the hello goes out in `onOpen`, and an open socket without any frame
has refused it. -/
structure Sound (sock : Socket) : Prop where
  opened : sock.greeted = true → sock.handshaken = true
  waiting : sock.greeted = false → ∀ f ∈ sock.frames, ¬ f.IsHello
  refused : sock.greeted = true → sock.frames = [] → sock.closing = true

variable {sock : Socket} {f : PhoneToServer}

theorem helloFirst_iff :
    sock.HelloFirst ↔ ∀ f, sock.written.head? = some f → f.IsHello := by
  constructor
  · intro h f hf
    exact (h f hf).1
  · intro h f hf
    refine ⟨h f hf, ?_⟩
    intro sharedKey peer got hgot
    exact (greet_eq_expectedHello.1 hgot).2 (h f hf)

theorem sound_fresh : fresh.Sound where
  opened := by simp [fresh]
  waiting := by simp [fresh]
  refused := by simp [fresh]

theorem helloFirst_fresh : fresh.HelloFirst := by
  intro f hf
  simp [fresh, written] at hf

theorem sound_close (h : sock.Sound) : sock.close.Sound :=
  ⟨h.opened, h.waiting, fun _ _ => rfl⟩

theorem sound_send (h : sock.Sound) (hf : ¬ f.IsHello) : (sock.send f).Sound := by
  cases hclosing : sock.closing with
  | true => simpa [send, hclosing] using h
  | false =>
      simp only [send, hclosing]
      refine ⟨h.opened, ?_, ?_⟩
      · intro hgreeted g hg
        rcases List.mem_append.1 hg with hold | hnew
        · exact h.waiting hgreeted g hold
        · rw [List.mem_singleton.1 hnew]
          exact hf
      · intro _ hnil
        simp at hnil

/-- An open socket that has not greeted has had nothing to write, if its first frame is a hello. -/
theorem frames_eq_nil (h : sock.Sound) (hfirst : sock.HelloFirst) (hopen : sock.handshaken = true)
    (hwaiting : sock.greeted = false) : sock.frames = [] := by
  cases hframes : sock.frames with
  | nil => rfl
  | cons f rest =>
      have hhead : sock.written.head? = some f := by simp [written, hopen, hframes]
      exact absurd (hfirst f hhead).1 (h.waiting hwaiting f (by simp [hframes]))

/-- **Sending spoils the order exactly on a socket that is open and has not greeted.** -/
theorem helloFirst_send_iff (h : sock.Sound) (hfirst : sock.HelloFirst) (hf : ¬ f.IsHello) :
    (sock.send f).HelloFirst ↔ ¬ sock.Exposed := by
  cases hclosing : sock.closing with
  | true =>
      refine iff_of_true ?_ fun hexposed => ?_
      · simpa [send, hclosing] using hfirst
      · exact absurd (hclosing.symm.trans hexposed.2.2) (by simp)
  | false =>
      cases hopen : sock.handshaken with
      | false =>
          refine iff_of_true ?_ fun hexposed => ?_
          · intro g hg
            simp [send, hclosing, written, hopen] at hg
          · exact absurd (hopen.symm.trans hexposed.1) (by simp)
      | true =>
          cases hgreeted : sock.greeted with
          | false =>
              -- the frame becomes the first one
              refine iff_of_false ?_ fun hnot => hnot ⟨hopen, hgreeted, hclosing⟩
              intro hafter
              have hnil := frames_eq_nil h hfirst hopen hgreeted
              exact hf (hafter f (by simp [send, hclosing, written, hopen, hnil])).1
          | true =>
              refine iff_of_true ?_ fun hexposed => ?_
              · cases hframes : sock.frames with
                | nil => exact absurd ((h.refused hgreeted hframes).symm.trans hclosing) (by simp)
                | cons g rest =>
                    intro first hhead
                    apply hfirst first
                    simpa [send, hclosing, written, hopen, hframes] using hhead
              · exact absurd (hgreeted.symm.trans hexposed.2.1) (by simp)

/-- The handshake writes the queue out. -/
theorem helloFirst_handshake_iff (h : sock.Sound) (hnot : sock.handshaken = false) :
    ({ sock with handshaken := true } : Socket).HelloFirst ↔ sock.frames = [] := by
  have hwaiting : sock.greeted = false := by
    cases hgreeted : sock.greeted with
    | false => rfl
    | true => exact absurd ((h.opened hgreeted).symm.trans hnot) (by simp)
  have hsound : ({ sock with handshaken := true } : Socket).Sound :=
    ⟨fun _ => rfl, h.waiting, h.refused⟩
  constructor
  · intro hfirst
    have hnil := frames_eq_nil hsound hfirst rfl hwaiting
    exact hnil
  · intro hnil f hf
    simp [written, hnil] at hf

/-- The hello of `onOpen` is refused by a socket that has been closed. -/
theorem sound_hello {identity : Identity} (hopen : sock.handshaken = true) :
    ({ sock.send identity.hello with greeted := true } : Socket).Sound := by
  cases hclosing : sock.closing with
  | true =>
      simp only [send, hclosing, if_true]
      exact ⟨fun _ => hopen, fun hno => absurd hno (by simp), fun _ _ => rfl⟩
  | false =>
      simp only [send, hclosing]
      exact ⟨fun _ => hopen, fun hno => absurd hno (by simp), fun _ hnil => by simp at hnil⟩

theorem helloFirst_hello {identity : Identity} (h : sock.Sound) (hfirst : sock.HelloFirst)
    (hopen : sock.handshaken = true) (hwaiting : sock.greeted = false) :
    ({ sock.send identity.hello with greeted := true } : Socket).HelloFirst := by
  have hnil := frames_eq_nil h hfirst hopen hwaiting
  rw [helloFirst_iff]
  intro f hf
  cases hclosing : sock.closing with
  | true => simp [send, hclosing, written, hnil] at hf
  | false =>
      simp only [send, hclosing, written, hopen, hnil, List.nil_append, if_true, Bool.false_eq_true,
        if_false, List.head?_cons, Option.some.injEq] at hf
      rw [← hf]
      trivial

end Socket

namespace Link

/-- The first frame on every socket is its hello. -/
def AllHelloFirst (l : Link) : Prop := ∀ sock ∈ l.sockets, sock.HelloFirst

/-- Every socket is sound. -/
def Sound (l : Link) : Prop := ∀ sock ∈ l.sockets, sock.Sound

/-- The current socket is open and has not sent its hello. -/
def Exposed (l : Link) : Prop :=
  ∃ k sock, l.ws = some k ∧ l.sockets[k]? = some sock ∧ sock.Exposed

/-- The step sends on the current socket. -/
def SendsOnCurrent (l : Link) : LinkLabel → Prop
  | .verifyLink nowMs => l.running = true ∧ l.suspect nowMs = false
  | .heartbeat nowMs => l.silent nowMs livenessTimeoutMs = false
  | .pokeHeartbeat _ => True
  | .setAdb enabled port _ => ¬ (enabled = l.adbWifiEnabled ∧ port = l.adbPort)
  | .onAdbResolved _ port _ => l.adbWifiEnabled = true ∧ some port ≠ l.adbPort
  | .event (.callState _) => True
  | .event (.sms _ _ _ _ _) => True
  | _ => False

/-- The step lets no frame go ahead of a hello: a socket opens with an empty queue, and nothing is
sent on the current socket while it is open and has not greeted. -/
def WaitsForHello (l : Link) : LinkLabel → Prop
  | .handshake k => ∀ sock, l.sockets[k]? = some sock → sock.frames = []
  | a => l.SendsOnCurrent a → ¬ l.Exposed

/-- All runs of the connection service, under any identity. -/
def machine : Machine Link LinkLabel where
  Init l := ∃ identity, l = start identity
  step := step

variable {l t : Link} {k : Nat} {f : PhoneToServer}

theorem handshake_eq_some (h : l.step (.handshake k) = some t) :
    ∃ sock, l.sockets[k]? = some sock ∧ sock.handshaken = false ∧
      t = l.onSocket k fun sock => { sock with handshaken := true } := by
  simp only [step] at h
  split at h
  · rename_i sock hk
    split at h
    · simp at h
    · rename_i hnot
      exact ⟨sock, hk, by simpa using hnot, (Option.some.inj h).symm⟩
  · simp at h

theorem onOpen_eq_some {nowMs : Int} (h : l.step (.onOpen k nowMs) = some t) :
    ∃ sock, l.sockets[k]? = some sock ∧ sock.handshaken = true ∧ sock.greeted = false ∧
      t = l.onOpen k nowMs := by
  simp only [step] at h
  split at h
  · rename_i sock hk
    split at h
    · rename_i hready
      simp only [Bool.and_eq_true, Bool.not_eq_true'] at hready
      exact ⟨sock, hk, hready.1, hready.2, (Option.some.inj h).symm⟩
    · simp at h
  · simp at h

theorem reply_eq_some (h : l.step (.reply k f) = some t) :
    ∃ sock, l.sockets[k]? = some sock ∧ sock.greeted = true ∧ f.IsReply ∧
      t = l.onSocket k fun sock => sock.send f := by
  simp only [step] at h
  split at h
  · rename_i sock hk
    split at h
    · rename_i hready
      exact ⟨sock, hk, hready.1, hready.2, (Option.some.inj h).symm⟩
    · simp at h
  · simp at h

/-- What holds of all sockets after one of them has changed. -/
theorem forall_onSocket_iff {P : Socket → Prop} {g : Socket → Socket}
    (h : ∀ sock ∈ l.sockets, P sock) :
    (∀ sock ∈ (l.onSocket k g).sockets, P sock) ↔
      ∀ sock, l.sockets[k]? = some sock → P (g sock) := by
  simp only [onSocket, List.mem_iff_getElem?, List.getElem?_modify]
  constructor
  · intro hall sock hk
    exact hall (g sock) ⟨k, by simp [hk]⟩
  · rintro hk sock ⟨i, hi⟩
    by_cases hik : k = i
    · subst hik
      cases hold : l.sockets[k]? with
      | none => simp [hold] at hi
      | some old =>
          simp only [hold, if_true, Option.map_eq_map, Option.map_some, Option.some.injEq] at hi
          exact hi ▸ hk old hold
    · cases hold : l.sockets[i]? with
      | none => simp [hold] at hi
      | some old =>
          simp only [hik, hold, if_false, Option.map_eq_map, Option.map_some,
            Option.some.injEq] at hi
          exact hi ▸ h old (List.mem_of_getElem? hold)

/-! ## Sending on the current socket -/

theorem sound_sendCurrent (h : l.Sound) (hf : ¬ f.IsHello) : (l.sendCurrent f).Sound := by
  unfold sendCurrent
  cases l.ws with
  | none => exact h
  | some k =>
      refine (forall_onSocket_iff h).2 fun sock hk => ?_
      exact Socket.sound_send (h sock (List.mem_of_getElem? hk)) hf

theorem allHelloFirst_sendCurrent_iff (h : l.Sound) (hfirst : l.AllHelloFirst)
    (hf : ¬ f.IsHello) : (l.sendCurrent f).AllHelloFirst ↔ ¬ l.Exposed := by
  cases hws : l.ws with
  | none =>
      refine iff_of_true ?_ ?_
      · simpa [sendCurrent, hws] using hfirst
      · rintro ⟨k, sock, hk, -, -⟩
        rw [hws] at hk
        cases hk
  | some k =>
      simp only [sendCurrent, hws, AllHelloFirst]
      rw [forall_onSocket_iff hfirst]
      constructor
      · rintro hall ⟨k', sock, hk', hsock, hexposed⟩
        obtain rfl := Option.some.inj (hws.symm.trans hk')
        have hmem := List.mem_of_getElem? hsock
        exact (Socket.helloFirst_send_iff (h sock hmem) (hfirst sock hmem) hf).1 (hall sock hsock)
          hexposed
      · intro hnot sock hsock
        have hmem := List.mem_of_getElem? hsock
        refine (Socket.helloFirst_send_iff (h sock hmem) (hfirst sock hmem) hf).2 ?_
        exact fun hexposed => hnot ⟨k, sock, hws, hsock, hexposed⟩

/-! ## Closing -/

theorem sound_onSocket {g : Socket → Socket} (hg : ∀ sock : Socket, sock.Sound → (g sock).Sound)
    (h : l.Sound) : (l.onSocket k g).Sound :=
  (forall_onSocket_iff h).2 fun sock hk => hg sock (h sock (List.mem_of_getElem? hk))

theorem allHelloFirst_close (h : l.AllHelloFirst) : (l.onSocket k Socket.close).AllHelloFirst :=
  (forall_onSocket_iff h).2 fun sock hk => h sock (List.mem_of_getElem? hk)

theorem sound_closeCurrent (h : l.Sound) : l.closeCurrent.Sound := by
  unfold closeCurrent
  cases l.ws with
  | none => exact h
  | some k => exact sound_onSocket (k := k) (fun _ => Socket.sound_close) h

theorem allHelloFirst_closeCurrent (h : l.AllHelloFirst) : l.closeCurrent.AllHelloFirst := by
  unfold closeCurrent
  cases l.ws with
  | none => exact h
  | some k => exact allHelloFirst_close (k := k) h

theorem sound_dropped (h : l.Sound) : (l.dropped k).Sound := by
  have hclosed : (l.onSocket k Socket.close).Sound :=
    sound_onSocket (fun _ => Socket.sound_close) h
  simp only [dropped]
  split
  · exact hclosed
  · exact hclosed

theorem allHelloFirst_dropped (h : l.AllHelloFirst) : (l.dropped k).AllHelloFirst := by
  have hclosed : (l.onSocket k Socket.close).AllHelloFirst := allHelloFirst_close h
  simp only [dropped]
  split
  · exact hclosed
  · exact hclosed

/-! ## The methods that may send -/

theorem not_isHello_heartbeatFrame (nowMs : Int) : ¬ (l.heartbeatFrame nowMs).IsHello := fun h => h

theorem sound_pokeHeartbeat (h : l.Sound) (nowMs : Int) : (l.pokeHeartbeat nowMs).Sound :=
  sound_sendCurrent h (not_isHello_heartbeatFrame nowMs)

theorem allHelloFirst_pokeHeartbeat_iff (h : l.Sound) (hfirst : l.AllHelloFirst) (nowMs : Int) :
    (l.pokeHeartbeat nowMs).AllHelloFirst ↔ ¬ l.Exposed :=
  allHelloFirst_sendCurrent_iff h hfirst (not_isHello_heartbeatFrame nowMs)

theorem sound_setAdb (h : l.Sound) (enabled : Bool) (port : Option Nat) (nowMs : Int) :
    (l.setAdb enabled port nowMs).Sound := by
  unfold setAdb
  split
  · exact h
  · exact sound_pokeHeartbeat (l := { l with adbWifiEnabled := enabled, adbPort := port }) h nowMs

theorem allHelloFirst_setAdb_iff (h : l.Sound) (hfirst : l.AllHelloFirst) (enabled : Bool)
    (port : Option Nat) (nowMs : Int) :
    (l.setAdb enabled port nowMs).AllHelloFirst ↔
      (¬ (enabled = l.adbWifiEnabled ∧ port = l.adbPort) → ¬ l.Exposed) := by
  unfold setAdb
  split
  · rename_i hsame
    exact iff_of_true hfirst fun hchanged => absurd hsame hchanged
  · rename_i hchanged
    rw [imp_iff_right hchanged]
    exact allHelloFirst_pokeHeartbeat_iff
      (l := { l with adbWifiEnabled := enabled, adbPort := port }) h hfirst nowMs

theorem sound_onAdbResolved (h : l.Sound) (name : String) (port : Nat) (nowMs : Int) :
    (l.onAdbResolved name port nowMs).Sound := by
  simp only [onAdbResolved]
  split
  · exact sound_setAdb (l := { l with ownAdbService := some name }) h true (some port) nowMs
  · exact h

theorem allHelloFirst_onAdbResolved_iff (h : l.Sound) (hfirst : l.AllHelloFirst) (name : String)
    (port : Nat) (nowMs : Int) :
    (l.onAdbResolved name port nowMs).AllHelloFirst ↔
      (l.adbWifiEnabled = true ∧ some port ≠ l.adbPort → ¬ l.Exposed) := by
  simp only [onAdbResolved]
  split
  · rename_i hwifi
    have hset := allHelloFirst_setAdb_iff (l := { l with ownAdbService := some name }) h hfirst
      true (some port) nowMs
    simp only [hwifi, true_and] at hset ⊢
    exact hset
  · rename_i hwifi
    exact iff_of_true hfirst fun hsends => absurd hsends.1 hwifi

theorem sound_verifyLink (h : l.Sound) (nowMs : Int) : (l.verifyLink nowMs).Sound := by
  unfold verifyLink
  split
  · split
    · exact sound_closeCurrent h
    · exact sound_pokeHeartbeat h nowMs
  · exact h

theorem allHelloFirst_verifyLink_iff (h : l.Sound) (hfirst : l.AllHelloFirst) (nowMs : Int) :
    (l.verifyLink nowMs).AllHelloFirst ↔
      (l.running = true ∧ l.suspect nowMs = false → ¬ l.Exposed) := by
  unfold verifyLink
  split
  · rename_i hrunning
    split
    · rename_i hsuspect
      refine iff_of_true (allHelloFirst_closeCurrent hfirst) fun hsends => ?_
      exact absurd (hsuspect.symm.trans hsends.2) (by simp)
    · rename_i hsuspect
      rw [imp_iff_right ⟨hrunning, by simpa using hsuspect⟩]
      exact allHelloFirst_pokeHeartbeat_iff h hfirst nowMs
  · rename_i hstopped
    exact iff_of_true hfirst fun hsends => absurd hsends.1 hstopped

theorem sound_beat (h : l.Sound) (nowMs : Int) : (l.beat nowMs).Sound := by
  unfold beat
  split
  · exact h
  · split
    · exact sound_closeCurrent h
    · exact sound_pokeHeartbeat h nowMs

theorem allHelloFirst_beat_iff (h : l.Sound) (hfirst : l.AllHelloFirst) (nowMs : Int) :
    (l.beat nowMs).AllHelloFirst ↔
      (l.silent nowMs livenessTimeoutMs = false → ¬ l.Exposed) := by
  unfold beat
  split
  · rename_i hws
    refine iff_of_true hfirst ?_
    rintro - ⟨k, sock, hk, -, -⟩
    rw [hws] at hk
    cases hk
  · split
    · rename_i hsilent
      refine iff_of_true (allHelloFirst_closeCurrent hfirst) fun hsends => ?_
      exact absurd (hsilent.symm.trans hsends) (by simp)
    · rename_i hsilent
      rw [imp_iff_right (by simpa using hsilent)]
      exact allHelloFirst_pokeHeartbeat_iff h hfirst nowMs

/-- Events are never hellos. -/
theorem sound_send (h : l.Sound) : (l.send f).Sound := by
  cases f with
  | callState report => exact sound_sendCurrent h fun hhello => hhello
  | sms direction sender recipient body ts => exact sound_sendCurrent h fun hhello => hhello
  | _ => exact h

theorem allHelloFirst_send_iff (h : l.Sound) (hfirst : l.AllHelloFirst) :
    (l.send f).AllHelloFirst ↔ l.WaitsForHello (.event f) := by
  cases f with
  | callState report =>
      show _ ↔ (True → ¬ l.Exposed)
      rw [true_imp_iff]
      exact allHelloFirst_sendCurrent_iff h hfirst fun hhello => hhello
  | sms direction sender recipient body ts =>
      show _ ↔ (True → ¬ l.Exposed)
      rw [true_imp_iff]
      exact allHelloFirst_sendCurrent_iff h hfirst fun hhello => hhello
  | _ => exact iff_of_true hfirst fun hsends => hsends.elim

/-! ## One step of the service -/

theorem sound_step {a : LinkLabel} (hl : l.Sound) (h : l.step a = some t) : t.Sound := by
  cases a with
  | onStartCommand =>
      obtain ⟨-, rfl⟩ := onStartCommand_eq_some h
      exact hl
  | onDestroy =>
      obtain rfl := Option.some.inj h
      exact sound_closeCurrent hl
  | connect =>
      simp only [step, connect] at h
      split at h
      · obtain rfl := Option.some.inj h
        intro sock hmem
        rcases List.mem_append.1 hmem with hold | hnew
        · exact hl sock hold
        · rw [List.mem_singleton.1 hnew]
          exact Socket.sound_fresh
      · simp at h
  | publish =>
      simp only [step] at h
      split at h
      · obtain rfl := Option.some.inj h
        exact hl
      · simp at h
  | handshake k =>
      obtain ⟨sock, hk, hnot, rfl⟩ := handshake_eq_some h
      refine (forall_onSocket_iff hl).2 fun sock' hk' => ?_
      have hsock := hl sock' (List.mem_of_getElem? hk')
      exact ⟨fun _ => rfl, hsock.waiting, hsock.refused⟩
  | onOpen k nowMs =>
      obtain ⟨sock, hk, hopen, -, rfl⟩ := onOpen_eq_some h
      refine (forall_onSocket_iff hl).2 fun sock' hk' => ?_
      obtain rfl := Option.some.inj (hk.symm.trans hk')
      exact Socket.sound_hello hopen
  | onMessage k nowMs heartbeatAck =>
      simp only [step] at h
      split at h
      · split at h
        · obtain rfl := Option.some.inj h
          exact hl
        · simp at h
      · simp at h
  | reply k f =>
      obtain ⟨sock, -, -, hf, rfl⟩ := reply_eq_some h
      exact sound_onSocket (fun _ hsock => Socket.sound_send hsock hf.not_isHello) hl
  | onClosing k =>
      obtain rfl := Option.some.inj h
      exact sound_onSocket (fun _ => Socket.sound_close) hl
  | dropped k =>
      obtain rfl := Option.some.inj h
      exact sound_dropped hl
  | forceReconnect =>
      obtain rfl := Option.some.inj h
      exact sound_closeCurrent hl
  | verifyLink nowMs =>
      obtain rfl := Option.some.inj h
      exact sound_verifyLink hl nowMs
  | heartbeat nowMs =>
      simp only [step] at h
      split at h
      · obtain rfl := Option.some.inj h
        exact sound_beat hl nowMs
      · simp at h
  | pokeHeartbeat nowMs =>
      obtain rfl := Option.some.inj h
      exact sound_pokeHeartbeat hl nowMs
  | setAdb enabled port nowMs =>
      obtain rfl := Option.some.inj h
      exact sound_setAdb hl enabled port nowMs
  | onAdbResolved name port nowMs =>
      obtain rfl := Option.some.inj h
      exact sound_onAdbResolved hl name port nowMs
  | event f =>
      obtain rfl := Option.some.inj h
      exact sound_send hl

/-- **A step keeps the hellos first exactly when it waits for them.** -/
theorem allHelloFirst_iff_of_step {a : LinkLabel} (hl : l.Sound) (hfirst : l.AllHelloFirst)
    (h : l.step a = some t) : t.AllHelloFirst ↔ l.WaitsForHello a := by
  cases a with
  | onStartCommand =>
      obtain ⟨-, rfl⟩ := onStartCommand_eq_some h
      exact iff_of_true hfirst fun hsends => hsends.elim
  | onDestroy =>
      obtain rfl := Option.some.inj h
      exact iff_of_true (allHelloFirst_closeCurrent hfirst) fun hsends => hsends.elim
  | connect =>
      refine iff_of_true ?_ fun hsends => hsends.elim
      simp only [step, connect] at h
      split at h
      · obtain rfl := Option.some.inj h
        intro sock hmem
        rcases List.mem_append.1 hmem with hold | hnew
        · exact hfirst sock hold
        · rw [List.mem_singleton.1 hnew]
          exact Socket.helloFirst_fresh
      · simp at h
  | publish =>
      refine iff_of_true ?_ fun hsends => hsends.elim
      simp only [step] at h
      split at h
      · obtain rfl := Option.some.inj h
        exact hfirst
      · simp at h
  | handshake k =>
      obtain ⟨sock, hk, hnot, rfl⟩ := handshake_eq_some h
      refine (forall_onSocket_iff hfirst).trans ?_
      refine forall_congr' fun sock' => imp_congr_right fun hk' => ?_
      obtain rfl := Option.some.inj (hk.symm.trans hk')
      exact Socket.helloFirst_handshake_iff (hl sock (List.mem_of_getElem? hk)) hnot
  | onOpen k nowMs =>
      refine iff_of_true ?_ fun hsends => hsends.elim
      obtain ⟨sock, hk, hopen, hwaiting, rfl⟩ := onOpen_eq_some h
      refine (forall_onSocket_iff hfirst).2 fun sock' hk' => ?_
      obtain rfl := Option.some.inj (hk.symm.trans hk')
      have hmem := List.mem_of_getElem? hk
      exact Socket.helloFirst_hello (hl sock hmem) (hfirst sock hmem) hopen hwaiting
  | onMessage k nowMs heartbeatAck =>
      refine iff_of_true ?_ fun hsends => hsends.elim
      simp only [step] at h
      split at h
      · split at h
        · obtain rfl := Option.some.inj h
          exact hfirst
        · simp at h
      · simp at h
  | reply k f =>
      refine iff_of_true ?_ fun hsends => hsends.elim
      obtain ⟨sock, hk, hgreeted, hf, rfl⟩ := reply_eq_some h
      refine (forall_onSocket_iff hfirst).2 fun sock' hk' => ?_
      obtain rfl := Option.some.inj (hk.symm.trans hk')
      have hmem := List.mem_of_getElem? hk
      apply (Socket.helloFirst_send_iff (hl sock hmem) (hfirst sock hmem) hf.not_isHello).2
      intro hexposed
      exact absurd (hgreeted.symm.trans hexposed.2.1) (by simp)
  | onClosing k =>
      obtain rfl := Option.some.inj h
      exact iff_of_true (allHelloFirst_close hfirst) fun hsends => hsends.elim
  | dropped k =>
      obtain rfl := Option.some.inj h
      exact iff_of_true (allHelloFirst_dropped hfirst) fun hsends => hsends.elim
  | forceReconnect =>
      obtain rfl := Option.some.inj h
      exact iff_of_true (allHelloFirst_closeCurrent hfirst) fun hsends => hsends.elim
  | verifyLink nowMs =>
      obtain rfl := Option.some.inj h
      exact allHelloFirst_verifyLink_iff hl hfirst nowMs
  | heartbeat nowMs =>
      simp only [step] at h
      split at h
      · obtain rfl := Option.some.inj h
        exact allHelloFirst_beat_iff hl hfirst nowMs
      · simp at h
  | pokeHeartbeat nowMs =>
      obtain rfl := Option.some.inj h
      show _ ↔ (True → ¬ l.Exposed)
      rw [true_imp_iff]
      exact allHelloFirst_pokeHeartbeat_iff hl hfirst nowMs
  | setAdb enabled port nowMs =>
      obtain rfl := Option.some.inj h
      exact allHelloFirst_setAdb_iff hl hfirst enabled port nowMs
  | onAdbResolved name port nowMs =>
      obtain rfl := Option.some.inj h
      exact allHelloFirst_onAdbResolved_iff hl hfirst name port nowMs
  | event f =>
      obtain rfl := Option.some.inj h
      exact allHelloFirst_send_iff hl hfirst

/-- **The hello is the first frame on every socket in the runs that wait for it, and in no others.** -/
theorem allHelloFirst_along_iff (identity : Identity) (as : List LinkLabel) :
    machine.Along AllHelloFirst (start identity) as ↔
      machine.Meets WaitsForHello (start identity) as := by
  refine Machine.along_iff_meets (I := Sound) ?_ ?_ ?_ ?_ as
  · intro l a t hl h
    exact sound_step hl h
  · intro l a t hl hfirst h
    exact allHelloFirst_iff_of_step hl hfirst h
  · intro sock hmem
    simp [start] at hmem
  · intro sock hmem
    simp [start] at hmem

/-- A call rings while the first connection attempt is underway. -/
theorem exists_not_allHelloFirst :
    ∃ t, machine.run (start ⟨"p", "phone", "secret", "app"⟩)
        [.onStartCommand, .connect, .publish,
          .event (.callState ⟨"ac-1", .ringing, some "100", .incoming⟩), .handshake 0,
          .onOpen 0 0] = some t ∧
      ¬ AllHelloFirst t := by
  refine ⟨_, rfl, fun hfirst => ?_⟩
  have hfirst := hfirst _ (List.mem_cons_self ..)
  exact (hfirst (.callState ⟨"ac-1", .ringing, some "100", .incoming⟩) rfl).1

end Link

end DialF.Phone
