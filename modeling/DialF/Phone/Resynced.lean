import DialF.Phone.HelloFirst
import DialF.Phone.Resync

/-!
# A reconnect resynchronises the call state

`resynced_of_reachWhere`: in the runs that the condition `Spares` describes, whenever the app's
socket is quiet the daemon's slot agrees with the tracked calls and every ringing call has been
reported. The invariant has three parts. `Base` is about the sockets and the handlers, and holds in
every run. `Told` is what the app has done for a live socket: it has reported only calls that are as
reported, and, when `onOpen` has returned, every ringing one. `Kept` is what the daemon has for it:
a record, and in it either what the app tracks or what a report on its way will correct.
-/

set_option autoImplicit false

namespace DialF.Phone

open DialF.Lib DialF.Daemon

namespace Resync

/-- The hello is the first frame that the socket accepted. -/
def Opens (s : Resync) (k : Nat) : Prop :=
  (s.link.socket k).frames.head? = some s.link.identity.hello

/-- The sockets and their handlers. -/
structure Base (s : Resync) : Prop where
  sound : s.link.Sound
  current : ∀ k, s.link.Current k → k < s.link.sockets.length
  single : s.link.opening ≠ none → s.link.ws = none
  opened : ∀ k, (s.wires k).calm = true → k < s.link.sockets.length
  hello : ∀ k, ∀ f ∈ (s.link.socket k).frames, f.IsHello → f = s.link.identity.hello
  handler : ∀ k h, (s.wires k).handler = some h → h.hello.deviceId = s.deviceId ∧ s.Opens k
  read : ∀ k, (s.wires k).read ≤ (s.link.socket k).frames.length

/-- What the app has reported on a live socket. -/
structure Told (s : Resync) (k : Nat) : Prop where
  good : s.Opens k → ∀ report, .callState report ∈ (s.link.socket k).frames →
    report.state ≠ .ended ∧ ∃ c ∈ s.dialf.calls, Tells c (.callState report)
  ringing : (s.wires k).stage = .done → ∀ c ∈ s.dialf.calls, c.state = .ringing → s.Reported k c

/-- What the daemon has for a live socket whose handler has written the record. -/
structure Kept (s : Resync) (k : Nat) : Prop where
  record : s.daemon.registry.get s.deviceId ≠ none ∨ s.dialf.calls = []
  agrees : s.Settling k ∨ s.Agrees s.slot

/-- The invariant of the runs that meet the condition. -/
structure Synchronous (s : Resync) : Prop where
  base : s.Base
  told : ∀ k, s.Live k → s.Told k
  kept : ∀ k, s.Attached k → s.Kept k

variable {s t : Resync} {w : Wire} {k j : Nat} {nowMs : Int} {P : PhoneToServer → Prop}

/-! ## The wires -/

@[simp]
theorem wires_setWire : (s.setWire k w).wires = Function.update s.wires k w := rfl

/-- What a new wire has in common with the old one has not changed anywhere. -/
theorem field_eq {α : Type} (field : Wire → α) (hwires : t.wires = Function.update s.wires k w)
    (h : field w = field (s.wires k)) (j : Nat) : field (t.wires j) = field (s.wires j) := by
  rw [hwires]
  by_cases hjk : j = k
  · subst hjk
    rw [Function.update_self, h]
  · rw [Function.update_of_ne hjk]

theorem recorded_eq_true {w : Wire} :
    w.recorded = true ↔ ∃ h, w.handler = some h ∧ hasRecord h = true := by
  cases hhandler : w.handler <;> simp [Wire.recorded, hhandler]

theorem serving_eq_true {w : Wire} :
    w.serving = true ↔ ∃ h, w.handler = some h ∧ h.isServing = true := by
  cases hhandler : w.handler <;> simp [Wire.serving, hhandler]

theorem hasRecord_of_isServing {h : Handler} (hserving : h.isServing = true) :
    hasRecord h = true := by
  unfold Handler.isServing at hserving
  split at hserving
  · rename_i gen hphase
    simp [hasRecord, hphase]
  · simp at hserving

theorem isHello_hello (identity : Identity) : identity.hello.IsHello := trivial

/-! ## What the sockets have accepted -/

/-- The frames that a step adds are no hellos, so that a first hello was there before. -/
theorem opens_of_grows (hP : ∀ f, P f → ¬ f.IsHello) (hidentity : t.link.identity = s.link.identity)
    (hgrows : (s.link.socket k).Grows P (t.link.socket k)) (h : t.Opens k) : s.Opens k := by
  obtain ⟨fs, hframes, hfs⟩ := hgrows.frames
  simp only [Opens, hframes, hidentity] at h ⊢
  cases hold : (s.link.socket k).frames with
  | nil =>
      -- the hello would be among the new frames
      rw [hold, List.nil_append] at h
      exact absurd (isHello_hello s.link.identity) (hP _ (hfs _ (List.mem_of_head? h)))
  | cons f rest => simpa [hold] using h

theorem opens_grows (hidentity : t.link.identity = s.link.identity)
    (hgrows : (s.link.socket k).Grows P (t.link.socket k)) (h : s.Opens k) : t.Opens k := by
  obtain ⟨fs, hframes, -⟩ := hgrows.frames
  simp only [Opens, hframes, hidentity] at h ⊢
  cases hold : (s.link.socket k).frames with
  | nil => simp [hold] at h
  | cons f rest => simpa [hold] using h

theorem mem_of_grows {f : PhoneToServer} (hgrows : (s.link.socket k).Grows P (t.link.socket k))
    (hmem : f ∈ (t.link.socket k).frames) : f ∈ (s.link.socket k).frames ∨ P f := by
  obtain ⟨fs, hframes, hfs⟩ := hgrows.frames
  rw [hframes] at hmem
  rcases List.mem_append.1 hmem with hold | hnew
  · exact Or.inl hold
  · exact Or.inr (hfs f hnew)

theorem mem_grows {f : PhoneToServer} (hgrows : (s.link.socket k).Grows P (t.link.socket k))
    (hmem : f ∈ (s.link.socket k).frames) : f ∈ (t.link.socket k).frames := by
  obtain ⟨fs, hframes, -⟩ := hgrows.frames
  rw [hframes]
  exact List.mem_append_left fs hmem

theorem length_grows (hgrows : (s.link.socket k).Grows P (t.link.socket k)) :
    (s.link.socket k).frames.length ≤ (t.link.socket k).frames.length := by
  obtain ⟨fs, hframes, -⟩ := hgrows.frames
  rw [hframes, List.length_append]
  omega

/-- A report that is on its way stays so. -/
theorem unread_grows (hread : (t.wires k).read = (s.wires k).read)
    (hgrows : (s.link.socket k).Grows P (t.link.socket k)) (h : s.Unread k) : t.Unread k := by
  obtain ⟨fs, hframes, -⟩ := hgrows.frames
  obtain ⟨f, hmem, hf⟩ := h
  refine ⟨f, ?_, hf⟩
  rw [hread, hframes, List.drop_append]
  exact List.mem_append_left _ hmem

/-- `Base` outlives what adds no hello but the app's own and touches no handler. -/
theorem Base.of_keeps (hb : s.Base) (hkeeps : s.link.Keeps P t.link)
    (hP : ∀ f, P f → f.IsHello → f = s.link.identity.hello) (hsound : t.link.Sound)
    (hcalm : ∀ j, (t.wires j).calm = true → j < s.link.sockets.length)
    (hhandler : ∀ j, (t.wires j).handler = (s.wires j).handler)
    (hread : ∀ j, (t.wires j).read = (s.wires j).read) : t.Base where
  sound := hsound
  current := by
    intro j hcurrent
    rw [hkeeps.length]
    apply hb.current j
    rcases hcurrent with hws | hopening
    · rcases hkeeps.ws with hsame | hnone
      · exact Or.inl (hsame ▸ hws)
      · rw [hnone] at hws
        cases hws
    · exact Or.inr (hkeeps.opening ▸ hopening)
  single := by
    intro hopening
    rw [hkeeps.opening] at hopening
    rcases hkeeps.ws with hsame | hnone
    · exact hsame.trans (hb.single hopening)
    · exact hnone
  opened := by
    intro j hj
    rw [hkeeps.length]
    exact hcalm j hj
  hello := by
    intro j f hmem hf
    rw [hkeeps.identity]
    rcases mem_of_grows (hkeeps.grows j) hmem with hold | hnew
    · exact hb.hello j f hold hf
    · exact hP f hnew hf
  handler := by
    intro j h hj
    rw [hhandler j] at hj
    obtain ⟨hdevice, hopens⟩ := hb.handler j h hj
    refine ⟨?_, opens_grows hkeeps.identity (hkeeps.grows j) hopens⟩
    rw [hdevice, deviceId, deviceId, hkeeps.identity]
  read := by
    intro j
    rw [hread j]
    exact Nat.le_trans (hb.read j) (length_grows (hkeeps.grows j))

/-- A socket that is live after a step that opens none was live before it. -/
theorem live_of_keeps (hkeeps : s.link.Keeps P t.link)
    (hcalm : (t.wires k).calm = true → (s.wires k).calm = true) (h : t.Live k) : s.Live k := by
  obtain ⟨hcurrent, hquiet, hopen⟩ := h
  refine ⟨?_, hcalm hquiet, (hkeeps.grows k).closing hopen⟩
  rcases hcurrent with hws | hopening
  · rcases hkeeps.ws with hsame | hnone
    · exact Or.inl (hsame ▸ hws)
    · rw [hnone] at hws
      cases hws
  · exact Or.inr (hkeeps.opening ▸ hopening)

/-- A socket whose handler is the one it had was attached before. -/
theorem attached_of_handler (hlive : s.Live k)
    (hhandler : (t.wires k).handler = (s.wires k).handler)
    (hrecorded : (t.wires k).recorded = true) : s.Attached k := by
  refine ⟨hlive, ?_⟩
  rw [← hrecorded, Wire.recorded, Wire.recorded, hhandler]

/-- While something is current, it is the only thing that is. -/
theorem Base.ws_eq (hb : s.Base) (hws : s.link.ws = some j) (h : s.link.Current k) : k = j := by
  rcases h with hk | hopening
  · exact Option.some.inj (hk.symm.trans hws)
  · have hnone := hb.single (by simp [hopening])
    rw [hws] at hnone
    cases hnone

/-- The frames of a plain step say nothing about calls. -/
theorem Told.of_keeps (htold : s.Told k) (hgrows : (s.link.socket k).Grows IsOther (t.link.socket k))
    (hidentity : t.link.identity = s.link.identity) (hdialf : t.dialf = s.dialf)
    (hstage : (t.wires k).stage = (s.wires k).stage) : t.Told k where
  good := by
    intro hopens report hmem
    rw [hdialf]
    rcases mem_of_grows hgrows hmem with hold | hnew
    · exact htold.good (opens_of_grows (fun f hf => hf.1) hidentity hgrows hopens) report hold
    · exact absurd rfl (hnew.2 report)
  ringing := by
    intro hdone c hc hringing
    rw [hdialf] at hc
    rw [hstage] at hdone
    obtain ⟨f, hmem, hf⟩ := htold.ringing hdone c hc hringing
    exact ⟨f, mem_grows hgrows hmem, hf⟩

/-- `Kept` outlives what leaves the slot, the calls and the reports on their way. -/
theorem Kept.of_slot (hkept : s.Kept k) (hidentity : t.link.identity = s.link.identity)
    (hdialf : t.dialf = s.dialf)
    (hget : t.daemon.registry.get s.deviceId = none ↔ s.daemon.registry.get s.deviceId = none)
    (hslot : t.daemon.registry.currentCall s.deviceId = s.slot)
    (hsettling : s.Settling k → t.Settling k) : t.Kept k := by
  have hdevice : t.deviceId = s.deviceId := by rw [deviceId, deviceId, hidentity]
  constructor
  · rw [hdevice, hdialf, Ne, hget]
    exact hkept.record
  · rcases hkept.agrees with hsoon | hnow
    · exact Or.inl (hsettling hsoon)
    · refine Or.inr ?_
      rw [slot, hdevice, hslot]
      unfold Agrees at hnow ⊢
      rw [hdialf]
      exact hnow

theorem Kept.of_same (hkept : s.Kept k) (hidentity : t.link.identity = s.link.identity)
    (hdialf : t.dialf = s.dialf) (hregistry : t.daemon.registry = s.daemon.registry)
    (hsettling : s.Settling k → t.Settling k) : t.Kept k :=
  hkept.of_slot hidentity hdialf (by rw [hregistry]) (by rw [hregistry]; rfl) hsettling

/-! ## The service by itself -/

/-- Where a step reports no call and makes no socket live, the views stay as they are. -/
theorem synchronous_of_grows (hs : s.Synchronous) (hbase : t.Base)
    (hlive : ∀ j, t.Live j → s.Live j)
    (hgrows : ∀ j, (s.link.socket j).Grows IsOther (t.link.socket j))
    (hidentity : t.link.identity = s.link.identity) (hdialf : t.dialf = s.dialf)
    (hregistry : t.daemon.registry = s.daemon.registry) (hwires : t.wires = s.wires) :
    t.Synchronous where
  base := hbase
  told := by
    intro j hj
    exact (hs.told j (hlive j hj)).of_keeps (hgrows j) hidentity hdialf (by rw [hwires])
  kept := by
    intro j hj
    have hattached : s.Attached j := ⟨hlive j hj.1, hwires ▸ hj.2⟩
    refine (hs.kept j hattached).of_same hidentity hdialf hregistry ?_
    rintro (⟨hstage, hcalls⟩ | hunread)
    · exact Or.inl ⟨hwires ▸ hstage, hdialf ▸ hcalls⟩
    · exact Or.inr (unread_grows (by rw [hwires]) (hgrows j) hunread)

/-- A socket that has just been opened has accepted nothing, as one that has not. -/
theorem socket_append_fresh {l : Link} {o : Option Nat} :
    Link.socket { l with sockets := l.sockets ++ [.fresh], opening := o } k = l.socket k := by
  simp only [Link.socket, List.getD_eq_getElem?_getD, List.getElem?_append]
  split
  · rfl
  · rename_i hlt
    rw [List.getElem?_eq_none (Nat.not_lt.1 hlt)]
    cases k - l.sockets.length with
    | zero => rfl
    | succ n => rfl

/-- The socket that `connect` opens is not live: its `onOpen` has not run. -/
theorem synchronous_connect {l : Link} (hs : s.Synchronous) (hws : s.link.ws = none)
    (hsound : l.Sound)
    (hl : l = { s.link with
      sockets := s.link.sockets ++ [.fresh]
      opening := some s.link.sockets.length }) :
    Synchronous { s with link := l } := by
  subst hl
  have hlength : (s.link.sockets ++ [Socket.fresh]).length = s.link.sockets.length + 1 := by simp
  refine synchronous_of_grows hs ?_ ?_ ?_ rfl rfl rfl rfl
  · refine ⟨hsound, ?_, fun _ => hws, ?_, ?_, ?_, ?_⟩
    · rintro j (hj | hj)
      · rw [hws] at hj
        cases hj
      · rw [hlength, ← Option.some.inj hj]
        exact Nat.lt_succ_self _
    · intro j hj
      rw [hlength]
      exact Nat.lt_succ_of_lt (hs.base.opened j hj)
    · intro j f hmem
      rw [socket_append_fresh] at hmem
      exact hs.base.hello j f hmem
    · intro j h hj
      obtain ⟨hdevice, hopens⟩ := hs.base.handler j h hj
      refine ⟨hdevice, ?_⟩
      rw [Opens, socket_append_fresh]
      exact hopens
    · intro j
      rw [socket_append_fresh]
      exact hs.base.read j
  · rintro j ⟨hj | hj, hcalm, -⟩
    · rw [hws] at hj
      cases hj
    · have hlt := hs.base.opened j hcalm
      rw [← Option.some.inj hj] at hlt
      exact absurd hlt (Nat.lt_irrefl _)
  · intro j
    rw [socket_append_fresh]
    exact .refl _

theorem synchronous_publish (hs : s.Synchronous) (hsound : s.link.Sound)
    (hopening : s.link.opening = some k) :
    Synchronous { s with link := { s.link with ws := some k, opening := none } } := by
  have hcurrent : ∀ j, Link.Current { s.link with ws := some k, opening := none } j →
      s.link.Current j := by
    rintro j (hj | hj)
    · exact Or.inr (hopening.trans hj)
    · cases hj
  refine synchronous_of_grows hs ?_ ?_ (fun _ => .refl _) rfl rfl rfl rfl
  · refine ⟨hsound, fun j hj => hs.base.current j (hcurrent j hj), ?_, hs.base.opened,
      hs.base.hello, hs.base.handler, hs.base.read⟩
    intro hnone
    exact absurd rfl hnone
  · intro j hj
    exact ⟨hcurrent j hj.1, hj.2⟩

theorem synchronous_link {key : String} {a : LinkLabel} (hs : s.Synchronous)
    (h : s.step key (.link a) = some t) : t.Synchronous := by
  simp only [step] at h
  split at h
  · rename_i hplain
    split at h
    · rename_i l hl
      obtain rfl := Option.some.inj h
      have hsound := Link.sound_step hs.base.sound hl
      rcases Link.keeps_of_step hplain hl with hkeeps | ⟨hws, -, rfl⟩ | ⟨i, hopening, rfl⟩
      · have hbase : Base { s with link := l } :=
          hs.base.of_keeps hkeeps (fun f hf hhello => absurd hhello hf.1) hsound hs.base.opened
            (fun _ => rfl) fun _ => rfl
        refine synchronous_of_grows hs hbase (fun j hj => ?_) hkeeps.grows hkeeps.identity rfl rfl
          rfl
        exact live_of_keeps (t := { s with link := l }) hkeeps (fun h => h) hj
      · exact synchronous_connect hs hws hsound rfl
      · exact synchronous_publish hs hs.base.sound hopening
    · simp at h
  · simp at h

/-! ## The telephony system -/

theorem not_isHello_of_isCallState {f : PhoneToServer} (h : IsCallState f) : ¬ f.IsHello := by
  cases f with
  | callState report => exact fun hhello => hhello
  | _ => exact h.elim

theorem keeps_emit (report : CallReport) :
    s.link.Keeps IsCallState (s.link.send (.callState report)) :=
  Link.keeps_sendCurrent trivial

/-- The report of a call on the current socket leaves the sockets and the handlers sound. -/
theorem Base.emit {report : CallReport} (hb : s.Base)
    (hlink : t.link = s.link.send (.callState report))
    (hcalm : ∀ j, (t.wires j).calm = true → (s.wires j).calm = true)
    (hhandler : ∀ j, (t.wires j).handler = (s.wires j).handler)
    (hread : ∀ j, (t.wires j).read = (s.wires j).read) : t.Base := by
  have hkeeps : s.link.Keeps IsCallState t.link := hlink ▸ keeps_emit report
  have hsound : t.link.Sound := hlink ▸ Link.sound_send hb.sound
  refine hb.of_keeps hkeeps ?_ hsound (fun j hj => hb.opened j (hcalm j hj)) hhandler hread
  intro f hf hhello
  exact absurd hhello (not_isHello_of_isCallState hf)

/-- After the change of a call no socket is live. -/
theorem synchronous_of_disturbed (hbase : t.Base) (hcalm : ∀ j, (t.wires j).calm = false) :
    t.Synchronous where
  base := hbase
  told := by
    intro j hj
    exact absurd ((hcalm j).symm.trans hj.2.1) (by simp)
  kept := by
    intro j hj
    exact absurd ((hcalm j).symm.trans hj.1.2.1) (by simp)

theorem synchronous_callAdded {key : String} {uid : Nat} {state : CallState}
    {number : Option String} {direction : Direction} (hs : s.Synchronous)
    (h : s.step key (.callAdded uid state number direction) = some t) : t.Synchronous := by
  simp only [step] at h
  split at h
  · simp at h
  · obtain rfl := Option.some.inj h
    refine synchronous_of_disturbed ?_ fun _ => rfl
    exact hs.base.emit rfl (fun _ hcalm => absurd hcalm (by simp [disturb])) (fun _ => rfl)
      fun _ => rfl

theorem synchronous_stateChanged {key : String} {uid : Nat} {state : CallState}
    {number : Option String} {direction : Direction} (hs : s.Synchronous)
    (h : s.step key (.stateChanged uid state number direction) = some t) : t.Synchronous := by
  simp only [step] at h
  split at h
  · obtain rfl := Option.some.inj h
    refine synchronous_of_disturbed ?_ fun _ => rfl
    exact hs.base.emit rfl (fun _ hcalm => absurd hcalm (by simp [disturb])) (fun _ => rfl)
      fun _ => rfl
  · simp at h

theorem synchronous_callRemoved {key : String} {uid : Nat} {number : Option String}
    (hs : s.Synchronous) (h : s.step key (.callRemoved uid number) = some t) :
    t.Synchronous := by
  simp only [step] at h
  split at h
  · obtain rfl := Option.some.inj h
    refine synchronous_of_disturbed ?_ fun _ => rfl
    exact hs.base.emit rfl (fun _ hcalm => absurd hcalm (by simp [disturb])) (fun _ => rfl)
      fun _ => rfl
  · simp at h

/-! ## `onOpen` -/

theorem keeps_onOpen {l : Link} :
    l.Keeps (fun f => f = l.identity.hello) (l.onOpen k nowMs) := by
  have hkeeps : l.Keeps (fun f => f = l.identity.hello)
      (l.onSocket k fun sock => { sock.send l.identity.hello with greeted := true }) := by
    refine Link.keeps_onSocket fun sock => ?_
    have hgrows : sock.Grows (fun f => f = l.identity.hello) (sock.send l.identity.hello) :=
      Socket.grows_send rfl
    exact ⟨hgrows.closing, hgrows.frames⟩
  exact ⟨hkeeps.ws, hkeeps.opening, hkeeps.length, hkeeps.identity, hkeeps.grows⟩

theorem socket_onOpen_of_ne {l : Link} (h : j ≠ k) : (l.onOpen k nowMs).socket j = l.socket j := by
  refine Link.socket_onSocket.trans (if_neg ?_)
  exact fun hk => h hk.1.symm

/-- A socket that has not greeted has accepted no hello. -/
theorem Base.not_opens (hb : s.Base) {sock : Socket} (hk : s.link.sockets[k]? = some sock)
    (hwaiting : sock.greeted = false) : ¬ s.Opens k := by
  intro hopens
  have hsock : s.link.socket k = sock := by simp [Link.socket, hk]
  rw [Opens, hsock] at hopens
  exact (hb.sound sock (List.mem_of_getElem? hk)).waiting hwaiting _ (List.mem_of_head? hopens)
    (isHello_hello s.link.identity)

/-- A hello that has become the first frame is the first of all. -/
theorem frames_eq_nil_of_opens (hidentity : t.link.identity = s.link.identity)
    (hgrows : (s.link.socket k).Grows P (t.link.socket k)) (hnot : ¬ s.Opens k)
    (h : t.Opens k) : (s.link.socket k).frames = [] := by
  obtain ⟨fs, hframes, -⟩ := hgrows.frames
  cases hold : (s.link.socket k).frames with
  | nil => rfl
  | cons f rest =>
      refine absurd ?_ hnot
      simpa [Opens, hframes, hidentity, hold] using h

/-- A step of one wire leaves the views of the other sockets as they are. -/
theorem synchronous_of_wire (hs : s.Synchronous) (hbase : t.Base)
    (hcurrent : ∀ j, t.link.Current j → s.link.Current j)
    (hidentity : t.link.identity = s.link.identity) (hdialf : t.dialf = s.dialf)
    (hregistry : t.daemon.registry = s.daemon.registry)
    (hsocket : ∀ j, j ≠ k → t.link.socket j = s.link.socket j)
    (hwires : ∀ j, j ≠ k → t.wires j = s.wires j) (htold : t.Live k → t.Told k)
    (hkept : t.Attached k → t.Kept k) : t.Synchronous := by
  have hgrows : ∀ j, j ≠ k → (s.link.socket j).Grows IsOther (t.link.socket j) := by
    intro j hjk
    rw [hsocket j hjk]
    exact .refl _
  have hlive : ∀ j, j ≠ k → t.Live j → s.Live j := by
    intro j hjk hj
    refine ⟨hcurrent j hj.1, ?_, ?_⟩
    · rw [← hwires j hjk]
      exact hj.2.1
    · rw [← hsocket j hjk]
      exact hj.2.2
  -- the wire's own views are the caller's to show; the others' have not changed
  refine ⟨hbase, ?_, ?_⟩
  · intro j hj
    by_cases hjk : j = k
    · subst hjk
      exact htold hj
    · exact (hs.told j (hlive j hjk hj)).of_keeps (hgrows j hjk) hidentity hdialf
        (by rw [hwires j hjk])
  · intro j hj
    by_cases hjk : j = k
    · subst hjk
      exact hkept hj
    · have hattached : s.Attached j := ⟨hlive j hjk hj.1, hwires j hjk ▸ hj.2⟩
      refine (hs.kept j hattached).of_same hidentity hdialf hregistry ?_
      rintro (⟨hstage, hcalls⟩ | hunread)
      · exact Or.inl ⟨hwires j hjk ▸ hstage, hdialf ▸ hcalls⟩
      · exact Or.inr (unread_grows (by rw [hwires j hjk]) (hgrows j hjk) hunread)

/-- The hello goes out, and the socket becomes live with nothing else accepted. -/
theorem synchronous_of_onOpen {sock : Socket} (hs : s.Synchronous)
    (hk : s.link.sockets[k]? = some sock) (hwaiting : sock.greeted = false)
    (hsound : t.link.Sound) (hlink : t.link = s.link.onOpen k nowMs) (hdialf : t.dialf = s.dialf)
    (hdaemon : t.daemon = s.daemon)
    (hwires : t.wires =
      Function.update s.wires k { s.wires k with stage := .greeted, calm := true }) :
    t.Synchronous := by
  have hnot : ¬ s.Opens k := hs.base.not_opens hk hwaiting
  have hkeeps : s.link.Keeps (fun f => f = s.link.identity.hello) t.link := hlink ▸ keeps_onOpen
  have hlt : k < s.link.sockets.length := (List.getElem?_eq_some_iff.1 hk).1
  have hother : ∀ j, j ≠ k → t.wires j = s.wires j := by
    intro j hjk
    rw [hwires, Function.update_of_ne hjk]
  have hhandler := field_eq Wire.handler hwires rfl
  have hread := field_eq Wire.read hwires rfl
  have hbase : t.Base := by
    refine hs.base.of_keeps hkeeps (fun _ hf _ => hf) hsound ?_ hhandler hread
    intro j hj
    by_cases hjk : j = k
    · exact hjk ▸ hlt
    · rw [hother j hjk] at hj
      exact hs.base.opened j hj
  refine synchronous_of_wire hs hbase ?_ hkeeps.identity hdialf (by rw [hdaemon]) ?_ hother ?_ ?_
  · intro j hj
    rw [hlink] at hj
    exact hj
  · intro j hjk
    rw [hlink]
    exact socket_onOpen_of_ne hjk
  · refine fun _ => ⟨?_, ?_⟩
    · -- nothing but the hello has been accepted
      intro hopens report hmem
      have hnil := frames_eq_nil_of_opens hkeeps.identity (hkeeps.grows k) hnot hopens
      rcases mem_of_grows (hkeeps.grows k) hmem with hold | hnew
      · rw [hnil] at hold
        cases hold
      · cases hnew
    · intro hdone
      rw [hwires, Function.update_self] at hdone
      cases hdone
  · -- a socket with a handler has greeted
    intro hattached
    obtain ⟨h, hsome, -⟩ := recorded_eq_true.1 hattached.2
    rw [hhandler k] at hsome
    exact absurd (hs.base.handler k h hsome).2 hnot

theorem synchronous_onOpen {key : String} (hs : s.Synchronous)
    (h : s.step key (.onOpen k nowMs) = some t) : t.Synchronous := by
  simp only [step] at h
  split at h
  · rename_i l hl
    obtain rfl := Option.some.inj h
    have hsound := Link.sound_step hs.base.sound hl
    obtain ⟨sock, hk, -, hwaiting, rfl⟩ := Link.onOpen_eq_some hl
    exact synchronous_of_onOpen hs hk hwaiting hsound rfl rfl rfl rfl
  · simp at h

/-- The wires may change where neither the handlers nor what has been read does. -/
theorem Base.of_link (hb : s.Base) (hlink : t.link = s.link)
    (hcalm : ∀ j, (t.wires j).calm = true → (s.wires j).calm = true)
    (hhandler : ∀ j, (t.wires j).handler = (s.wires j).handler)
    (hread : ∀ j, (t.wires j).read = (s.wires j).read) : t.Base := by
  have hkeeps : s.link.Keeps IsOther t.link := by
    rw [hlink]
    exact .of_eq (Or.inl rfl) rfl rfl rfl
  refine hb.of_keeps hkeeps ?_ (hlink ▸ hb.sound) (fun j hj => hb.opened j (hcalm j hj)) hhandler
    hread
  intro f hf hhello
  exact absurd hhello hf.1

/-- `onOpen` moves on, and returns only where the socket has been told of the ringing calls, and the
daemon knows of the calls or will. -/
theorem synchronous_of_stage {stage : OpenStage} (hs : s.Synchronous)
    (hringing : stage = .done → s.Live k → ∀ c ∈ s.dialf.calls, c.state = .ringing →
      s.Reported k c)
    (hagrees : stage = .done → s.Attached k → s.Unread k ∨ s.Agrees s.slot)
    (ht : t = s.setWire k { s.wires k with stage := stage }) : t.Synchronous := by
  have hwires : t.wires = Function.update s.wires k { s.wires k with stage := stage } := by
    rw [ht]
    rfl
  have hlink : t.link = s.link := by
    rw [ht]
    rfl
  have hdialf : t.dialf = s.dialf := by
    rw [ht]
    rfl
  have hdaemon : t.daemon = s.daemon := by
    rw [ht]
    rfl
  have hcalm := field_eq Wire.calm hwires rfl
  have hhandler := field_eq Wire.handler hwires rfl
  have hread := field_eq Wire.read hwires rfl
  have hnew : (t.wires k).stage = stage := by
    rw [hwires, Function.update_self]
  have hlive : t.Live k → s.Live k := by
    rintro ⟨hcurrent, hquiet, hopen⟩
    rw [hlink] at hcurrent hopen
    rw [hcalm] at hquiet
    exact ⟨hcurrent, hquiet, hopen⟩
  have hunread : s.Unread k → t.Unread k := by
    rw [Unread, Unread, hlink, hread]
    exact fun h => h
  have hbase : t.Base := hs.base.of_link hlink (fun j hj => hcalm j ▸ hj) hhandler hread
  refine synchronous_of_wire (k := k) hs hbase (fun j hj => hlink ▸ hj) (by rw [hlink]) hdialf
    (by rw [hdaemon]) (fun j _ => by rw [hlink]) ?_ ?_ ?_
  · intro j hjk
    rw [hwires, Function.update_of_ne hjk]
  · intro hj
    constructor
    · intro hopens report hmem
      rw [hlink] at hmem
      rw [Opens, hlink] at hopens
      rw [hdialf]
      exact (hs.told k (hlive hj)).good hopens report hmem
    · intro hreturned c hc hring
      rw [hnew] at hreturned
      rw [hdialf] at hc
      rw [Reported, hlink]
      exact hringing hreturned (hlive hj) c hc hring
  · intro hj
    have hattached : s.Attached k := attached_of_handler (hlive hj.1) (hhandler k) hj.2
    have hkept := hs.kept k hattached
    have hagree : s.Agrees s.slot → t.Agrees t.slot := by
      unfold Agrees slot deviceId
      rw [hlink, hdialf, hdaemon]
      exact fun h => h
    constructor
    · rw [hdaemon, hdialf, deviceId, hlink]
      exact hkept.record
    · by_cases hdone : stage = .done
      · rcases hagrees hdone hattached with hsoon | hnow
        · exact Or.inl (Or.inr (hunread hsoon))
        · exact Or.inr (hagree hnow)
      -- before it returns, `onOpen` has a report still to make where a call is tracked
      · rcases hkept.agrees with (⟨-, hcalls⟩ | hsoon) | hnow
        · exact Or.inl (Or.inl ⟨hnew ▸ hdone, hdialf ▸ hcalls⟩)
        · exact Or.inl (Or.inr (hunread hsoon))
        · exact Or.inr (hagree hnow)

theorem synchronous_pick {key : String} {i : Nat} (hs : s.Synchronous)
    (h : s.step key (.pick k i) = some t) : t.Synchronous := by
  simp only [step] at h
  split at h
  · split at h
    · rename_i hnil
      refine synchronous_of_stage hs ?_ ?_ (Option.some.inj h).symm
      · intro _ _ c hc
        rw [hnil] at hc
        cases hc
      · intro _ hattached
        rcases (hs.kept k hattached).agrees with (⟨-, hcalls⟩ | hsoon) | hnow
        · exact absurd hnil hcalls
        · exact Or.inl hsoon
        · exact Or.inr hnow
    · split at h
      · refine synchronous_of_stage hs ?_ ?_ (Option.some.inj h).symm
        · intro hdone
          cases hdone
        · intro hdone
          cases hdone
      · simp at h
  · simp at h

/-! ## The re-report -/

/-- What a report does to the current socket. -/
theorem socket_send {l : Link} {report : CallReport} (hws : l.ws = some k)
    (hk : k < l.sockets.length) :
    (l.send (.callState report)).socket k = (l.socket k).send (.callState report) := by
  simp only [Link.send, Link.sendCurrent, hws]
  rw [Link.socket_onSocket, if_pos ⟨rfl, hk⟩]

theorem frames_send {sock : Socket} {f : PhoneToServer} (h : sock.closing = false) :
    (sock.send f).frames = sock.frames ++ [f] := by
  simp [Socket.send, h]

/-- A call that has been forgotten is tracked again, and no socket is live to hear of it. -/
theorem synchronous_of_retracked {report : CallReport} (hs : s.Synchronous)
    (hnone : ∀ j < s.link.sockets.length, ¬ s.Live j)
    (hlink : t.link = s.link.send (.callState report))
    (hwires : t.wires = Function.update s.wires k { s.wires k with stage := .done }) :
    t.Synchronous := by
  have hcalm := field_eq Wire.calm hwires rfl
  have hkeeps : s.link.Keeps IsCallState t.link := hlink ▸ keeps_emit report
  have hdead : ∀ j, ¬ t.Live j := by
    intro j hj
    have hlive : s.Live j := live_of_keeps hkeeps (fun h => hcalm j ▸ h) hj
    exact hnone j (hs.base.current j hlive.1) hlive
  refine ⟨?_, fun j hj => absurd hj (hdead j), fun j hj => absurd hj.1 (hdead j)⟩
  exact hs.base.emit hlink (fun j hj => hcalm j ▸ hj) (field_eq Wire.handler hwires rfl)
    (field_eq Wire.read hwires rfl)

/-- The report goes out on the socket that `ws` names, which is the only one that can be live. -/
theorem synchronous_of_reported {c : TrackedCall} {report : CallReport} {m : Nat}
    (hs : s.Synchronous) (hc : c ∈ s.dialf.calls) (htells : Tells c (.callState report))
    (hended : s.Live m → c.state ≠ .ended)
    (hringing : s.Live k → ∀ other ∈ s.dialf.calls, other.state = .ringing →
      s.Reported k other ∨ other = c)
    (hws : s.link.ws = some m) (hlink : t.link = s.link.send (.callState report))
    (hdialf : t.dialf = s.dialf) (hdaemon : t.daemon = s.daemon)
    (hwires : t.wires = Function.update s.wires k { s.wires k with stage := .done }) :
    t.Synchronous := by
  have hcalm := field_eq Wire.calm hwires rfl
  have hhandler := field_eq Wire.handler hwires rfl
  have hread := field_eq Wire.read hwires rfl
  have hkeeps : s.link.Keeps IsCallState t.link := hlink ▸ keeps_emit report
  have hlive : ∀ j, t.Live j → s.Live j := fun j hj =>
    live_of_keeps hkeeps (fun h => hcalm j ▸ h) hj
  -- a live socket is the current one, and that is the one in `ws`
  have hm : ∀ j, t.Live j → j = m := fun j hj => hs.base.ws_eq hws (hlive j hj).1
  have hframes : t.Live m → (t.link.socket m).frames =
      (s.link.socket m).frames ++ [.callState report] := by
    intro hj
    have hlt := hs.base.current m (hlive m hj).1
    rw [hlink, socket_send hws hlt]
    exact frames_send (hlive m hj).2.2
  refine ⟨hs.base.emit hlink (fun j hj => hcalm j ▸ hj) hhandler hread, ?_, ?_⟩
  · intro j hj
    obtain rfl := hm j hj
    have htold := hs.told j (hlive j hj)
    constructor
    · intro hopens report' hmem
      rw [hdialf]
      rw [hframes hj] at hmem
      rcases List.mem_append.1 hmem with hold | hnew
      · refine htold.good ?_ report' hold
        refine opens_of_grows ?_ hkeeps.identity (hkeeps.grows j) hopens
        exact fun f hf => not_isHello_of_isCallState hf
      · obtain ⟨rfl⟩ := List.mem_singleton.1 hnew
        have hstate : report.state = c.state := htells.2
        exact ⟨hstate ▸ hended (hlive j hj), c, hc, htells⟩
    · intro hdone other hother hring
      rw [hdialf] at hother
      -- the re-report adds `c`; the others were reported before, or the condition fails
      have hreported : s.Reported j other ∨ other = c := by
        by_cases hjk : j = k
        · subst hjk
          exact hringing (hlive j hj) other hother hring
        · rw [hwires, Function.update_of_ne hjk] at hdone
          exact Or.inl (htold.ringing hdone other hother hring)
      rw [Reported, hframes hj]
      rcases hreported with ⟨f, hmem, hf⟩ | rfl
      · exact ⟨f, List.mem_append_left _ hmem, hf⟩
      · exact ⟨_, List.mem_append_right _ (List.mem_singleton_self _), htells⟩
  · intro j hj
    obtain rfl := hm j hj.1
    have hattached : s.Attached j := attached_of_handler (hlive j hj.1) (hhandler j) hj.2
    constructor
    · rw [hdaemon, hdialf, deviceId, hkeeps.identity]
      exact (hs.kept j hattached).record
    · -- the report is behind everything that has been read
      refine Or.inl (Or.inr ⟨.callState report, ?_, trivial⟩)
      rw [hframes hj.1, hread, List.drop_append_of_le_length (hs.base.read j)]
      exact List.mem_append_right _ (List.mem_singleton_self _)

/-- The report of a tracked call is lost where there is no socket in `ws`. -/
theorem emitCallState_of_lost {uid : Nat} {state : CallState} {number : Option String}
    {direction : Direction} {c : TrackedCall} (hfind : s.dialf.find uid = some c)
    (hws : s.link.ws = none) : s.emitCallState uid state number direction = s := by
  simp [emitCallState, Dialf.idFor_of_find hfind, Link.send, Link.sendCurrent, hws]

theorem synchronous_report {key : String} {number : Option String} {direction : Direction}
    (hs : s.Synchronous) (hok : s.Spares (.report k number direction))
    (h : s.step key (.report k number direction) = some t) : t.Synchronous := by
  simp only [step] at h
  split at h
  · rename_i uid hpicked
    obtain rfl := Option.some.inj h
    simp only [Spares, hpicked, SparesReport] at hok
    cases hfind : s.dialf.find uid with
    | none =>
        simp only [hfind] at hok
        exact synchronous_of_retracked hs hok rfl rfl
    | some c =>
        simp only [hfind] at hok
        obtain ⟨hended, henough⟩ := hok
        cases hws : s.link.ws with
        | none =>
            rw [emitCallState_of_lost hfind hws]
            refine synchronous_of_stage hs ?_ ?_ rfl
            · intro _ hlive other hother hring
              rcases (henough hlive).1 other hother hring with hreported | ⟨hk, -⟩
              · exact hreported
              · rw [hws] at hk
                cases hk
            · intro _ hattached
              exact (henough hattached.1).2 (by simp [hws]) hattached.2
        | some m =>
            have hdialf : (s.dialf.idFor uid (s.dialf.state uid)).1 = s.dialf := by
              rw [Dialf.idFor_of_find hfind]
            refine synchronous_of_reported hs (Dialf.mem_of_find hfind) ?_ ?_ ?_ hws rfl hdialf rfl
              rfl
            · exact ⟨by rw [Dialf.idFor_of_find hfind], Dialf.state_of_find hfind⟩
            · intro hlive
              exact hended m (hs.base.current m hlive.1) hlive hws
            · intro hlive other hother hring
              rcases (henough hlive).1 other hother hring with hreported | ⟨-, rfl⟩
              · exact Or.inl hreported
              · exact Or.inr rfl
  · simp at h

/-! ## The daemon -/

theorem agrees_of_dialf {o : Option CallInfo} (hdialf : t.dialf = s.dialf) (h : s.Agrees o) :
    t.Agrees o := by
  unfold Agrees at h ⊢
  rw [hdialf]
  exact h

theorem settling_of_same (hlink : t.link = s.link) (hdialf : t.dialf = s.dialf)
    (hstage : (t.wires j).stage = (s.wires j).stage) (hread : (t.wires j).read = (s.wires j).read)
    (h : s.Settling j) : t.Settling j := by
  rw [Settling, Unread, hlink, hdialf, hstage, hread]
  exact h

/-- What the daemon does to its handlers leaves the sockets as they are. -/
theorem Base.of_daemon (hb : s.Base) (hlink : t.link = s.link)
    (hcalm : ∀ j, (t.wires j).calm = (s.wires j).calm)
    (hhandler : ∀ j h, (t.wires j).handler = some h →
      h.hello.deviceId = s.deviceId ∧ s.Opens j)
    (hread : ∀ j, (t.wires j).read ≤ (s.link.socket j).frames.length) : t.Base where
  sound := hlink ▸ hb.sound
  current := hlink ▸ hb.current
  single := hlink ▸ hb.single
  opened := by
    intro j hj
    rw [hlink]
    exact hb.opened j (hcalm j ▸ hj)
  hello := hlink ▸ hb.hello
  handler := by
    intro j h hj
    rw [deviceId, Opens, hlink]
    exact hhandler j h hj
  read := hlink ▸ hread

/-- What the daemon does leaves what the app has told it. -/
theorem synchronous_of_daemon (hs : s.Synchronous) (hbase : t.Base) (hlink : t.link = s.link)
    (hdialf : t.dialf = s.dialf) (hstage : ∀ j, (t.wires j).stage = (s.wires j).stage)
    (hcalm : ∀ j, (t.wires j).calm = (s.wires j).calm)
    (hkept : ∀ j, s.Live j → (t.wires j).recorded = true → t.Kept j) : t.Synchronous := by
  have hlive : ∀ j, t.Live j → s.Live j := by
    intro j hj
    rw [Live, hlink, hcalm] at hj
    exact hj
  refine ⟨hbase, ?_, fun j hj => hkept j (hlive j hj.1) hj.2⟩
  intro j hj
  refine (hs.told j (hlive j hj)).of_keeps ?_ (by rw [hlink]) hdialf (hstage j)
  rw [hlink]
  exact .refl _

/-- The daemon greets the app's own hello. -/
theorem Base.greeted {sharedKey peer : String} {f : PhoneToServer} {rest : List PhoneToServer}
    {hello : Hello} (hb : s.Base) (hwritten : (s.link.socket k).written = f :: rest)
    (hgreet : greet sharedKey peer f = .ok hello) :
    hello.deviceId = s.deviceId ∧ s.Opens k ∧ 1 ≤ (s.link.socket k).frames.length := by
  have hframes : (s.link.socket k).frames = f :: rest := by
    simp only [Socket.written] at hwritten
    split at hwritten
    · exact hwritten
    · cases hwritten
  have hown : f.IsHello → f = s.link.identity.hello :=
    hb.hello k f (by rw [hframes]; exact List.mem_cons_self ..)
  cases f with
  | hello deviceId name key instanceId =>
      have hsame := hown trivial
      refine ⟨?_, ?_, by simp [hframes]⟩
      · simp only [greet] at hgreet
        split at hgreet
        · cases hgreet
        · cases hgreet
          injection hsame
      · rw [Opens, hframes, ← hsame]
        rfl
  | _ => cases hgreet

/-- A handler without a record, before it has one or after it has begun to tear down. -/
theorem synchronous_of_unrecorded {h : Handler} {n : Nat} (hs : s.Synchronous)
    (hhello : h.hello.deviceId = s.deviceId ∧ s.Opens k) (hnot : hasRecord h = false)
    (hn : n ≤ (s.link.socket k).frames.length) (hlink : t.link = s.link)
    (hdialf : t.dialf = s.dialf) (hregistry : t.daemon.registry = s.daemon.registry)
    (hwires : t.wires =
      Function.update s.wires k { s.wires k with handler := some h, read := n }) :
    t.Synchronous := by
  have hstage := field_eq Wire.stage hwires rfl
  have hcalm := field_eq Wire.calm hwires rfl
  have hother : ∀ j, j ≠ k → t.wires j = s.wires j := by
    intro j hjk
    rw [hwires, Function.update_of_ne hjk]
  refine synchronous_of_daemon hs (hs.base.of_daemon hlink hcalm ?_ ?_) hlink hdialf hstage hcalm ?_
  · intro j h' hj
    by_cases hjk : j = k
    · subst hjk
      rw [hwires, Function.update_self] at hj
      obtain rfl := Option.some.inj hj
      exact hhello
    · rw [hother j hjk] at hj
      exact hs.base.handler j h' hj
  · intro j
    by_cases hjk : j = k
    · subst hjk
      rw [hwires, Function.update_self]
      exact hn
    · rw [hother j hjk]
      exact hs.base.read j
  · intro j hlive hrecorded
    by_cases hjk : j = k
    · subst hjk
      rw [hwires, Function.update_self] at hrecorded
      exact absurd (hrecorded.symm.trans hnot) (by simp)
    · have hattached : s.Attached j := ⟨hlive, hother j hjk ▸ hrecorded⟩
      refine (hs.kept j hattached).of_same (by rw [hlink]) hdialf hregistry ?_
      exact settling_of_same hlink hdialf (hstage j) (by rw [hother j hjk])

theorem synchronous_accept {key peer : String} (hs : s.Synchronous)
    (h : s.step key (.accept k peer) = some t) : t.Synchronous := by
  simp only [step] at h
  split at h
  · rename_i f rest hnone hwritten
    split at h
    · rename_i hello hgreet
      obtain rfl := Option.some.inj h
      obtain ⟨hdevice, hopens, hn⟩ := hs.base.greeted hwritten hgreet
      exact synchronous_of_unrecorded hs ⟨hdevice, hopens⟩ rfl hn rfl rfl rfl rfl
    · simp at h
  · simp at h

theorem synchronous_stop {key : String} (hs : s.Synchronous)
    (h : s.step key (.stop k) = some t) : t.Synchronous := by
  simp only [step] at h
  split at h
  · rename_i h' hstop
    obtain rfl := Option.some.inj h
    obtain ⟨handler, hhandler, hstopped⟩ := Option.bind_eq_some_iff.1 hstop
    have hhello := hs.base.handler k handler hhandler
    obtain ⟨gen, -, rfl⟩ := Handler.stop_eq_some hstopped
    have hnot : hasRecord ⟨handler.hello, .stopped gen⟩ = false := rfl
    refine synchronous_of_unrecorded hs ?_ hnot (hs.base.read k) rfl rfl rfl rfl
    exact hhello
  · simp at h

/-- A handler has a record if its last section wrote it, or if it had one and went on to serve. -/
theorem hasRecord_of_advance {h h' : Handler} {d d' : DaemonState}
    (hadv : h.advance nowMs d = some (h', d')) (hrecord : hasRecord h' = true) :
    (∃ aborting prior gen, h.phase = .registered aborting prior gen) ∨
      hasRecord h = true := by
  cases Handler.advance_section hadv with
  | registered hello aborting prior gen => exact Or.inl ⟨aborting, prior, gen, rfl⟩
  | hungUp _ _ | recorded _ _ => exact Or.inr rfl
  | _ => simp [hasRecord] at hrecord

/-- The record that is written carries over a call that is right, or a report follows. -/
theorem kept_of_upsert {dev : DeviceInfo} (hdev : dev.id = s.deviceId) (hlink : t.link = s.link)
    (hdialf : t.dialf = s.dialf) (hregistry : t.daemon.registry = s.daemon.registry.upsert dev)
    (hagrees : t.Settling j ∨ s.Agrees dev.currentCall) : t.Kept j := by
  have hdevice : t.deviceId = dev.id := by
    rw [hdev, deviceId, deviceId, hlink]
  constructor
  · refine Or.inl ?_
    rw [hregistry, hdevice, Registry.get_upsert]
    simp
  · rcases hagrees with hsoon | hnow
    · exact Or.inl hsoon
    · refine Or.inr ?_
      rw [slot, hregistry, hdevice, Registry.currentCall_upsert]
      exact agrees_of_dialf hdialf hnow

/-- Where no call is tracked, a record that is gone is right. -/
theorem kept_of_nil (hcalls : t.dialf.calls = [])
    (hslot : t.daemon.registry.currentCall t.deviceId = none) : t.Kept j where
  record := Or.inr hcalls
  agrees := by
    refine Or.inr ?_
    rw [slot, hslot]
    exact hcalls

theorem synchronous_advance {key : String} (hs : s.Synchronous)
    (hok : s.Spares (.advance k nowMs)) (h : s.step key (.advance k nowMs) = some t) :
    t.Synchronous := by
  simp only [step] at h
  split at h
  · rename_i handler hhandler
    split at h
    · rename_i handler' daemon hadv
      have ht := (Option.some.inj h).symm
      have hwires : t.wires =
          Function.update s.wires k { s.wires k with handler := some handler' } := by
        rw [ht]
        rfl
      have hlink : t.link = s.link := by
        rw [ht]
        rfl
      have hdialf : t.dialf = s.dialf := by
        rw [ht]
        rfl
      have hregistry : t.daemon.registry = daemon.registry := by
        rw [ht]
        rfl
      have hstage := field_eq Wire.stage hwires rfl
      have hcalm := field_eq Wire.calm hwires rfl
      have hread := field_eq Wire.read hwires rfl
      have hhello := hs.base.handler k handler hhandler
      have hsettling : ∀ j, s.Settling j → t.Settling j := fun j =>
        settling_of_same hlink hdialf (hstage j) (hread j)
      have hbase : t.Base := by
        refine hs.base.of_daemon hlink hcalm ?_ fun j => hread j ▸ hs.base.read j
        intro j h' hj
        by_cases hjk : j = k
        · subst hjk
          rw [hwires, Function.update_self] at hj
          obtain rfl := Option.some.inj hj
          rw [Handler.advance_hello hadv]
          exact hhello
        · rw [hwires, Function.update_of_ne hjk] at hj
          exact hs.base.handler j h' hj
      refine synchronous_of_daemon hs hbase hlink hdialf hstage hcalm fun j hlive hrec => ?_
      have hlt : j < s.link.sockets.length := hs.base.current j hlive.1
      have hrecorded : j = k ∨ (s.wires j).recorded = true := by
        by_cases hjk : j = k
        · exact Or.inl hjk
        · rw [hwires, Function.update_of_ne hjk] at hrec
          exact Or.inr hrec
      -- only the section that writes the record attaches a socket
      have hattached : (∀ aborting prior gen, handler.phase ≠ .registered aborting prior gen) →
          s.Attached j := by
        intro hnot
        refine ⟨hlive, ?_⟩
        rcases hrecorded with rfl | hold
        · rw [hwires, Function.update_self] at hrec
          rcases hasRecord_of_advance hadv hrec with ⟨aborting, prior, gen, hreg⟩ | hbefore
          · exact absurd hreg (hnot aborting prior gen)
          · exact recorded_eq_true.2 ⟨handler, hhandler, hbefore⟩
        · exact hold
      have hwritten := Handler.advance_registry hadv
      obtain ⟨hello, phase⟩ := handler
      simp only [Spares, hhandler] at hok
      cases phase with
      | registered aborting prior gen =>
          refine kept_of_upsert hhello.1 hlink hdialf (hregistry.trans hwritten) ?_
          rcases hok j hlt hlive hrecorded with hsoon | hnow
          · exact Or.inl (hsettling j hsoon)
          · exact Or.inr hnow
      | removing =>
          have hnil := hok j hlt (hattached fun _ _ _ hno => by cases hno)
          refine kept_of_nil (hdialf ▸ hnil) ?_
          rw [hregistry, hwritten, deviceId, hlink, ← deviceId, ← hhello.1]
          exact Registry.currentCall_remove
      | greeted | compared _ | judged _ _ | looked _ _ | recorded _ _ | serving _ | stopped _
      | closed =>
          have hkept := hs.kept j (hattached fun _ _ _ hno => by cases hno)
          exact hkept.of_same (by rw [hlink]) hdialf (hregistry.trans hwritten) (hsettling j)
    · simp at h
  · simp at h

theorem isCallState_iff {f : PhoneToServer} : IsCallState f ↔ ∃ report, f = .callState report := by
  cases f <;> simp [IsCallState]

/-- A frame that is no call state leaves the slot. -/
theorem currentCall_onFrame {reg : Registry} {id : String} {f : PhoneToServer}
    (h : ¬ IsCallState f) : (onFrame reg id nowMs f).currentCall id = reg.currentCall id := by
  cases f with
  | callState report => exact absurd trivial h
  | heartbeat ts adb => exact Registry.currentCall_onHeartbeat nowMs
  | _ => rfl

theorem get_onFrame_eq_none {reg : Registry} {id : String} {f : PhoneToServer} :
    (onFrame reg id nowMs f).get id = none ↔ reg.get id = none := by
  cases f with
  | callState report => exact Registry.get_onCallState_eq_none
  | heartbeat ts adb => exact Registry.get_onHeartbeat_eq_none
  | _ => rfl

/-- Reading a frame that is no call state leaves the reports that are on their way. -/
theorem unread_of_other {f : PhoneToServer} (hnext : s.nextFrame k = some f)
    (hother : ¬ IsCallState f) (h : s.Unread k) :
    ∃ g ∈ (s.link.socket k).frames.drop ((s.wires k).read + 1), IsCallState g := by
  obtain ⟨g, hmem, hg⟩ := h
  refine ⟨g, ?_, hg⟩
  have hhead : (s.link.socket k).frames[(s.wires k).read]? = some f := by
    simp only [nextFrame, Socket.written] at hnext
    split at hnext
    · exact hnext
    · simp at hnext
  obtain ⟨hlt, hget⟩ := List.getElem?_eq_some_iff.1 hhead
  rw [List.drop_eq_getElem_cons hlt, hget] at hmem
  rcases List.mem_cons.1 hmem with rfl | hrest
  · exact absurd hg hother
  · exact hrest

/-- A report that is read leaves the slot as it says, if there is a record. -/
theorem kept_of_report {report : CallReport} (hkept : s.Kept j) (hlink : t.link = s.link)
    (hdialf : t.dialf = s.dialf)
    (hregistry : t.daemon.registry = s.daemon.registry.onCallState s.deviceId nowMs report)
    (hagrees : t.Settling j ∨ s.Agrees report.slot) : t.Kept j := by
  have hdevice : t.deviceId = s.deviceId := by rw [deviceId, deviceId, hlink]
  by_cases hrecord : s.daemon.registry.get s.deviceId = none
  · refine kept_of_nil (hdialf ▸ hkept.record.resolve_left (absurd hrecord)) ?_
    rw [hregistry, hdevice, Registry.currentCall, Registry.get_onCallState_eq_none.2 hrecord]
    rfl
  · constructor
    · refine Or.inl ?_
      rw [hregistry, hdevice, Ne, Registry.get_onCallState_eq_none]
      exact hrecord
    · rcases hagrees with hsoon | hnow
      · exact Or.inl hsoon
      · refine Or.inr ?_
        rw [slot, hregistry, hdevice, Registry.currentCall_onCallState hrecord]
        exact agrees_of_dialf hdialf hnow

/-- What a live socket has reported is what the app tracks. -/
theorem Told.agrees {report : CallReport} (htold : s.Told k) (hopens : s.Opens k)
    (hmem : .callState report ∈ (s.link.socket k).frames) : s.Agrees report.slot := by
  obtain ⟨hstate, c, hc, htells⟩ := htold.good hopens report hmem
  rw [CallReport.slot, if_neg hstate]
  exact ⟨c, hc, htells⟩

theorem mem_of_nextFrame {f : PhoneToServer} (hnext : s.nextFrame k = some f) :
    f ∈ (s.link.socket k).frames ∧ (s.wires k).read < (s.link.socket k).frames.length := by
  simp only [nextFrame, Socket.written] at hnext
  split at hnext
  · exact ⟨List.mem_of_getElem? hnext, (List.getElem?_eq_some_iff.1 hnext).1⟩
  · simp at hnext

theorem synchronous_frame {key : String} (hs : s.Synchronous) (hok : s.Spares (.frame k nowMs))
    (h : s.step key (.frame k nowMs) = some t) : t.Synchronous := by
  simp only [step] at h
  split at h
  · rename_i handler f hhandler hnext
    split at h
    · rename_i hserving
      have ht := (Option.some.inj h).symm
      have hwires : t.wires =
          Function.update s.wires k { s.wires k with read := (s.wires k).read + 1 } := by
        rw [ht]
        rfl
      have hlink : t.link = s.link := by
        rw [ht]
        rfl
      have hdialf : t.dialf = s.dialf := by
        rw [ht]
        rfl
      obtain ⟨hdevice, hopens⟩ := hs.base.handler k handler hhandler
      have hregistry : t.daemon.registry = onFrame s.daemon.registry s.deviceId nowMs f := by
        rw [ht, ← hdevice]
        rfl
      obtain ⟨hmem, hlt⟩ := mem_of_nextFrame hnext
      have hstage := field_eq Wire.stage hwires rfl
      have hcalm := field_eq Wire.calm hwires rfl
      have hhandlers := field_eq Wire.handler hwires rfl
      have hother : ∀ j, j ≠ k → (t.wires j).read = (s.wires j).read := by
        intro j hjk
        rw [hwires, Function.update_of_ne hjk]
      have hself : (t.wires k).read = (s.wires k).read + 1 := by
        rw [hwires, Function.update_self]
      have hbase : t.Base := by
        refine hs.base.of_daemon hlink hcalm (fun j h' hj => ?_) fun j => ?_
        · exact hs.base.handler j h' (hhandlers j ▸ hj)
        · by_cases hjk : j = k
          · subst hjk
            rw [hself]
            exact hlt
          · rw [hother j hjk]
            exact hs.base.read j
      refine synchronous_of_daemon hs hbase hlink hdialf hstage hcalm fun j hlive hrec => ?_
      have hattached : s.Attached j := attached_of_handler hlive (hhandlers j) hrec
      have hkept := hs.kept j hattached
      -- a report changes the slot; any other frame leaves it, and the reports behind it unread
      by_cases hreport : IsCallState f
      · obtain ⟨report, rfl⟩ := isCallState_iff.1 hreport
        refine kept_of_report hkept hlink hdialf hregistry ?_
        by_cases hjk : j = k
        · subst hjk
          exact Or.inr ((hs.told j hlive).agrees hopens hmem)
        · simp only [Spares, hnext] at hok
          rcases hok j (hs.base.current j hlive.1) hattached hjk with hsoon | hnow
          · exact Or.inl (settling_of_same hlink hdialf (hstage j) (hother j hjk) hsoon)
          · exact Or.inr hnow
      · refine hkept.of_slot (by rw [hlink]) hdialf ?_ ?_ ?_
        · rw [hregistry]
          exact get_onFrame_eq_none
        · rw [hregistry]
          exact currentCall_onFrame hreport
        rintro (⟨hstage', hcalls⟩ | hunread)
        · exact Or.inl ⟨hstage j ▸ hstage', hdialf ▸ hcalls⟩
        · refine Or.inr ?_
          by_cases hjk : j = k
          · subst hjk
            rw [Unread, hlink, hself]
            exact unread_of_other hnext hreport hunread
          · rw [Unread, hlink, hother j hjk]
            exact hunread
    · simp at h
  · simp at h

theorem synchronous_reap {key : String} (hs : s.Synchronous) (hok : s.Spares (.reap nowMs))
    (h : s.step key (.reap nowMs) = some t) : t.Synchronous := by
  simp only [step] at h
  split at h
  · obtain rfl := Option.some.inj h
    refine synchronous_of_daemon hs ?_ rfl rfl (fun _ => rfl) (fun _ => rfl) ?_
    · exact hs.base.of_daemon rfl (fun _ => rfl) hs.base.handler hs.base.read
    · intro j hlive hrec
      have hattached : s.Attached j := ⟨hlive, hrec⟩
      have hkept := hs.kept j hattached
      cases hget : s.daemon.registry.get s.deviceId with
      | none =>
          refine kept_of_nil (hkept.record.resolve_left (absurd hget)) ?_
          exact congrArg (Option.bind · DeviceInfo.currentCall)
            (Registry.get_reapOlderThan_of_none hget)
      | some dev =>
          simp only [Spares, hget] at hok
          by_cases hstale : dev.lastSeenMs < nowMs - staleAfterMs
          · refine kept_of_nil (hok hstale j (hs.base.current j hlive.1) hattached) ?_
            exact congrArg (Option.bind · DeviceInfo.currentCall)
              (Registry.get_reapOlderThan_of_stale hget hstale)
          · have hseen := Registry.get_reapOlderThan_of_seen hget hstale
            refine hkept.of_slot rfl rfl (by rw [hseen, hget]) ?_ fun h => h
            rw [Registry.currentCall, hseen, ← hget]
            rfl
  · simp at h

/-- What the daemon does besides the registry does not matter. -/
theorem synchronous_of_registry (hs : s.Synchronous) (hlink : t.link = s.link)
    (hdialf : t.dialf = s.dialf) (hwires : t.wires = s.wires)
    (hregistry : t.daemon.registry = s.daemon.registry) : t.Synchronous := by
  refine synchronous_of_daemon hs ?_ hlink hdialf (fun _ => by rw [hwires])
    (fun _ => by rw [hwires]) ?_
  · exact hs.base.of_daemon hlink (fun _ => by rw [hwires]) (hwires ▸ hs.base.handler)
      (hwires ▸ hs.base.read)
  · intro j hlive hrec
    have hattached : s.Attached j := ⟨hlive, hwires ▸ hrec⟩
    refine (hs.kept j hattached).of_same (by rw [hlink]) hdialf hregistry ?_
    exact settling_of_same hlink hdialf (by rw [hwires]) (by rw [hwires])

theorem synchronous_step {key : String} {a : ResyncLabel} (hs : s.Synchronous) (hok : s.Spares a)
    (h : s.step key a = some t) : t.Synchronous := by
  cases a with
  | link a => exact synchronous_link hs h
  | onOpen k nowMs => exact synchronous_onOpen hs h
  | pick k i => exact synchronous_pick hs h
  | report k number direction => exact synchronous_report hs hok h
  | callAdded uid state number direction => exact synchronous_callAdded hs h
  | stateChanged uid state number direction => exact synchronous_stateChanged hs h
  | callRemoved uid number => exact synchronous_callRemoved hs h
  | accept k peer => exact synchronous_accept hs h
  | advance k nowMs => exact synchronous_advance hs hok h
  | frame k nowMs => exact synchronous_frame hs hok h
  | stop k => exact synchronous_stop hs h
  | reap nowMs => exact synchronous_reap hs hok h
  | dropReaped =>
      simp only [step] at h
      split at h
      · obtain rfl := Option.some.inj h
        exact synchronous_of_registry hs rfl rfl rfl rfl
      · simp at h
  | setBusy busy =>
      obtain rfl := Option.some.inj h
      exact synchronous_of_registry hs rfl rfl rfl rfl

theorem synchronous_start (identity : Identity) (daemon : DaemonState) :
    (start identity daemon).Synchronous := by
  have hframes : ∀ k, ((start identity daemon).link.socket k).frames = [] := fun _ => rfl
  have hcalm : ∀ k, ((start identity daemon).wires k).calm = false := fun _ => rfl
  refine synchronous_of_disturbed ⟨?_, ?_, fun _ => rfl, ?_, ?_, ?_, ?_⟩ hcalm
  · intro sock hmem
    cases hmem
  · rintro k (hk | hk)
    · cases hk
    · cases hk
  · intro k hk
    exact absurd ((hcalm k).symm.trans hk) (by simp)
  · intro k f hmem
    rw [hframes] at hmem
    cases hmem
  · intro k h hk
    cases hk
  · exact fun k => Nat.zero_le _

/-- Where everything has been read, what the daemon has is what the app tracks. -/
theorem resynced_of_synchronous (hs : s.Synchronous) : s.Resynced := by
  intro k hquiet
  have hlive : s.Live k := ⟨Or.inl hquiet.current, hquiet.calm, hquiet.opened⟩
  obtain ⟨h, hhandler, hserving⟩ := serving_eq_true.1 hquiet.serving
  have hattached : s.Attached k :=
    ⟨hlive, recorded_eq_true.2 ⟨h, hhandler, hasRecord_of_isServing hserving⟩⟩
  have hagrees : s.Agrees s.slot := by
    -- with `onOpen` returned and everything read there is nothing left to settle
    rcases (hs.kept k hattached).agrees with (⟨hstage, -⟩ | ⟨f, hmem, -⟩) | hnow
    · exact absurd hquiet.returned hstage
    · rw [hquiet.read, List.drop_length] at hmem
      cases hmem
    · exact hnow
  refine ⟨hagrees, (hs.told k hlive).ringing hquiet.returned, ?_⟩
  intro hnil io now hdevice hin hsaw
  refine PhoneJobIo.callEnded_eq_true.2 ⟨hin, hsaw, ?_⟩
  rw [hdevice]
  cases hslot : s.daemon.registry.currentCall s.deviceId with
  | none => rfl
  | some info =>
      rw [slot, hslot] at hagrees
      obtain ⟨c, hc, -⟩ := hagrees
      rw [hnil] at hc
      cases hc

/-- **A reconnect resynchronises the call state** in the runs whose steps meet the condition. -/
theorem resynced_of_reachWhere (sharedKey : String) :
    ∀ s, (machine sharedKey).ReachWhere Spares s → s.Resynced := by
  intro s hreach
  apply resynced_of_synchronous
  refine Machine.invariant ?_ ?_ s hreach
  · rintro _ ⟨identity, daemon, rfl⟩
    exact synchronous_start identity daemon
  · intro s a t hs hok h
    exact synchronous_step hs hok h

/-- The app opens its socket `k` while it tracks nothing or its first call. -/
def openSocket (k : Nat) : List ResyncLabel :=
  [.link .connect, .link .publish, .link (.handshake k), .onOpen k 0, .pick k 0]

/-- The daemon takes the socket and comes to serve it. -/
def serveSocket (k : Nat) : List ResyncLabel :=
  .accept k "10.0.0.2" :: List.replicate 6 (.advance k 0)

/-- A call rings; it is answered in the gap, and re-reported on the new socket. -/
def answeredRun : List ResyncLabel :=
  .link .onStartCommand :: openSocket 0 ++ serveSocket 0 ++
    [.callAdded 7 .ringing (some "100") .incoming, .frame 0 1, .link (.dropped 0),
      .stateChanged 7 .active (some "100") .incoming] ++
    openSocket 1 ++ [.report 1 (some "100") .incoming] ++ serveSocket 1 ++
    [.frame 1 2, .stop 0, .advance 0 3]

/-- A call is up; it ends in the gap, and the old connection is still registered when the new hello
comes. -/
def endedRun : List ResyncLabel :=
  .link .onStartCommand :: openSocket 0 ++ serveSocket 0 ++
    [.callAdded 7 .active (some "100") .outgoing, .frame 0 1, .link (.dropped 0),
      .callRemoved 7 (some "100")] ++
    openSocket 1 ++ serveSocket 1 ++ [.stop 0, .advance 0 3]

theorem resynced_answeredRun :
    ∃ t, (machine "secret").run (start ⟨"p", "phone", "secret", "app"⟩ .start) answeredRun =
        some t ∧ t.Quiet 1 ∧ t.Resynced := by
  have hmeets : (machine "secret").Meets Spares (start ⟨"p", "phone", "secret", "app"⟩ .start)
      answeredRun := by decide
  refine ⟨_, rfl, ⟨rfl, rfl, rfl, rfl, rfl, rfl⟩, ?_⟩
  exact resynced_of_reachWhere "secret" _
    (Machine.reachWhere_of_run (.init ⟨_, _, rfl⟩) hmeets rfl)

/-- No re-report says that the call is gone, and the daemon keeps it. -/
theorem exists_not_resynced :
    ∃ t, (machine "secret").run (start ⟨"p", "phone", "secret", "app"⟩ .start) endedRun = some t ∧
      ¬ t.Resynced := by
  refine ⟨_, rfl, fun hsynced => ?_⟩
  have hquiet := hsynced 1 ⟨rfl, rfl, rfl, rfl, rfl, rfl⟩
  exact absurd hquiet.agrees (by decide)

end Resync

end DialF.Phone
