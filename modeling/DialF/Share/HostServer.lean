import DialF.Share.Adb

/-!
# The adb server behind a share

What the policy of a share relies on about the server it forwards to. The server reads requests off
a connection, frame after frame, until one of them opens a device service or the server closes the
connection; a request that is no host request always does one of the two. A host request is read as
a way to address a device, where it has one, and a command: `host:<cmd>` and the prefixes
`host-serial:<serial>:`, `host-usb:`, `host-local:` and `host-transport-id:<n>:`, behind which the
same commands stand as behind `host:`.

Where the server cuts a serial, which may contain colons itself, off the command behind it, how it
reads a number, which commands need a device, and which requests end the reading are the fields of
`HostServer`; `adbServer` is an executable instance.
-/

set_option autoImplicit false

namespace DialF.Share

open DialF.Lib

/-- A kind of device that a request can ask for without naming one. -/
inductive Kind where
  | any
  | usb
  | local
  deriving DecidableEq

/-- How a request addresses a device. -/
inductive Address where
  | serial (s : Str)
  | transportId (n : Nat)
  | kind (k : Kind)
  deriving DecidableEq

/-- A device attached to the server. Serials are C strings, so they contain no NUL. -/
structure Transport where
  serial : Str
  id : Nat
  usb : Bool
  nul_not_mem : nul ∉ serial

/-- The device is of the kind. -/
def Kind.includes : Kind → Transport → Bool
  | .any, _ => true
  | .usb, d => d.usb
  | .local, d => !d.usb

/-- The address resolves to the device `d`, with the devices `attached`. A kind resolves only where
one device is of that kind. -/
def Resolves (attached : List Transport) : Address → Transport → Prop
  | .serial s, d => d ∈ attached ∧ d.serial = s
  | .transportId n, d => d ∈ attached ∧ d.id = n
  | .kind k, d => attached.filter k.includes = [d]

/-- A payload that starts with `host`. -/
def isHostRequest (request : Str) : Bool := startsWith "host".toList request

/-- What the policy relies on about the server. -/
structure HostServer where
  /-- The reader of the four length digits. -/
  readLen : Bytes → Option Nat
  readLen_hex04 : Frame.ReadsHex04 readLen
  /-- The request opens a device service, or the server closes the connection after it. -/
  ends : Str → Bool
  ends_of_not_host : ∀ request, isHostRequest request = false → ends request = true
  /-- Where the server cuts `<serial>:<command>`. -/
  cutSerial : Str → Option (Str × Str)
  cutSerial_eq : ∀ rest s cmd, cutSerial rest = some (s, cmd) → rest = s ++ ':' :: cmd
  /-- The reader of a transport id. -/
  transportId : Str → Option Nat
  /-- The kind of device that `host:<cmd>` is run on, `none` where it needs no device. -/
  deviceKind : Str → Option Kind

/-- The text before the first colon and the text behind it. -/
def cutColon : Str → Option (Str × Str)
  | [] => none
  | c :: s => if c = ':' then some ([], s) else (cutColon s).map fun p => (c :: p.1, p.2)

theorem cutColon_eq {rest n cmd : Str} (h : cutColon rest = some (n, cmd)) :
    rest = n ++ ':' :: cmd := by
  induction rest generalizing n with
  | nil => simp [cutColon] at h
  | cons c s ih =>
      by_cases hc : c = ':'
      · simp only [cutColon, if_pos hc, Option.some.injEq, Prod.mk.injEq] at h
        rw [← h.1, ← h.2, hc]
        rfl
      · simp only [cutColon, if_neg hc, Option.map_eq_some_iff, Prod.exists, Prod.mk.injEq] at h
        obtain ⟨m, cmd', hm, rfl, rfl⟩ := h
        rw [ih hm]
        rfl

/-- A host request as the server reads it. -/
structure HostRequest where
  address : Option Address
  command : Str
  deriving DecidableEq

namespace HostServer

variable (srv : HostServer)

/-- The device that `host:<cmd>` addresses. -/
def bareAddress (cmd : Str) : Option Address :=
  match namedSerial cmd with
  | some serial => some (.serial serial)
  | none =>
      match stripPrefix "transport-id:".toList cmd with
      | some n => (srv.transportId n).map .transportId
      | none => (srv.deviceKind cmd).map .kind

/-- A request read by the prefix it starts with. -/
def parse (request : Str) : Option HostRequest :=
  match stripPrefix "host:".toList request with
  | some cmd => some ⟨srv.bareAddress cmd, cmd⟩
  | none =>
      match stripPrefix "host-serial:".toList request with
      | some rest => (srv.cutSerial rest).map fun p => ⟨some (.serial p.1), p.2⟩
      | none =>
          match stripPrefix "host-usb:".toList request with
          | some cmd => some ⟨some (.kind .usb), cmd⟩
          | none =>
              match stripPrefix "host-local:".toList request with
              | some cmd => some ⟨some (.kind .local), cmd⟩
              | none =>
                  match stripPrefix "host-transport-id:".toList request with
                  | some rest =>
                      (cutColon rest).bind fun p =>
                        (srv.transportId p.1).map fun n => ⟨some (.transportId n), p.2⟩
                  | none => none

/-- The device that a request addresses. -/
def addressOf (request : Str) : Option Address := (srv.parse request).bind HostRequest.address

/-- The requests that the server reads off a connection. -/
def requests (bytes : Bytes) : List Str :=
  (Frame.payloads srv.readLen (fun p => srv.ends (fromUtf8Lossy p)) bytes).map fromUtf8Lossy

/-! ## The forms of a host request -/

/-- A way to put a device before a command other than `host:<cmd>`. -/
inductive Prefixed : Str → HostRequest → Prop where
  | serial {rest s cmd : Str} : srv.cutSerial rest = some (s, cmd) →
      Prefixed ("host-serial:".toList ++ rest) ⟨some (.serial s), cmd⟩
  | usb (cmd : Str) : Prefixed ("host-usb:".toList ++ cmd) ⟨some (.kind .usb), cmd⟩
  | local (cmd : Str) : Prefixed ("host-local:".toList ++ cmd) ⟨some (.kind .local), cmd⟩
  | transportId {rest n cmd : Str} {id : Nat} : cutColon rest = some (n, cmd) →
      srv.transportId n = some id →
      Prefixed ("host-transport-id:".toList ++ rest) ⟨some (.transportId id), cmd⟩

@[simp] theorem parse_host (cmd : Str) :
    srv.parse ("host:".toList ++ cmd) = some ⟨srv.bareAddress cmd, cmd⟩ := by
  rw [parse, stripPrefix_append]

@[simp] theorem parse_hostSerial (rest : Str) :
    srv.parse ("host-serial:".toList ++ rest) =
      (srv.cutSerial rest).map fun p => ⟨some (.serial p.1), p.2⟩ := by
  have hhost : stripPrefix "host:".toList ("host-serial:".toList ++ rest) = none := by
    simp [stripPrefix, List.isPrefixOf?]
  rw [parse, hhost, stripPrefix_append]

theorem parse_of_prefixed {request : Str} {h : HostRequest} (hp : srv.Prefixed request h) :
    srv.parse request = some h := by
  cases hp with
  | serial hcut => rw [parse_hostSerial, hcut]; rfl
  | usb cmd => simp [parse, stripPrefix, List.isPrefixOf?]
  | «local» cmd => simp [parse, stripPrefix, List.isPrefixOf?]
  | transportId hcut hid => simp [parse, stripPrefix, List.isPrefixOf?, hcut, hid]

/-- A request is read as `host:<cmd>` or in one of the prefixed forms. -/
theorem parse_eq_some {request : Str} {h : HostRequest} (hparse : srv.parse request = some h) :
    request = "host:".toList ++ h.command ∧ h.address = srv.bareAddress h.command ∨
      srv.Prefixed request h := by
  unfold parse at hparse
  split at hparse
  · rename_i cmd hhost
    simp only [Option.some.injEq] at hparse
    subst hparse
    exact Or.inl ⟨stripPrefix_eq_some_iff.1 hhost, rfl⟩
  refine Or.inr ?_
  split at hparse
  · rename_i rest hserial
    simp only [Option.map_eq_some_iff] at hparse
    obtain ⟨⟨s, cmd⟩, hcut, rfl⟩ := hparse
    rw [stripPrefix_eq_some_iff.1 hserial]
    exact .serial hcut
  split at hparse
  · rename_i cmd husb
    simp only [Option.some.injEq] at hparse
    subst hparse
    rw [stripPrefix_eq_some_iff.1 husb]
    exact .usb cmd
  split at hparse
  · rename_i cmd hlocal
    simp only [Option.some.injEq] at hparse
    subst hparse
    rw [stripPrefix_eq_some_iff.1 hlocal]
    exact .local cmd
  split at hparse
  · rename_i rest hid
    simp only [Option.bind_eq_some_iff, Option.map_eq_some_iff] at hparse
    obtain ⟨⟨n, cmd⟩, hcut, id, hn, rfl⟩ := hparse
    rw [stripPrefix_eq_some_iff.1 hid]
    exact .transportId hcut hn
  · exact absurd hparse (by simp)

theorem isHostRequest_of_parse {request : Str} {h : HostRequest}
    (hparse : srv.parse request = some h) : isHostRequest request = true := by
  rcases srv.parse_eq_some hparse with ⟨hreq, -⟩ | hp
  · rw [hreq]
    rfl
  · cases hp <;> rfl

/-- A prefix other than `host-serial:` is no reason for a verdict. -/
theorem decide_of_prefixed {request : Str} {h : HostRequest} (hp : srv.Prefixed request h)
    (hne : ∀ s, h.address ≠ some (.serial s)) (targets : Targets) :
    decide request targets = .forward := by
  cases hp with
  | serial hcut => exact absurd rfl (hne _)
  | usb cmd =>
      apply decide_other
      · rw [stripPrefix_trimEndMatches (by decide)]
        simp [stripPrefix, List.isPrefixOf?]
      · rw [stripPrefix_trimEndMatches (by decide)]
        simp [stripPrefix, List.isPrefixOf?]
  | «local» cmd =>
      apply decide_other
      · rw [stripPrefix_trimEndMatches (by decide)]
        simp [stripPrefix, List.isPrefixOf?]
      · rw [stripPrefix_trimEndMatches (by decide)]
        simp [stripPrefix, List.isPrefixOf?]
  | transportId hcut hid =>
      apply decide_other
      · rw [stripPrefix_trimEndMatches (by decide)]
        simp [stripPrefix, List.isPrefixOf?]
      · rw [stripPrefix_trimEndMatches (by decide)]
        simp [stripPrefix, List.isPrefixOf?]

end HostServer

/-! ## Reading what a forwarded request starts -/

/-- A message as it goes over the wire. -/
def writeMessage (payload : Str) : Bytes := Frame.encode (utf8 payload)

/-- The payload's length fits the four digits before it. -/
def Fits (payload : Str) : Prop := (utf8 payload).length < 65536

instance (payload : Str) : Decidable (Fits payload) :=
  inferInstanceAs (Decidable ((utf8 payload).length < 65536))

/-- A payload that starts with a length digit is no host request. -/
theorem isHostRequest_hexByte {d : Nat} (hd : d < 16) (t : Bytes) :
    isHostRequest (fromUtf8Lossy (Frame.hexByte d :: t)) = false := by
  obtain ⟨c, hc, hne⟩ : ∃ c : Char, String.utf8EncodeChar c = [Frame.hexByte d] ∧ c ≠ 'h' := by
    refine ⟨Char.ofNat (Frame.hexByte d).toNat, ?_, ?_⟩
    · interval_cases d <;> decide
    · interval_cases d <;> decide
  obtain ⟨s, hs⟩ := fromUtf8Lossy_encode_append c t
  rw [hc, List.singleton_append] at hs
  rw [hs, isHostRequest, startsWith_eq_false_iff]
  intro r hr
  have hhead : c :: s = 'h' :: ("ost".toList ++ r) := hr
  exact hne (List.cons.inj hhead).1

section Requests

variable (srv : HostServer)

@[simp] theorem requests_nil : srv.requests [] = [] := rfl

/-- A message that fits is read, and behind it the rest where it does not end the reading. -/
theorem requests_writeMessage_append {message : Str} (hfit : Fits message) (rest : Bytes) :
    srv.requests (writeMessage message ++ rest) =
      message :: if srv.ends message then [] else srv.requests rest := by
  rw [HostServer.requests, writeMessage, Frame.payloads_encode_append srv.readLen_hex04 _ hfit,
    fromUtf8Lossy_utf8, List.map_cons, fromUtf8Lossy_utf8]
  cases srv.ends message <;> rfl

/-- No host request is read from a message too long for its four digits on: what stands behind
them starts with a fifth one, and a request that is no host request ends the reading. -/
theorem isHostRequest_of_not_fits {message request : Str} (hfit : ¬ Fits message) {rest : Bytes}
    (hmem : request ∈ srv.requests (writeMessage message ++ rest)) :
    isHostRequest request = false := by
  rw [HostServer.requests, writeMessage, Frame.payloads_eq] at hmem
  cases hcut : Frame.cut srv.readLen (Frame.encode (utf8 message) ++ rest) with
  | none => simp [hcut] at hmem
  | some pr =>
      obtain ⟨p, rest'⟩ := pr
      have hp : isHostRequest (fromUtf8Lossy p) = false := by
        rcases Frame.cut_encode_of_length_ge (Nat.le_of_not_lt hfit) hcut with rfl | ⟨d, t, rfl, hd⟩
        · rfl
        · exact isHostRequest_hexByte hd t
      simp only [hcut, srv.ends_of_not_host _ hp, if_true, List.map_cons, List.map_nil,
        List.mem_singleton] at hmem
      rw [hmem]
      exact hp

end Requests

/-! ## An executable server -/

/-- A decimal number. -/
def decimal (s : Str) : Option Nat :=
  if s.isEmpty || !s.all Char.isDigit then none
  else some (s.foldl (fun n c => 10 * n + (c.toNat - 48)) 0)

/-- A serial ends at the first colon, or behind the port that follows it. -/
def cutSerialPort (rest : Str) : Option (Str × Str) :=
  match cutColon rest with
  | none => none
  | some (host, cmd) =>
      match cutColon cmd with
      | none => some (host, cmd)
      | some (port, cmd') =>
          if (decimal port).isSome then some (host ++ ':' :: port, cmd') else some (host, cmd)

theorem cutSerialPort_eq {rest s cmd : Str} (h : cutSerialPort rest = some (s, cmd)) :
    rest = s ++ ':' :: cmd := by
  unfold cutSerialPort at h
  cases hhost : cutColon rest with
  | none => simp [hhost] at h
  | some p =>
      obtain ⟨host, cmd₁⟩ := p
      have hrest := cutColon_eq hhost
      cases hport : cutColon cmd₁ with
      | none =>
          simp only [hhost, hport, Option.some.injEq, Prod.mk.injEq] at h
          rw [hrest, h.1, h.2]
      | some q =>
          obtain ⟨port, cmd₂⟩ := q
          simp only [hhost, hport] at h
          split at h
          · simp only [Option.some.injEq, Prod.mk.injEq] at h
            rw [hrest, cutColon_eq hport, ← h.1, ← h.2, List.append_assoc, List.cons_append]
          · simp only [Option.some.injEq, Prod.mk.injEq] at h
            rw [hrest, h.1, h.2]

/-- A server that reads four hexadecimal digits, closes after a request that is no host request,
and takes a port for a part of the serial. -/
def adbServer : HostServer where
  readLen digits := Frame.hexDigits 0 digits
  readLen_hex04 _ hn := Frame.hexDigits_hex04 hn
  ends request := !isHostRequest request
  ends_of_not_host request h := by rw [h]; rfl
  cutSerial := cutSerialPort
  cutSerial_eq _ _ _ h := cutSerialPort_eq h
  transportId := decimal
  deviceKind cmd :=
    if cmd = "features".toList ∨ cmd = "get-state".toList ∨ cmd = "reconnect".toList then some .any
    else none

end DialF.Share
