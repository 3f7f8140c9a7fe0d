import DialF.Lib.Machine
import DialF.Share.Client

/-!
# Both ends of a handshake

A client and the server on one connection, with the bytes that are in flight in either direction.
Each side reads what it gets in pieces of any size. Nothing times out, TCP loses nothing, and the
upstream is silent until it has been sent something; behind a handshake both ends relay.

The handshake goes through five phases, in each of which one line is under way at most (`Phases`),
so that neither reader ever holds a byte behind the line that it reads. `agree_of_run` is what comes
of it, and `exists_settled` that it comes to an end.
-/

set_option autoImplicit false

namespace DialF.Share

open DialF.Lib

/-- A client, the server's end, and the bytes between them. `clientSent` and `serverSent` remember
what the relays have sent, and `clientGot` what has reached the client's; what has reached the
server's is in the wire. -/
structure Pair where
  client : Client
  server : Wire
  toServer : Bytes
  toClient : Bytes
  clientSent : Bytes
  serverSent : Bytes
  clientGot : Bytes
  deriving DecidableEq

/-- What the two ends do next. -/
inductive PairLabel where
  | serverRecv (n : Nat)
  | serverPoll
  | serverEof
  | clientRecv (n : Nat)
  | clientPoll
  | clientEof
  | clientReset
  | clientSends (bytes : Bytes)
  | clientRelays (n : Nat)
  | serverSends (bytes : Bytes)
  | serverRelays (n : Nat)
  deriving DecidableEq

/-- A step of the handshake, and none of the relays. -/
def PairLabel.OfHandshake : PairLabel → Prop
  | .clientSends _ | .clientRelays _ | .serverSends _ | .serverRelays _ => False
  | _ => True

namespace Pair

section Machine

variable (mac : Bytes → Bytes → Digest) (clientToken serverToken : Str) (nonce : Digest)

/-- The client has connected and sent its preamble. -/
def start : Pair := ⟨.new, .new, helloLine, [], [], [], []⟩

/-- The server's end moves, and what it has written is on its way. -/
def serverMoves (s : Pair) (server : Wire) : Pair :=
  { s with
    server := server
    toClient := s.toClient ++ server.written.drop s.server.written.length }

/-- The client has moved, and what it wrote is on its way. -/
def clientMoves (s : Pair) (moved : Client × Bytes) : Pair :=
  { s with client := moved.1, toServer := s.toServer ++ moved.2 }

/-- One step of either end. -/
def step (s : Pair) : PairLabel → Option Pair
  | .serverRecv n =>
      (s.server.step mac serverToken (.recv (s.toServer.take n))).map fun server =>
        { s with server := server, toServer := s.toServer.drop n }
  | .serverPoll => (s.server.step mac serverToken (.poll nonce)).map s.serverMoves
  -- a client that fails closes the connection, and so does a server that refuses
  | .serverEof =>
      if s.client.stage = .failed ∧ s.toServer = [] then
        (s.server.step mac serverToken .eof).map s.serverMoves
      else none
  | .clientRecv n =>
      (s.client.recv (s.toClient.take n)).map fun client =>
        { s with client := client, toClient := s.toClient.drop n }
  | .clientPoll => (s.client.poll mac clientToken).map s.clientMoves
  | .clientEof =>
      if s.server.stage = .refused ∧ s.toClient = [] then
        (s.client.eof mac clientToken).map s.clientMoves
      else none
  -- what a server that has closed the connection sent last may be lost
  | .clientReset =>
      if s.server.stage = .refused ∧ s.client.stage.Reading then
        some { s with client := ⟨.failed, [], []⟩ }
      else none
  | .clientSends bytes =>
      if s.client.stage = .connected then
        some { s with toServer := s.toServer ++ bytes, clientSent := s.clientSent ++ bytes }
      else none
  | .clientRelays n =>
      if s.client.stage = .connected then
        some { s with toClient := s.toClient.drop n, clientGot := s.clientGot ++ s.toClient.take n }
      else none
  -- the upstream writes nothing before it has received something
  | .serverSends bytes =>
      if s.server.stage = .admitted ∧ s.server.relayed ≠ [] then
        some { s with toClient := s.toClient ++ bytes, serverSent := s.serverSent ++ bytes }
      else none
  | .serverRelays n =>
      (s.server.step mac serverToken (.relay (s.toServer.take n))).map fun server =>
        { s with server := server, toServer := s.toServer.drop n }

/-- All runs of a client and a server over one connection. -/
def machine : Machine Pair PairLabel where
  Init s := s = start
  step s a := s.step mac clientToken serverToken nonce a

/-- Nothing of the handshake is left to be done. -/
def Settled (s : Pair) : Prop :=
  ∀ a : PairLabel, a.OfHandshake → s.step mac clientToken serverToken nonce a = none

/-- The digests of the nonce under the two tokens are the same. -/
def SameDigest : Prop :=
  digest mac clientToken (hex nonce.toList) = digest mac serverToken (hex nonce.toList)

/-- What the relays have sent has arrived or is in flight, in order, and nothing else is. -/
structure Exact (s : Pair) : Prop where
  toServer : s.clientSent = s.server.relayed ++ s.toServer
  toClient : s.serverSent = s.clientGot ++ s.toClient
  serverBuffer : s.server.buffer = []
  clientBuffer : s.client.buffer = []

/-- No relay has sent or received anything. -/
structure Silent (s : Pair) : Prop where
  clientSent : s.clientSent = []
  serverSent : s.serverSent = []
  clientGot : s.clientGot = []
  relayed : s.server.relayed = []

/-- The preamble is under way. -/
structure Greeting (s : Pair) : Prop where
  server : s.server.stage = .hello
  written : s.server.written = []
  client : s.client = .new
  incoming : Incoming maxLine (utf8 helloText) s.server.line s.server.buffer s.toServer
  toClient : s.toClient = []
  silent : s.Silent

/-- The nonce is under way. -/
structure Challenging (s : Pair) : Prop where
  server : s.server.stage = .answer nonce
  line : s.server.line = []
  buffer : s.server.buffer = []
  toServer : s.toServer = []
  client : s.client.stage = .challenge
  incoming : Incoming maxLine (utf8 (nonceText nonce)) s.client.line s.client.buffer s.toClient
  silent : s.Silent

/-- The answer is under way. -/
structure Answering (s : Pair) : Prop where
  server : s.server.stage = .answer nonce
  client : s.client = ⟨.verdict, [], []⟩
  incoming : Incoming maxLine
    (utf8 (authText (digest mac clientToken (hex nonce.toList)))) s.server.line s.server.buffer
    s.toServer
  toClient : s.toClient = []
  silent : s.Silent

/-- The verdict is under way. -/
structure Judged (stage : Stage) (text : Str) (s : Pair) : Prop where
  server : s.server.stage = stage
  buffer : s.server.buffer = []
  toServer : s.toServer = []
  client : s.client.stage = .verdict
  incoming : Incoming maxLine (utf8 text) s.client.line s.client.buffer s.toClient
  silent : s.Silent

/-- Both ends have agreed, and each has read exactly what is of the handshake. -/
structure Relaying (s : Pair) : Prop where
  server : s.server.stage = .admitted
  client : s.client.stage = .connected
  exact : s.Exact

/-- Both ends have given up, and nothing is relayed. -/
structure Refused (s : Pair) : Prop where
  server : s.server.stage = .refused
  client : s.client.stage = .failed
  silent : s.Silent

/-- The phases of a handshake. -/
inductive Phases (s : Pair) : Prop where
  | greeting : s.Greeting → Phases s
  | challenging : s.Challenging nonce → Phases s
  | answering : s.Answering mac clientToken nonce → Phases s
  | admitting : SameDigest mac clientToken serverToken nonce →
      s.Judged .admitted "OK".toList → Phases s
  | rejecting : ¬ SameDigest mac clientToken serverToken nonce →
      s.Judged .refused "ERR auth failed".toList → Phases s
  | relaying : SameDigest mac clientToken serverToken nonce → s.Relaying → Phases s
  | refused : ¬ SameDigest mac clientToken serverToken nonce → s.Refused → Phases s

end Machine

/-! ## Reading a line in pieces -/

section Reading

variable {mac : Bytes → Bytes → Digest} {token : Str} {nonce issued : Digest} {w : Wire} {c : Client}
  {text flight : Bytes}

theorem poll_of_ne_nil (hreading : w.stage.Reading) (h : Incoming maxLine text w.line w.buffer flight)
    (hflight : flight ≠ []) :
    w.poll mac token nonce = { w with line := w.line ++ w.buffer, buffer := [] } := by
  obtain ⟨hout, -⟩ := h.readUntil_of_ne_nil hflight
  unfold Wire.poll
  rw [hout]
  cases hstage : w.stage with
  | hello | answer issued => rfl
  | admitted | refused => simp [hstage, Stage.Reading] at hreading

theorem poll_hello (hstage : w.stage = .hello)
    (h : Incoming maxLine (utf8 helloText) w.line w.buffer []) :
    w.poll mac token nonce =
      { w with
        stage := .answer nonce, line := [], buffer := [],
        written := w.written ++ nonceLine nonce } := by
  unfold Wire.poll
  rw [hstage, h.readUntil_of_nil]
  exact onHello_helloLine _

theorem poll_answer {auth : Digest} (hstage : w.stage = .answer issued)
    (h : Incoming maxLine (utf8 (authText auth)) w.line w.buffer []) :
    w.poll mac token nonce =
      if auth = digest mac token (hex issued.toList) then
        { w with stage := .admitted, line := [], buffer := [], written := w.written ++ okLine }
      else
        { w with
          stage := .refused, line := [], buffer := [],
          written := w.written ++ utf8 "ERR auth failed\n".toList } := by
  unfold Wire.poll
  rw [hstage, h.readUntil_of_nil]
  exact onAnswer_authLine _ auth rfl

theorem clientPoll_of_ne_nil (hreading : c.stage.Reading) (hbuffer : c.buffer ≠ [])
    (h : Incoming maxLine text c.line c.buffer flight) (hflight : flight ≠ []) :
    c.poll mac token = some ({ c with line := c.line ++ c.buffer, buffer := [] }, []) := by
  obtain ⟨hout, -⟩ := h.readUntil_of_ne_nil hflight
  rw [Client.poll, if_pos ⟨hreading, hbuffer⟩, hout]

theorem clientPoll_of_nil (hreading : c.stage.Reading) (hbuffer : c.buffer ≠ [])
    (h : Incoming maxLine text c.line c.buffer []) :
    c.poll mac token = some (Client.onLine mac token c.stage (text ++ [lineFeed])) := by
  rw [Client.poll, if_pos ⟨hreading, hbuffer⟩, h.readUntil_of_nil]

end Reading

/-! ## The phases -/

section Phases

variable {mac : Bytes → Bytes → Digest} {clientToken serverToken : Str} {nonce : Digest}
  {s t : Pair} {a : PairLabel}

/-- How much of the handshake is left: the lines that are not yet read, the bytes in flight, and the
bytes in the buffers. -/
def measure (s : Pair) : Nat :=
  let server := match s.server.stage with
    | .hello => 2
    | .answer _ => 1
    | .admitted | .refused => 0
  let client := match s.client.stage with
    | .challenge => 2
    | .verdict => 1
    | .connected | .failed => 0
  1000 * (server + client) + 2 * (s.toServer.length + s.toClient.length) +
    s.server.buffer.length + s.client.buffer.length

/-- A step stays in the phases, and a step of the handshake gets on with it. -/
structure Advances (mac : Bytes → Bytes → Digest) (clientToken serverToken : Str) (nonce : Digest)
    (a : PairLabel) (s t : Pair) : Prop where
  phases : t.Phases mac clientToken serverToken nonce
  measure : a.OfHandshake → t.measure < s.measure

theorem Silent.keeps (hs : s.Silent) (hclient : t.clientSent = s.clientSent)
    (hserver : t.serverSent = s.serverSent) (hgot : t.clientGot = s.clientGot)
    (hrelayed : t.server.relayed = s.server.relayed) : t.Silent where
  clientSent := hclient.trans hs.clientSent
  serverSent := hserver.trans hs.serverSent
  clientGot := hgot.trans hs.clientGot
  relayed := hrelayed.trans hs.relayed

/-- A piece that is taken in is no longer in flight. -/
theorem length_of_take {flight : Bytes} {n : Nat} (h : flight.take n ≠ []) :
    (flight.take n).length + (flight.drop n).length = flight.length ∧
      0 < (flight.take n).length := by
  refine ⟨?_, List.length_pos_of_ne_nil h⟩
  rw [← List.length_append, List.take_append_drop]

theorem measure_serverRecv {n : Nat} {received : Bytes} (hempty : s.server.buffer = [])
    (hne : s.toServer.take n ≠ []) :
    measure { s with
      server := { s.server with buffer := s.toServer.take n, received := received }
      toServer := s.toServer.drop n } < s.measure := by
  obtain ⟨hlen, hpos⟩ := length_of_take hne
  simp only [measure, hempty, List.length_nil]
  omega

theorem measure_clientRecv {n : Nat} (hempty : s.client.buffer = [])
    (hne : s.toClient.take n ≠ []) :
    measure { s with
      client := { s.client with buffer := s.toClient.take n }
      toClient := s.toClient.drop n } < s.measure := by
  obtain ⟨hlen, hpos⟩ := length_of_take hne
  simp only [measure, hempty, List.length_nil]
  omega

theorem advances_greeting (h : s.Greeting)
    (hstep : s.step mac clientToken serverToken nonce a = some t) :
    Advances mac clientToken serverToken nonce a s t := by
  obtain ⟨hserver, hwritten, hclient, hincoming, htoClient, hsilent⟩ := h
  cases a with
  | serverRecv n =>
      obtain ⟨w, hw, rfl⟩ := Option.map_eq_some_iff.1 hstep
      obtain ⟨⟨-, hempty, hne, -⟩, hw⟩ := Option.ite_none_right_eq_some.1 hw
      obtain rfl := Option.some.inj hw
      rw [hempty] at hincoming
      refine ⟨.greeting ?_, fun _ => measure_serverRecv hempty hne⟩
      exact ⟨hserver, hwritten, hclient, hincoming.recv n, htoClient, hsilent.keeps rfl rfl rfl rfl⟩
  | serverPoll =>
      obtain ⟨w, hw, rfl⟩ := Option.map_eq_some_iff.1 hstep
      obtain ⟨⟨hreading, hbuffer⟩, hw⟩ := Option.ite_none_right_eq_some.1 hw
      obtain rfl := Option.some.inj hw
      by_cases hflight : s.toServer = []
      · rw [hflight] at hincoming
        rw [poll_hello hserver hincoming]
        refine ⟨.challenging ⟨rfl, rfl, rfl, hflight, by simp [serverMoves, hclient, Client.new], ?_,
          hsilent.keeps rfl rfl rfl rfl⟩, fun _ => ?_⟩
        · simpa [serverMoves, hclient, Client.new, htoClient, nonceLine_eq] using
            Incoming.start (unended_nonceText nonce)
        · have hlen := (unended_nonceText nonce).short
          simp only [measure, serverMoves, hserver, hflight, htoClient, nonceLine_eq, maxLine] at hlen ⊢
          simp
          omega
      · obtain ⟨-, hincoming'⟩ := hincoming.readUntil_of_ne_nil hflight
        rw [poll_of_ne_nil hreading hincoming hflight]
        refine ⟨.greeting ⟨hserver, hwritten, hclient, hincoming', ?_,
          hsilent.keeps rfl rfl rfl rfl⟩, fun _ => ?_⟩
        · simp [serverMoves, htoClient]
        · have hpos := List.length_pos_of_ne_nil hbuffer
          simp [measure, serverMoves]
          omega
  | serverEof => simp [step, hclient, Client.new] at hstep
  | clientRecv n => simp [step, Client.recv, htoClient] at hstep
  | clientPoll => simp [step, Client.poll, hclient, Client.new] at hstep
  | clientEof => simp [step, hserver] at hstep
  | clientReset => simp [step, hserver] at hstep
  | clientSends bytes => simp [step, hclient, Client.new] at hstep
  | clientRelays n => simp [step, hclient, Client.new] at hstep
  | serverSends bytes => simp [step, hserver] at hstep
  | serverRelays n => simp [step, Wire.step, hserver] at hstep

theorem advances_challenging (h : s.Challenging nonce)
    (hstep : s.step mac clientToken serverToken nonce a = some t) :
    Advances mac clientToken serverToken nonce a s t := by
  obtain ⟨hserver, hline, hbuffer, htoServer, hclient, hincoming, hsilent⟩ := h
  cases a with
  | serverRecv n => simp [step, Wire.step, htoServer] at hstep
  | serverPoll => simp [step, Wire.step, hbuffer] at hstep
  | serverEof => simp [step, hclient] at hstep
  | clientRecv n =>
      obtain ⟨c, hc, rfl⟩ := Option.map_eq_some_iff.1 hstep
      obtain ⟨⟨-, hempty, hne, -⟩, hc⟩ := Option.ite_none_right_eq_some.1 hc
      obtain rfl := Option.some.inj hc
      rw [hempty] at hincoming
      refine ⟨.challenging ?_, fun _ => measure_clientRecv hempty hne⟩
      exact ⟨hserver, hline, hbuffer, htoServer, hclient, hincoming.recv n,
        hsilent.keeps rfl rfl rfl rfl⟩
  | clientPoll =>
      obtain ⟨moved, hmoved, rfl⟩ := Option.map_eq_some_iff.1 hstep
      obtain ⟨⟨hreading, hne⟩, -⟩ := Option.ite_none_right_eq_some.1 hmoved
      by_cases hflight : s.toClient = []
      · rw [hflight] at hincoming
        rw [clientPoll_of_nil hreading hne hincoming, hclient, onLine_nonceLine] at hmoved
        obtain rfl := Option.some.inj hmoved
        refine ⟨.answering ⟨hserver, rfl, ?_, hflight, hsilent.keeps rfl rfl rfl rfl⟩, fun _ => ?_⟩
        · simpa [clientMoves, hline, hbuffer, htoServer, authLine_eq] using
            Incoming.start (unended_authText _)
        · have hlen :=
            (unended_authText (digest mac clientToken (hex nonce.toList))).short
          simp only [measure, clientMoves, hserver, hclient, htoServer, authLine_eq, maxLine] at hlen ⊢
          simp
          omega
      · obtain ⟨-, hincoming'⟩ := hincoming.readUntil_of_ne_nil hflight
        rw [clientPoll_of_ne_nil hreading hne hincoming hflight] at hmoved
        obtain rfl := Option.some.inj hmoved
        refine ⟨.challenging ⟨hserver, hline, hbuffer, ?_, hclient, hincoming',
          hsilent.keeps rfl rfl rfl rfl⟩, fun _ => ?_⟩
        · simp [clientMoves, htoServer]
        · have hpos := List.length_pos_of_ne_nil hne
          simp [measure, clientMoves]
          omega
  | clientEof => simp [step, hserver] at hstep
  | clientReset => simp [step, hserver] at hstep
  | clientSends bytes => simp [step, hclient] at hstep
  | clientRelays n => simp [step, hclient] at hstep
  | serverSends bytes => simp [step, hserver] at hstep
  | serverRelays n => simp [step, Wire.step, hserver] at hstep

theorem unended_verdicts :
    Unended maxLine (utf8 "OK".toList) ∧ Unended maxLine (utf8 "ERR auth failed".toList) :=
  ⟨⟨by decide, by decide⟩, ⟨by decide, by decide⟩⟩

theorem advances_answering (h : s.Answering mac clientToken nonce)
    (hstep : s.step mac clientToken serverToken nonce a = some t) :
    Advances mac clientToken serverToken nonce a s t := by
  obtain ⟨hserver, hclient, hincoming, htoClient, hsilent⟩ := h
  cases a with
  | serverRecv n =>
      obtain ⟨w, hw, rfl⟩ := Option.map_eq_some_iff.1 hstep
      obtain ⟨⟨-, hempty, hne, -⟩, hw⟩ := Option.ite_none_right_eq_some.1 hw
      obtain rfl := Option.some.inj hw
      rw [hempty] at hincoming
      refine ⟨.answering ?_, fun _ => measure_serverRecv hempty hne⟩
      exact ⟨hserver, hclient, hincoming.recv n, htoClient, hsilent.keeps rfl rfl rfl rfl⟩
  | serverPoll =>
      obtain ⟨w, hw, rfl⟩ := Option.map_eq_some_iff.1 hstep
      obtain ⟨⟨hreading, hbuffer⟩, hw⟩ := Option.ite_none_right_eq_some.1 hw
      obtain rfl := Option.some.inj hw
      by_cases hflight : s.toServer = []
      · rw [hflight] at hincoming
        rw [poll_answer hserver hincoming]
        by_cases hsame :
            digest mac clientToken (hex nonce.toList) = digest mac serverToken (hex nonce.toList)
        · rw [if_pos hsame]
          refine ⟨.admitting hsame ⟨rfl, rfl, hflight, by simp [serverMoves, hclient], ?_,
            hsilent.keeps rfl rfl rfl rfl⟩, fun _ => ?_⟩
          · have hok : okLine = utf8 "OK".toList ++ [lineFeed] := by decide
            simpa [serverMoves, hclient, htoClient, hok] using Incoming.start unended_verdicts.1
          · have hlen : okLine.length = 3 := by decide
            simp [measure, serverMoves, hserver, hclient, hflight, htoClient, hlen]
            omega
        · rw [if_neg hsame]
          refine ⟨.rejecting hsame ⟨rfl, rfl, hflight, by simp [serverMoves, hclient], ?_,
            hsilent.keeps rfl rfl rfl rfl⟩, fun _ => ?_⟩
          · have herr : utf8 "ERR auth failed\n".toList =
                utf8 "ERR auth failed".toList ++ [lineFeed] := by decide
            simp only [serverMoves, hclient, htoClient, herr, List.drop_left, List.nil_append]
            exact Incoming.start unended_verdicts.2
          · have hlen : (utf8 "ERR auth failed\n".toList).length = 16 := by decide
            simp only [measure, serverMoves, hserver, hclient, hflight, htoClient, List.drop_left,
              List.nil_append, hlen, List.length_nil]
            omega
      · obtain ⟨-, hincoming'⟩ := hincoming.readUntil_of_ne_nil hflight
        rw [poll_of_ne_nil hreading hincoming hflight]
        refine ⟨.answering ⟨hserver, hclient, hincoming', ?_,
          hsilent.keeps rfl rfl rfl rfl⟩, fun _ => ?_⟩
        · simp [serverMoves, htoClient]
        · have hpos := List.length_pos_of_ne_nil hbuffer
          simp [measure, serverMoves]
          omega
  | serverEof => simp [step, hclient] at hstep
  | clientRecv n => simp [step, Client.recv, htoClient] at hstep
  | clientPoll => simp [step, Client.poll, hclient] at hstep
  | clientEof => simp [step, hserver] at hstep
  | clientReset => simp [step, hserver] at hstep
  | clientSends bytes => simp [step, hclient] at hstep
  | clientRelays n => simp [step, hclient] at hstep
  | serverSends bytes => simp [step, hserver] at hstep
  | serverRelays n => simp [step, Wire.step, hserver] at hstep

/-- While a verdict is under way, the client reads pieces of it, reads all of it, or is cut off by a
server that has refused it. -/
theorem judged_step {stage : Stage} {text : Str} (hstage : ¬ stage.Reading)
    (h : s.Judged stage text) (hstep : s.step mac clientToken serverToken nonce a = some t) :
    (t.Judged stage text ∧ (a.OfHandshake → t.measure < s.measure)) ∨
      (s.toClient = [] ∧
        t = s.clientMoves (Client.onLine mac clientToken .verdict (utf8 text ++ [lineFeed]))) ∨
      (stage = .refused ∧ t = { s with client := ⟨.failed, [], []⟩ }) := by
  obtain ⟨hserver, hbuffer, htoServer, hclient, hincoming, hsilent⟩ := h
  have hreading : ¬ s.server.stage.Reading := hserver ▸ hstage
  cases a with
  | serverRecv n => simp [step, Wire.step, htoServer] at hstep
  | serverPoll => simp [step, Wire.step, hbuffer] at hstep
  | serverEof => simp [step, hclient] at hstep
  | clientRecv n =>
      obtain ⟨c, hc, rfl⟩ := Option.map_eq_some_iff.1 hstep
      obtain ⟨⟨-, hempty, hne, -⟩, hc⟩ := Option.ite_none_right_eq_some.1 hc
      obtain rfl := Option.some.inj hc
      rw [hempty] at hincoming
      refine Or.inl ⟨?_, fun _ => measure_clientRecv hempty hne⟩
      exact ⟨hserver, hbuffer, htoServer, hclient, hincoming.recv n,
        hsilent.keeps rfl rfl rfl rfl⟩
  | clientPoll =>
      obtain ⟨moved, hmoved, rfl⟩ := Option.map_eq_some_iff.1 hstep
      obtain ⟨⟨hreading, hne⟩, -⟩ := Option.ite_none_right_eq_some.1 hmoved
      by_cases hflight : s.toClient = []
      · rw [hflight] at hincoming
        rw [clientPoll_of_nil hreading hne hincoming, hclient] at hmoved
        obtain rfl := Option.some.inj hmoved
        exact Or.inr (Or.inl ⟨hflight, rfl⟩)
      · obtain ⟨-, hincoming'⟩ := hincoming.readUntil_of_ne_nil hflight
        rw [clientPoll_of_ne_nil hreading hne hincoming hflight] at hmoved
        obtain rfl := Option.some.inj hmoved
        refine Or.inl ⟨⟨hserver, hbuffer, ?_, hclient, hincoming',
          hsilent.keeps rfl rfl rfl rfl⟩, fun _ => ?_⟩
        · simp [clientMoves, htoServer]
        · have hpos := List.length_pos_of_ne_nil hne
          simp [measure, clientMoves]
          omega
  | clientEof =>
      -- the verdict is not all read, so there is more of it
      obtain ⟨⟨-, hflight⟩, hstep⟩ := Option.ite_none_right_eq_some.1 hstep
      obtain ⟨moved, hmoved, rfl⟩ := Option.map_eq_some_iff.1 hstep
      obtain ⟨⟨-, hempty⟩, -⟩ := Option.ite_none_right_eq_some.1 hmoved
      rw [hempty] at hincoming
      exact absurd hflight hincoming.flight_ne_nil
  | clientReset =>
      obtain ⟨⟨hrefused, -⟩, hstep⟩ := Option.ite_none_right_eq_some.1 hstep
      obtain rfl := Option.some.inj hstep
      exact Or.inr (Or.inr ⟨hserver.symm.trans hrefused, rfl⟩)
  | clientSends bytes => simp [step, hclient] at hstep
  | clientRelays n => simp [step, hclient] at hstep
  | serverSends bytes => simp [step, hsilent.relayed] at hstep
  | serverRelays n =>
      obtain ⟨w, hw, rfl⟩ := Option.map_eq_some_iff.1 hstep
      obtain ⟨-, hw⟩ := Option.ite_none_right_eq_some.1 hw
      obtain rfl := Option.some.inj hw
      refine Or.inl ⟨⟨hserver, hbuffer, ?_, hclient, hincoming, hsilent.keeps rfl rfl rfl ?_⟩,
        fun hof => absurd hof id⟩
      · simp [htoServer]
      · simp [htoServer]

theorem not_reading_verdicts : ¬ Stage.admitted.Reading ∧ ¬ Stage.refused.Reading := ⟨id, id⟩

theorem advances_admitting (hsame : SameDigest mac clientToken serverToken nonce)
    (h : s.Judged .admitted "OK".toList)
    (hstep : s.step mac clientToken serverToken nonce a = some t) :
    Advances mac clientToken serverToken nonce a s t := by
  rcases judged_step not_reading_verdicts.1 h hstep with ⟨hjudged, hless⟩ | ⟨hflight, rfl⟩ | ⟨hrefused, -⟩
  · exact ⟨.admitting hsame hjudged, hless⟩
  · have hline : Client.onLine mac clientToken .verdict (utf8 "OK".toList ++ [lineFeed]) =
        (⟨.connected, [], []⟩, []) := by
      simp only [Client.onLine, fromUtf8Lossy_line]
      decide
    rw [hline]
    refine ⟨.relaying hsame ⟨h.server, rfl, ⟨?_, ?_, h.buffer, rfl⟩⟩, fun _ => ?_⟩
    · simp [clientMoves, h.silent.clientSent, h.silent.relayed, h.toServer]
    · simp [clientMoves, h.silent.serverSent, h.silent.clientGot, hflight]
    · simp [measure, clientMoves, h.client, h.server]
      omega
  · cases hrefused

theorem advances_rejecting (hdiffer : ¬ SameDigest mac clientToken serverToken nonce)
    (h : s.Judged .refused "ERR auth failed".toList)
    (hstep : s.step mac clientToken serverToken nonce a = some t) :
    Advances mac clientToken serverToken nonce a s t := by
  rcases judged_step not_reading_verdicts.2 h hstep with ⟨hjudged, hless⟩ | ⟨hflight, rfl⟩ | ⟨-, rfl⟩
  · exact ⟨.rejecting hdiffer hjudged, hless⟩
  · have hline : Client.onLine mac clientToken .verdict
        (utf8 "ERR auth failed".toList ++ [lineFeed]) = (⟨.failed, [], []⟩, []) := by
      simp only [Client.onLine, fromUtf8Lossy_line]
      decide
    rw [hline]
    refine ⟨.refused hdiffer ⟨h.server, rfl, h.silent.keeps rfl rfl rfl rfl⟩, fun _ => ?_⟩
    simp [measure, clientMoves, h.client, h.server]
    omega
  · refine ⟨.refused hdiffer ⟨h.server, rfl, h.silent.keeps rfl rfl rfl rfl⟩, fun _ => ?_⟩
    simp [measure, h.client, h.server]
    omega

/-- Behind the handshake bytes are handed on in order. -/
theorem advances_relaying (hsame : SameDigest mac clientToken serverToken nonce) (h : s.Relaying)
    (hstep : s.step mac clientToken serverToken nonce a = some t) :
    Advances mac clientToken serverToken nonce a s t := by
  obtain ⟨hserver, hclient, hto, hfrom, hserverBuffer, hclientBuffer⟩ := h
  cases a with
  | serverRecv n => simp [step, Wire.step, hserver, Stage.Reading] at hstep
  | serverPoll => simp [step, Wire.step, hserverBuffer] at hstep
  | serverEof => simp [step, hclient] at hstep
  | clientRecv n => simp [step, Client.recv, hclient, ClientStage.Reading] at hstep
  | clientPoll => simp [step, Client.poll, hclientBuffer] at hstep
  | clientEof => simp [step, hserver] at hstep
  | clientReset => simp [step, hserver] at hstep
  | clientSends bytes =>
      obtain ⟨-, hstep⟩ := Option.ite_none_right_eq_some.1 hstep
      obtain rfl := Option.some.inj hstep
      refine ⟨.relaying hsame ⟨hserver, hclient, ?_, hfrom, hserverBuffer, hclientBuffer⟩,
        fun hof => absurd hof id⟩
      rw [hto, List.append_assoc]
  | clientRelays n =>
      obtain ⟨-, hstep⟩ := Option.ite_none_right_eq_some.1 hstep
      obtain rfl := Option.some.inj hstep
      refine ⟨.relaying hsame ⟨hserver, hclient, hto, ?_, hserverBuffer, hclientBuffer⟩,
        fun hof => absurd hof id⟩
      rw [List.append_assoc, List.take_append_drop]
      exact hfrom
  | serverSends bytes =>
      obtain ⟨-, hstep⟩ := Option.ite_none_right_eq_some.1 hstep
      obtain rfl := Option.some.inj hstep
      refine ⟨.relaying hsame ⟨hserver, hclient, hto, ?_, hserverBuffer, hclientBuffer⟩,
        fun hof => absurd hof id⟩
      rw [hfrom, List.append_assoc]
  | serverRelays n =>
      obtain ⟨w, hw, rfl⟩ := Option.map_eq_some_iff.1 hstep
      obtain ⟨-, hw⟩ := Option.ite_none_right_eq_some.1 hw
      obtain rfl := Option.some.inj hw
      refine ⟨.relaying hsame ⟨hserver, hclient, ?_, hfrom, hserverBuffer, hclientBuffer⟩,
        fun hof => absurd hof id⟩
      rw [List.append_assoc, List.take_append_drop]
      exact hto

/-- After a refusal nothing happens any more. -/
theorem step_refused (h : s.Refused) : s.step mac clientToken serverToken nonce a = none := by
  obtain ⟨hserver, hclient, hsilent⟩ := h
  cases a <;>
    simp [step, Wire.step, Client.recv, Client.poll, Client.eof, hserver, hclient, Stage.Reading,
      ClientStage.Reading]

theorem advances_of_phases (h : s.Phases mac clientToken serverToken nonce)
    (hstep : s.step mac clientToken serverToken nonce a = some t) :
    Advances mac clientToken serverToken nonce a s t := by
  cases h with
  | greeting h => exact advances_greeting h hstep
  | challenging h => exact advances_challenging h hstep
  | answering h => exact advances_answering h hstep
  | admitting hsame h => exact advances_admitting hsame h hstep
  | rejecting hdiffer h => exact advances_rejecting hdiffer h hstep
  | relaying hsame h => exact advances_relaying hsame h hstep
  | refused _ h => simp [step_refused h] at hstep

theorem phases_start : start.Phases mac clientToken serverToken nonce := by
  refine .greeting ⟨rfl, rfl, rfl, ?_, rfl, ⟨rfl, rfl, rfl, rfl⟩⟩
  simpa [start, Wire.new, helloLine_eq] using Incoming.start unended_helloText

/-! ## The end of the handshake -/

/-- While a line is under way to the server, the server can go on. -/
theorem not_settled_of_server {text : Bytes} (hreading : s.server.stage.Reading)
    (h : Incoming maxLine text s.server.line s.server.buffer s.toServer) :
    ¬ s.Settled mac clientToken serverToken nonce := by
  intro hsettled
  by_cases hbuffer : s.server.buffer = []
  · rw [hbuffer] at h
    have hne : s.toServer.take 1 ≠ [] := by
      simpa using h.flight_ne_nil
    have hlen : (s.toServer.take 1).length ≤ bufferSize :=
      Nat.le_trans (List.length_take_le 1 _) (by decide)
    have hnone := hsettled (.serverRecv 1) trivial
    simp only [step, Wire.step] at hnone
    rw [if_pos ⟨hreading, hbuffer, hne, hlen⟩] at hnone
    simp at hnone
  · have hnone := hsettled .serverPoll trivial
    simp only [step, Wire.step] at hnone
    rw [if_pos ⟨hreading, hbuffer⟩] at hnone
    simp at hnone

theorem not_settled_of_client {text : Bytes} (hreading : s.client.stage.Reading)
    (h : Incoming maxLine text s.client.line s.client.buffer s.toClient) :
    ¬ s.Settled mac clientToken serverToken nonce := by
  intro hsettled
  by_cases hbuffer : s.client.buffer = []
  · rw [hbuffer] at h
    have hne : s.toClient.take 1 ≠ [] := by
      simpa using h.flight_ne_nil
    have hlen : (s.toClient.take 1).length ≤ bufferSize :=
      Nat.le_trans (List.length_take_le 1 _) (by decide)
    have hnone := hsettled (.clientRecv 1) trivial
    simp only [step, Client.recv] at hnone
    rw [if_pos ⟨hreading, hbuffer, hne, hlen⟩] at hnone
    simp at hnone
  · have hnone := hsettled .clientPoll trivial
    simp only [step, Option.map_eq_none_iff] at hnone
    by_cases hflight : s.toClient = []
    · rw [hflight] at h
      rw [clientPoll_of_nil hreading hbuffer h] at hnone
      cases hnone
    · rw [clientPoll_of_ne_nil hreading hbuffer h hflight] at hnone
      cases hnone

/-- A handshake ends with both sides relaying, or with both having given up. -/
theorem settled_cases (h : s.Phases mac clientToken serverToken nonce)
    (hsettled : s.Settled mac clientToken serverToken nonce) :
    (SameDigest mac clientToken serverToken nonce ∧ s.Relaying) ∨
      (¬ SameDigest mac clientToken serverToken nonce ∧ s.Refused) := by
  cases h with
  | greeting h =>
      exact absurd hsettled (not_settled_of_server (by rw [h.server]; trivial) h.incoming)
  | challenging h =>
      exact absurd hsettled (not_settled_of_client (by rw [h.client]; trivial) h.incoming)
  | answering h =>
      exact absurd hsettled (not_settled_of_server (by rw [h.server]; trivial) h.incoming)
  | admitting _ h | rejecting _ h =>
      exact absurd hsettled (not_settled_of_client (by rw [h.client]; trivial) h.incoming)
  | relaying hsame h => exact Or.inl ⟨hsame, h⟩
  | refused hdiffer h => exact Or.inr ⟨hdiffer, h⟩

/-- Steps of the handshake run out. -/
theorem length_le_measure (h : s.Phases mac clientToken serverToken nonce) {as : List PairLabel}
    (has : ∀ a ∈ as, a.OfHandshake)
    (hrun : (machine mac clientToken serverToken nonce).run s as = some t) :
    as.length ≤ s.measure := by
  induction as generalizing s with
  | nil => exact Nat.zero_le _
  | cons a as ih =>
      simp only [Machine.run] at hrun
      cases hstep : (machine mac clientToken serverToken nonce).step s a with
      | none => simp [hstep] at hrun
      | some u =>
          rw [hstep] at hrun
          have hadvances := advances_of_phases h hstep
          have hrest := ih hadvances.phases (fun b hb => has b (List.mem_cons_of_mem a hb)) hrun
          have hless := hadvances.measure (has a (List.mem_cons_self ..))
          rw [List.length_cons]
          omega

theorem exists_settled (h : s.Phases mac clientToken serverToken nonce) :
    ∃ as t, (machine mac clientToken serverToken nonce).run s as = some t ∧
      t.Phases mac clientToken serverToken nonce ∧ t.Settled mac clientToken serverToken nonce := by
  induction hn : s.measure using Nat.strongRecOn generalizing s with
  | ind n ih =>
      by_cases hsettled : s.Settled mac clientToken serverToken nonce
      · exact ⟨[], s, rfl, h, hsettled⟩
      · simp only [Settled, not_forall] at hsettled
        obtain ⟨a, ha, hne⟩ := hsettled
        obtain ⟨u, hu⟩ := Option.ne_none_iff_exists'.1 hne
        have hadvances := advances_of_phases h hu
        obtain ⟨as, t, hrun, hphases, ht⟩ :=
          ih u.measure (hn ▸ hadvances.measure ha) hadvances.phases rfl
        refine ⟨a :: as, t, ?_, hphases, ht⟩
        rw [Machine.run, show (machine mac clientToken serverToken nonce).step s a = some u from hu]
        exact hrun

end Phases

/-- Where both ends are once the handshake is over, and what the relays have seen so far. -/
structure Agrees (mac : Bytes → Bytes → Digest) (clientToken serverToken : Str) (nonce : Digest)
    (s : Pair) : Prop where
  /-- However the rest of the handshake goes, it ends. -/
  ends : ∃ n, ∀ as t, (∀ a ∈ as, a.OfHandshake) →
    (machine mac clientToken serverToken nonce).run s as = some t → as.length ≤ n
  /-- Then the client has succeeded or failed, as the server has admitted or refused it. -/
  outcome : s.Settled mac clientToken serverToken nonce →
    (s.client.stage = .connected ∨ s.client.stage = .failed) ∧
      (s.server.stage = .admitted ∨ s.server.stage = .refused) ∧
      (s.client.stage = .connected ↔ s.server.stage = .admitted) ∧
      (s.server.stage = .admitted ↔ SameDigest mac clientToken serverToken nonce)
  /-- A relay sees what the other has sent, from its first byte on. -/
  relays : if s.client.stage = .connected then s.Exact else s.Silent

theorem agrees_of_phases {mac : Bytes → Bytes → Digest} {clientToken serverToken : Str}
    {nonce : Digest} {s : Pair} (h : s.Phases mac clientToken serverToken nonce) :
    s.Agrees mac clientToken serverToken nonce where
  ends := ⟨s.measure, fun _ _ has hrun => length_le_measure h has hrun⟩
  outcome := by
    intro hsettled
    rcases settled_cases h hsettled with ⟨hsame, hs⟩ | ⟨hdiffer, hs⟩
    · simp [hs.client, hs.server, hsame]
    · simp [hs.client, hs.server, hdiffer]
  relays := by
    cases h with
    | greeting h => simpa [h.client, Client.new] using h.silent
    | challenging h => simpa [h.client] using h.silent
    | answering h => simpa [h.client] using h.silent
    | admitting _ h | rejecting _ h => simpa [h.client] using h.silent
    | relaying _ h => simpa [h.client] using h.exact
    | refused _ h => simpa [h.client] using h.silent

/-- **Both ends agree**, whatever the tokens and the nonce are and however TCP cuts the bytes. -/
theorem agrees_along (mac : Bytes → Bytes → Digest) (clientToken serverToken : Str) (nonce : Digest)
    (as : List PairLabel) :
    (machine mac clientToken serverToken nonce).Along
      (Agrees mac clientToken serverToken nonce) start as := by
  apply Machine.along_of_invariant (I := Phases mac clientToken serverToken nonce)
  · intro s a t hs hstep
    exact (advances_of_phases hs hstep).phases
  · intro s hs
    exact agrees_of_phases hs
  · exact phases_start

/-- **Equal tokens suffice.** -/
theorem sameDigest_of_trim_eq {mac : Bytes → Bytes → Digest} {clientToken serverToken : Str}
    {nonce : Digest} (h : trim clientToken = trim serverToken) :
    SameDigest mac clientToken serverToken nonce := by
  rw [SameDigest, digest, digest, h]

end Pair

/-! ## Keys -/

/-- The block that HMAC makes of a key: a key that is too long is hashed, and zeros fill it up. -/
def keyBlock (sha : Bytes → Digest) (key : Bytes) : Bytes :=
  let key := if 64 < key.length then (sha key).toList else key
  key ++ List.replicate (64 - key.length) 0

/-- HMAC, over a hash function with blocks of 64 bytes. -/
def hmac (sha : Bytes → Digest) (key message : Bytes) : Digest :=
  sha ((keyBlock sha key).map (· ^^^ 0x5c) ++
    (sha ((keyBlock sha key).map (· ^^^ 0x36) ++ message)).toList)

/-- A zero byte behind a short key makes no difference. -/
theorem keyBlock_append_zero {sha : Bytes → Digest} {key : Bytes} (h : key.length < 64) :
    keyBlock sha (key ++ [0]) = keyBlock sha key := by
  have hlen : (key ++ [0]).length = key.length + 1 := by simp
  have hfill : 64 - key.length = 64 - (key.length + 1) + 1 := by omega
  rw [keyBlock, keyBlock]
  simp only [hlen]
  rw [if_neg (by omega), if_neg (by omega), hlen, hfill, List.replicate_succ, List.append_assoc]
  rfl

namespace Pair

/-- HMAC sees no more of a token than its block. -/
theorem sameDigest_of_keyBlock_eq {sha : Bytes → Digest} {clientToken serverToken : Str}
    {nonce : Digest} (h : keyBlock sha (utf8 (trim clientToken)) =
      keyBlock sha (utf8 (trim serverToken))) :
    SameDigest (hmac sha) clientToken serverToken nonce := by
  simp only [SameDigest, digest, hmac, h]

/-- Whatever the hash function is, two tokens that differ in a NUL at the end are one key. -/
theorem not_agrees_of_nul :
    ¬ ∃ sha : Bytes → Digest, ∀ (clientToken serverToken : Str) (nonce : Digest)
      (as : List PairLabel) (s : Pair),
      (machine (hmac sha) clientToken serverToken nonce).run start as = some s →
        s.Settled (hmac sha) clientToken serverToken nonce →
          (s.client.stage = .connected ↔ trim clientToken = trim serverToken) := by
  rintro ⟨sha, hclaim⟩
  let serverToken := "dvs_abcdefghijkm".toList
  let clientToken := "dvs_abcdefghijkm\x00".toList
  let nonce : Digest := Vector.replicate 32 0
  have hstart : start.Phases (hmac sha) clientToken serverToken nonce := phases_start
  obtain ⟨as, s, hrun, hphases, hsettled⟩ := exists_settled hstart
  have hkey : utf8 (trim clientToken) = utf8 (trim serverToken) ++ [0] := by decide
  have hsame : SameDigest (hmac sha) clientToken serverToken nonce := by
    apply sameDigest_of_keyBlock_eq
    rw [hkey]
    exact keyBlock_append_zero (by decide)
  rcases settled_cases hphases hsettled with ⟨-, hs⟩ | ⟨hdiffer, -⟩
  · exact absurd ((hclaim _ _ _ as s hrun hsettled).1 hs.client) (by decide)
  · exact absurd hsame hdiffer

end Pair

end DialF.Share
