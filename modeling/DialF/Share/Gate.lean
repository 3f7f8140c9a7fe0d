import DialF.Share.HostServer

/-!
# The gate of a device share

`gate` applies the sharing policy to one connection: it reads one message from the peer, writes the
request or its rewrite to the upstream adb server, and then relays a filtered device list or splices
the two streams.

A stream is the whole byte string that one side sends. What `gate` writes to either side is a
function of the two streams, since the splice copies bytes without looking at them, so the moments
at which they arrive make no difference to what is written. The writes to the peer are kept apart
by the place in the code that makes them (`Write`).

`requests_gate` says which requests the upstream reads off what `gate` writes to it, and
`firstWord_of_mem_lines` that a filtered list names shared devices only.
-/

set_option autoImplicit false

namespace DialF.Share

open DialF.Lib

/-! ## Messages -/

/-- Four length digits, of either case; a leading `+` is read as well. -/
def lengthDigits (digits : Bytes) : Option Nat :=
  match digits with
  | 43 :: rest => if rest.isEmpty then none else Frame.hexDigits 0 rest
  | _ => Frame.hexDigits 0 digits

/-- The length of a message, where it is within the cap. -/
def readLength (digits : Bytes) : Option Nat :=
  (lengthDigits digits).filter fun len => !(64 * 1024 < len)

/-- Read one message: its payload and the rest of the stream. -/
def readMessage (bytes : Bytes) : Option (Str × Bytes) :=
  (Frame.cut readLength bytes).map fun p => (fromUtf8Lossy p.1, p.2)

/-- A refusal in the form the peer's adb client expects. -/
def writeFail (reason : Str) : Bytes := utf8 "FAIL".toList ++ writeMessage reason

theorem readLength_hex04 : Frame.ReadsHex04 readLength := by
  intro n hn
  have hhead : ∀ d, Frame.hexByte (d % 16) ≠ 43 := by
    intro d h
    have hlt : d % 16 < 16 := Nat.mod_lt d (by decide)
    generalize d % 16 = e at h hlt
    interval_cases e <;> revert h <;> decide
  have hplain : lengthDigits (Frame.hex04 n) = Frame.hexDigits 0 (Frame.hex04 n) := by
    rw [Frame.hex04_of_lt hn, lengthDigits]
    intro rest h
    exact hhead _ (List.cons.inj h).1
  have hcap : ¬ 64 * 1024 < n := Nat.not_lt_of_le (Nat.le_of_lt hn)
  rw [readLength, hplain, Frame.hexDigits_hex04 hn]
  simp [hcap]

/-- A message that fits is read back, with what follows it. -/
theorem readMessage_writeMessage {payload : Str} (hfit : Fits payload) (rest : Bytes) :
    readMessage (writeMessage payload ++ rest) = some (payload, rest) := by
  rw [readMessage, writeMessage, Frame.cut_encode_append readLength_hex04 hfit]
  simp

/-! ## Filtering a device list -/

/-- The first word of a line, empty where there is none. -/
def firstWord (line : Str) : Str :=
  (line.dropWhile isWhitespace).takeWhile fun c => !isWhitespace c

/-- The lines of a text, `line` read so far of the one at its head. -/
def linesGo (line : Str) : Str → List Str
  | [] => if line.isEmpty then [] else [line]
  | c :: s => if c = '\n' then stripCr line :: linesGo [] s else linesGo (line ++ [c]) s

/-- `str::lines`: a carriage return in front of a line feed goes with it. -/
def lines (s : Str) : List Str := linesGo [] s

/-- Keep only shared devices in a device list. -/
def filterDeviceList (payload : Str) : Targets → Str
  | .all => payload
  | .only list =>
      ((lines payload).filter fun line =>
        !(firstWord line).isEmpty && (Targets.only list).allows (firstWord line)).flatMap
          (· ++ ['\n'])

theorem linesGo_append_newline {line s : Str} (hs : '\n' ∉ s) (rest : Str) :
    linesGo line (s ++ '\n' :: rest) = stripCr (line ++ s) :: lines rest := by
  induction s generalizing line with
  | nil => simp [linesGo, lines]
  | cons c s ih =>
      have hc : c ≠ '\n' := by
        rintro rfl
        exact hs (by simp)
      have hs' : '\n' ∉ s := fun h => hs (List.mem_cons_of_mem c h)
      rw [List.cons_append, linesGo, if_neg hc, ih hs', List.append_assoc, List.singleton_append]

theorem lines_flatMap_newline {ls : List Str} (hls : ∀ line ∈ ls, '\n' ∉ line) :
    lines (ls.flatMap (· ++ ['\n'])) = ls.map stripCr := by
  induction ls with
  | nil => rfl
  | cons line ls ih =>
      have hrest := ih fun l hl => hls l (List.mem_cons_of_mem line hl)
      rw [List.flatMap_cons, List.append_assoc, List.singleton_append, lines,
        linesGo_append_newline (hls line (by simp)), List.nil_append, hrest]
      rfl

theorem newline_not_mem_stripCr {line : Str} (h : '\n' ∉ line) : '\n' ∉ stripCr line := by
  unfold stripCr
  split
  · exact fun hmem => h (List.dropLast_subset line hmem)
  · exact h

theorem newline_not_mem_of_mem_linesGo {line s l : Str} (hline : '\n' ∉ line)
    (hl : l ∈ linesGo line s) : '\n' ∉ l := by
  induction s generalizing line with
  | nil =>
      simp only [linesGo] at hl
      split at hl
      · simp at hl
      · rw [List.mem_singleton.1 hl]
        exact hline
  | cons c s ih =>
      simp only [linesGo] at hl
      split at hl
      · rcases List.mem_cons.1 hl with rfl | hl
        · exact newline_not_mem_stripCr hline
        · exact ih (by simp) hl
      · rename_i hc
        apply ih _ hl
        simp only [List.mem_append, List.mem_singleton, not_or]
        exact ⟨hline, fun h => hc h.symm⟩

/-- A blank behind a line is not part of its first word. -/
theorem firstWord_append_blank {c : Char} (hc : isWhitespace c = true) (line : Str) :
    firstWord (line ++ [c]) = firstWord line := by
  have htake : ∀ s : Str, (s ++ [c]).takeWhile (fun c => !isWhitespace c) =
      s.takeWhile fun c => !isWhitespace c := by
    intro s
    induction s with
    | nil => simp [hc]
    | cons d s ih => simp only [List.cons_append, List.takeWhile_cons, ih]
  induction line with
  | nil => simp [firstWord, hc]
  | cons d line ih =>
      by_cases hd : isWhitespace d = true
      · rw [firstWord, firstWord] at ih ⊢
        rw [List.cons_append, List.dropWhile_cons_of_pos hd, List.dropWhile_cons_of_pos hd, ih]
      · rw [firstWord, firstWord, List.cons_append, List.dropWhile_cons_of_neg hd,
          List.dropWhile_cons_of_neg hd]
        exact htake (d :: line)

theorem firstWord_stripCr (line : Str) : firstWord (stripCr line) = firstWord line := by
  unfold stripCr
  split
  · rename_i hlast
    obtain ⟨h, rfl⟩ := List.getLast?_eq_some_iff.1 hlast
    rw [List.dropLast_concat, firstWord_append_blank (by decide)]
  · rfl

/-- **A filtered list names shared devices only.** -/
theorem firstWord_of_mem_lines {payload line : Str} {list : List Str}
    (h : line ∈ lines (filterDeviceList payload (.only list))) : firstWord line ∈ list := by
  have hls : ∀ l ∈ (lines payload).filter (fun line =>
      !(firstWord line).isEmpty && (Targets.only list).allows (firstWord line)), '\n' ∉ l := by
    intro l hl
    exact newline_not_mem_of_mem_linesGo (by simp) (List.mem_filter.1 hl).1
  rw [filterDeviceList, lines_flatMap_newline hls, List.mem_map] at h
  obtain ⟨l, hl, rfl⟩ := h
  have hallowed := (List.mem_filter.1 hl).2
  rw [Bool.and_eq_true] at hallowed
  rw [firstWord_stripCr]
  exact Targets.allows_only.1 hallowed.2

/-! ## The gate -/

/-- A write to the peer, by the place in the code that makes it. -/
inductive Write where
  | fail (reason : Str)
  | status (bytes : Bytes)
  | deviceList (payload : Str)
  | copied (bytes : Bytes)
  deriving DecidableEq

/-- The bytes that a write puts on the wire. -/
def Write.bytes : Write → Bytes
  | .fail reason => writeFail reason
  | .status bytes => bytes
  | .deviceList payload => writeMessage payload
  | .copied bytes => bytes

/-- What is written to the upstream and to the peer. -/
structure Relay where
  up : Bytes
  down : List Write
  deriving DecidableEq

/-- The status of a request that is granted. -/
def okay : Bytes := utf8 "OKAY".toList

/-- Relay a device-list response: `request` has been written to the upstream, which answers `reply`,
and `rest` is what the peer sends behind the request. A closed upstream ends the lists. -/
def relayFilteredList (request : Str) (rest reply : Bytes) (targets : Targets) (streaming : Bool) :
    Relay :=
  if reply.length < 4 then ⟨writeMessage request, []⟩
  else if reply.take 4 ≠ okay then
    -- the server's own failure goes through verbatim, and the splice with it
    ⟨writeMessage request ++ rest, [.status (reply.take 4), .copied (reply.drop 4)]⟩
  else
    ⟨writeMessage request,
      .status (reply.take 4) ::
        (Frame.payloads readLength (fun _ => !streaming) (reply.drop 4)).map fun p =>
          .deviceList (filterDeviceList (fromUtf8Lossy p) targets)⟩

/-- Apply the policy to one connection: the peer sends `client`, the upstream answers `reply`. -/
def gate (targets : Targets) (client reply : Bytes) : Relay :=
  match readMessage client with
  | none => ⟨[], []⟩
  | some (request, rest) =>
      match decide request targets with
      | .reject reason => ⟨[], [.fail reason]⟩
      | .rewrite replacement => ⟨writeMessage replacement ++ rest, [.copied reply]⟩
      | .forward => ⟨writeMessage request ++ rest, [.copied reply]⟩
      | .filterList streaming => relayFilteredList request rest reply targets streaming

/-- What the gate writes to the upstream for a request, before it copies anything. -/
def forwarded (targets : Targets) (request : Str) : Option Str :=
  match decide request targets with
  | .reject _ => none
  | .rewrite replacement => some replacement
  | .forward => some request
  | .filterList _ => some request

/-- The gate goes on to splice the connection. -/
def splices (targets : Targets) (request : Str) (reply : Bytes) : Bool :=
  match decide request targets with
  | .reject _ => false
  | .rewrite _ => true
  | .forward => true
  | .filterList _ => !(reply.length < 4) && reply.take 4 != okay

/-- The bytes of `gate` to the upstream: the first request as the policy leaves it, and, where it
splices, all that the peer sends behind the request. -/
theorem gate_up (targets : Targets) {client rest : Bytes} {request : Str} (reply : Bytes)
    (hread : readMessage client = some (request, rest)) :
    (gate targets client reply).up =
      match forwarded targets request with
      | none => []
      | some f => writeMessage f ++ if splices targets request reply then rest else [] := by
  rw [gate, hread]
  cases hdec : decide request targets with
  | reject reason => simp [forwarded, hdec]
  | rewrite replacement => simp [forwarded, splices, hdec]
  | forward => simp [forwarded, splices, hdec]
  | filterList streaming =>
      by_cases hlen : reply.length < 4
      · simp [relayFilteredList, forwarded, splices, hdec, hlen]
      by_cases hokay : reply.take 4 = okay
      · simp [relayFilteredList, forwarded, splices, hdec, hlen, hokay]
      · simp [relayFilteredList, forwarded, splices, hdec, hlen, hokay]

theorem gate_up_of_unread (targets : Targets) {client : Bytes} (reply : Bytes)
    (hread : readMessage client = none) : (gate targets client reply).up = [] := by
  rw [gate, hread]

/-- Bytes are copied to the peer exactly where the connection is spliced. -/
theorem copied_mem_gate_iff (targets : Targets) (client reply : Bytes) :
    (∃ b, .copied b ∈ (gate targets client reply).down) ↔
      ∃ request rest, readMessage client = some (request, rest) ∧
        splices targets request reply = true := by
  cases hread : readMessage client with
  | none => simp [gate, hread]
  | some p =>
      obtain ⟨request, rest⟩ := p
      simp only [gate, hread, Option.some.injEq, Prod.mk.injEq]
      cases hdec : decide request targets with
      | reject reason => simp [splices, hdec]
      | rewrite replacement => simp [splices, hdec]
      | forward => simp [splices, hdec]
      | filterList streaming =>
          by_cases hlen : reply.length < 4
          · simp [relayFilteredList, splices, hdec, hlen]
          by_cases hokay : reply.take 4 = okay
          · simp [relayFilteredList, splices, hdec, hlen, hokay]
          · simp [relayFilteredList, splices, hdec, hlen, hokay]

/-- The requests behind the first one, `f` as it was forwarded, that the upstream reads. -/
def requestsBehind (srv : HostServer) (targets : Targets) (request f : Str) (rest reply : Bytes) :
    List Str :=
  if srv.ends f = true then []
  else if splices targets request reply = true then srv.requests rest else []

theorem mem_requestsBehind {srv : HostServer} {targets : Targets} {request f r : Str}
    {rest reply : Bytes} :
    r ∈ requestsBehind srv targets request f rest reply ↔
      srv.ends f = false ∧ splices targets request reply = true ∧ r ∈ srv.requests rest := by
  rw [requestsBehind]
  cases srv.ends f <;> cases splices targets request reply <;> simp

/-- **What the upstream reads on a gated connection**: the first request, as the policy leaves it,
and where the connection is spliced and the first one does not end the reading, whatever the peer
sends behind it. -/
theorem requests_gate (srv : HostServer) {targets : Targets} {client rest : Bytes}
    {request f : Str} (reply : Bytes) (hread : readMessage client = some (request, rest))
    (hf : forwarded targets request = some f) (hfit : Fits f) :
    srv.requests (gate targets client reply).up =
      f :: requestsBehind srv targets request f rest reply := by
  rw [gate_up targets reply hread, hf, requestsBehind]
  simp only [requests_writeMessage_append srv hfit]
  cases splices targets request reply <;> rfl

/-- Where the upstream reads a host request at all, the peer's first request has been read, passed
by the policy, and fits its length digits. -/
theorem read_of_host_mem_requests {srv : HostServer} {targets : Targets} {client reply : Bytes}
    {r : Str} (hhost : isHostRequest r = true)
    (hmem : r ∈ srv.requests (gate targets client reply).up) :
    ∃ request rest f, readMessage client = some (request, rest) ∧
      forwarded targets request = some f ∧ Fits f := by
  cases hread : readMessage client with
  | none =>
      rw [gate_up_of_unread targets reply hread] at hmem
      simp at hmem
  | some p =>
      obtain ⟨request, rest⟩ := p
      rw [gate_up targets reply hread] at hmem
      cases hf : forwarded targets request with
      | none => simp [hf] at hmem
      | some f =>
          refine ⟨request, rest, f, rfl, hf, ?_⟩
          by_contra hfit
          rw [hf] at hmem
          rw [isHostRequest_of_not_fits srv hfit hmem] at hhost
          exact absurd hhost (by simp)

end DialF.Share
