import DialF.Share.Authenticate

/-!
# The client of a share

`connect` sends the preamble, answers the challenge, and succeeds on `OK`. It makes a buffered
reader for each line and drops it behind the line, and what the reader still holds with it. A line
may also end at the limit, or where the server closes the connection.
-/

set_option autoImplicit false

namespace DialF.Share

open DialF.Lib

/-- How far the client has come. -/
inductive ClientStage where
  | challenge
  | verdict
  | connected
  | failed
  deriving DecidableEq

/-- A line is being read. -/
def ClientStage.Reading : ClientStage → Prop
  | .challenge | .verdict => True
  | .connected | .failed => False

instance : (stage : ClientStage) → Decidable stage.Reading
  | .challenge | .verdict => .isTrue trivial
  | .connected | .failed => .isFalse id

/-- The client: the line that it is reading, and what it has read behind it. -/
structure Client where
  stage : ClientStage
  line : Bytes
  buffer : Bytes
  deriving DecidableEq

/-- The line that the client begins with. -/
def helloLine : Bytes := utf8 (magic ++ " ".toList ++ profile ++ ['\n'])

/-- The line with the answer. -/
def authLine (auth : Digest) : Bytes := utf8 ("AUTH ".toList ++ hex auth.toList ++ ['\n'])

namespace Client

/-- The preamble has been sent. -/
def new : Client := ⟨.challenge, [], []⟩

section Mac

variable (mac : Bytes → Bytes → Digest) (token : Str)

/-- A line has ended: the client moves on, and sends what it has to. -/
def onLine (stage : ClientStage) (line : Bytes) : Client × Bytes :=
  let text := trim (fromUtf8Lossy line)
  match stage with
  | .challenge =>
      match stripPrefix "NONCE ".toList text with
      | some nonce =>
          if nonce = [] then (⟨.failed, [], []⟩, [])
          else (⟨.verdict, [], []⟩, authLine (digest mac token nonce))
      | none => (⟨.failed, [], []⟩, [])
  | .verdict => if text = "OK".toList then (⟨.connected, [], []⟩, []) else (⟨.failed, [], []⟩, [])
  | stage => (⟨stage, [], []⟩, [])

/-- A chunk is read off the socket. -/
def recv (c : Client) (chunk : Bytes) : Option Client :=
  if c.stage.Reading ∧ c.buffer = [] ∧ chunk ≠ [] ∧ chunk.length ≤ bufferSize then
    some { c with buffer := chunk }
  else none

/-- The reader moves what it holds to the line. -/
def poll (c : Client) : Option (Client × Bytes) :=
  if c.stage.Reading ∧ c.buffer ≠ [] then
    match readUntil maxLine c.line c.buffer with
    | (line, _, true) => some (onLine mac token c.stage line)
    | (line, buffer, false) => some ({ c with line := line, buffer := buffer }, [])
  else none

/-- The server has closed the connection: what there is of a line is looked at. -/
def eof (c : Client) : Option (Client × Bytes) :=
  if c.stage.Reading ∧ c.buffer = [] then
    if c.line = [] then some (⟨.failed, [], []⟩, []) else some (onLine mac token c.stage c.line)
  else none

end Mac

end Client

/-! ## The lines of the handshake, as either side reads them -/

section Lines

variable {mac : Bytes → Bytes → Digest} {token : Str} {nonce : Digest}

theorem utf8_append_newline (s : Str) : utf8 (s ++ ['\n']) = utf8 s ++ [lineFeed] := by
  rw [utf8_append]
  rfl

theorem fromUtf8Lossy_line (s : Str) : fromUtf8Lossy (utf8 s ++ [lineFeed]) = s ++ ['\n'] := by
  rw [← utf8_append_newline, fromUtf8Lossy_utf8]

theorem readLine_line (s : Str) :
    Wire.readLine (utf8 s ++ [lineFeed]) = some (trim (s ++ ['\n'])) := by
  simp [Wire.readLine, fromUtf8Lossy_line]

/-- A keyword and hexadecimal digits, which are not to be trimmed. -/
theorem trim_keyword {c : Char} {keyword : Str} {bytes : Bytes} (hc : isWhitespace c = false)
    (hbytes : bytes ≠ []) :
    trim (c :: keyword ++ hex bytes ++ ['\n']) = c :: keyword ++ hex bytes := by
  obtain ⟨init, b, rfl⟩ := List.eq_nil_or_concat bytes |>.resolve_left hbytes
  have hlast : hex (init.concat b) =
      hex init ++ [hexDigit (b.toNat / 16)] ++ [hexDigit (b.toNat % 16)] := by
    simp [hex]
  refine trim_append_of_isWhitespace hc (isWhitespace_hexDigit (nibbles_lt b).2) (by decide) ?_
  exact ⟨c :: keyword ++ (hex init ++ [hexDigit (b.toNat / 16)]), by rw [hlast]; simp⟩

/-- The line is short, and has no line feed in it. -/
theorem unended_keyword {keyword : Str} {bytes : Bytes} (hkeyword : lineFeed ∉ utf8 keyword)
    (hlen : (utf8 keyword).length + 2 * bytes.length < maxLine) :
    Unended maxLine (utf8 (keyword ++ hex bytes)) where
  noFeed := by
    rw [utf8_append, List.mem_append, not_or]
    exact ⟨hkeyword, lineFeed_notMem_utf8_hex bytes⟩
  short := by
    rw [utf8_append, List.length_append, length_utf8_hex]
    exact hlen

/-- The texts of the lines, without the line feed. -/
def helloText : Str := magic ++ " ".toList ++ profile

/-- The challenge, without its line feed. -/
def nonceText (nonce : Digest) : Str := "NONCE ".toList ++ hex nonce.toList

/-- The answer, without its line feed. -/
def authText (auth : Digest) : Str := "AUTH ".toList ++ hex auth.toList

theorem helloLine_eq : helloLine = utf8 helloText ++ [lineFeed] := utf8_append_newline _

theorem nonceLine_eq : nonceLine nonce = utf8 (nonceText nonce) ++ [lineFeed] :=
  utf8_append_newline _

theorem authLine_eq : authLine nonce = utf8 (authText nonce) ++ [lineFeed] := utf8_append_newline _

theorem unended_helloText : Unended maxLine (utf8 helloText) := ⟨by decide, by decide⟩

theorem unended_nonceText (nonce : Digest) : Unended maxLine (utf8 (nonceText nonce)) :=
  unended_keyword (by decide) (by rw [Vector.length_toList]; decide)

theorem unended_authText (nonce : Digest) : Unended maxLine (utf8 (authText nonce)) :=
  unended_keyword (by decide) (by rw [Vector.length_toList]; decide)

/-- The preamble of a client is not refused. -/
theorem onHello_helloLine (w : Wire) :
    w.onHello (utf8 helloText ++ [lineFeed]) nonce =
      { w with stage := .answer nonce, written := w.written ++ nonceLine nonce } := by
  have hcheck : Wire.checkHello (trim (helloText ++ ['\n'])) = none := by decide
  simp [Wire.onHello, readLine_line, hcheck]

/-- The answer of a client is accepted where the digests are the same. -/
theorem onAnswer_authLine (w : Wire) (auth : Digest) (hempty : w.buffer = []) :
    w.onAnswer mac token (utf8 (authText auth) ++ [lineFeed]) nonce =
      if auth = digest mac token (hex nonce.toList) then
        { w with stage := .admitted, written := w.written ++ okLine }
      else w.refuse (utf8 "ERR auth failed\n".toList) := by
  have htrim : trim (authText auth ++ ['\n']) = authText auth :=
    trim_keyword (by decide) (toList_ne_nil auth)
  have hauth : stripPrefix "AUTH ".toList (authText auth) = some (hex auth.toList) :=
    stripPrefix_append _ _
  simp only [Wire.onAnswer, readLine_line, htrim, hauth, Option.getD_some, verify_hex, hempty]
  by_cases heq : auth = digest mac token (hex nonce.toList)
  · simp [heq]
  · simp [heq]

/-- A client takes the nonce off the challenge. -/
theorem onLine_nonceLine :
    Client.onLine mac token .challenge (utf8 (nonceText nonce) ++ [lineFeed]) =
      (⟨.verdict, [], []⟩, authLine (digest mac token (hex nonce.toList))) := by
  have htrim : trim (nonceText nonce ++ ['\n']) = nonceText nonce :=
    trim_keyword (by decide) (toList_ne_nil nonce)
  have hnonce : stripPrefix "NONCE ".toList (nonceText nonce) = some (hex nonce.toList) :=
    stripPrefix_append _ _
  have hne : hex nonce.toList ≠ [] := by
    intro hnil
    have hlen := length_utf8_hex nonce.toList
    rw [hnil, Vector.length_toList] at hlen
    cases hlen
  simp only [Client.onLine, fromUtf8Lossy_line, htrim, hnonce, if_neg hne]

end Lines

end DialF.Share
