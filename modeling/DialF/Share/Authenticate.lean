import DialF.Share.Handshake

/-!
# A connection that authenticates

`authenticate` reads two lines from a peer through one buffered reader: the preamble, which is
answered by a fresh nonce, and the proof of the token. The peer's bytes come in chunks of any size.
`received` remembers all that has been read off the socket, `written` what the handshake has
written, and `relayed` what was read once the connection was admitted.

`sound_step`: a connection that is admitted has received a correct preamble, a correct answer to the
nonce that was written on it, and behind these only what it relays.
-/

set_option autoImplicit false

namespace DialF.Share

open DialF.Lib

/-- How far `authenticate` has come. -/
inductive Stage where
  | hello
  | answer (nonce : Digest)
  | admitted
  | refused
  deriving DecidableEq

/-- A line is being read. -/
def Stage.Reading : Stage → Prop
  | .hello | .answer _ => True
  | .admitted | .refused => False

instance : (stage : Stage) → Decidable stage.Reading
  | .hello | .answer _ => .isTrue trivial
  | .admitted | .refused => .isFalse id

/-- The server's end of a connection: `line` and `buffer` are the line being read and the bytes that
the reader holds behind it. -/
structure Wire where
  stage : Stage
  line : Bytes
  buffer : Bytes
  received : Bytes
  written : Bytes
  relayed : Bytes
  deriving DecidableEq

/-- What can happen to a connection during its handshake and after it. -/
inductive WireLabel where
  | recv (chunk : Bytes)
  | poll (nonce : Digest)
  | eof
  | fail
  | relay (chunk : Bytes)
  deriving DecidableEq

/-- What the reader asks of the socket at once. -/
def bufferSize : Nat := 8192

/-- The line with the nonce. -/
def nonceLine (nonce : Digest) : Bytes := utf8 ("NONCE ".toList ++ hex nonce.toList ++ ['\n'])

/-- The line that admits. -/
def okLine : Bytes := utf8 "OK\n".toList

namespace Wire

/-- A connection that has just been accepted. -/
def new : Wire := ⟨.hello, [], [], [], [], []⟩

/-- The text of a line, which has to end in a line feed. -/
def readLine (line : Bytes) : Option Str :=
  if line.getLast? = some lineFeed then some (trim (fromUtf8Lossy line)) else none

/-- The refusal that a preamble gets, if any. -/
def checkHello (hello : Str) : Option Bytes :=
  let (found, rest) := (nextWord hello).getD ([], [])
  if found ≠ magic then some (utf8 "ERR bad magic\n".toList)
  else
    let (found, _) := (nextWord rest).getD ([], [])
    if found ≠ profile then
      some (utf8 ("ERR profile mismatch (serving ".toList ++ profile ++ ")\n".toList))
    else none

/-- The connection is refused, with a text. -/
def refuse (w : Wire) (text : Bytes) : Wire :=
  { w with stage := .refused, written := w.written ++ text }

/-- The hello has been read: refuse it, or send the nonce. -/
def onHello (w : Wire) (line : Bytes) (nonce : Digest) : Wire :=
  match readLine line with
  | none => w.refuse []
  | some hello =>
      match checkHello hello with
      | some text => w.refuse text
      | none => { w with stage := .answer nonce, written := w.written ++ nonceLine nonce }

section Mac

variable (mac : Bytes → Bytes → Digest) (token : Str)

/-- The answer has been read: admit it, or refuse it. -/
def onAnswer (w : Wire) (line : Bytes) (nonce : Digest) : Wire :=
  match readLine line with
  | none => w.refuse []
  | some answer =>
      let auth := (stripPrefix "AUTH ".toList answer).getD []
      match verify mac token (hex nonce.toList) auth with
      | .accepted =>
          -- `OK` goes out before the reader is looked at
          if w.buffer = [] then { w with stage := .admitted, written := w.written ++ okLine }
          else w.refuse okLine
      | .rejected => w.refuse (utf8 "ERR auth failed\n".toList)
      | .panics => w.refuse []

/-- The reader moves what it holds to the line, and a line that has ended is looked at. -/
def poll (w : Wire) (nonce : Digest) : Wire :=
  match w.stage, readUntil maxLine w.line w.buffer with
  | .hello, (line, buffer, true) => { w with line := [], buffer := buffer }.onHello line nonce
  | .answer issued, (line, buffer, true) =>
      { w with line := [], buffer := buffer }.onAnswer mac token line issued
  | _, (line, buffer, _) => { w with line := line, buffer := buffer }

/-- What one step does to the connection, where it can be taken. -/
def step (w : Wire) : WireLabel → Option Wire
  | .recv chunk =>
      if w.stage.Reading ∧ w.buffer = [] ∧ chunk ≠ [] ∧ chunk.length ≤ bufferSize then
        some { w with buffer := chunk, received := w.received ++ chunk }
      else none
  | .poll nonce => if w.stage.Reading ∧ w.buffer ≠ [] then some (w.poll mac token nonce) else none
  -- an empty line is refused, and so is one without a line feed
  | .eof => if w.stage.Reading ∧ w.buffer = [] then some (w.refuse []) else none
  -- the socket fails, or the handshake takes too long
  | .fail => if w.stage.Reading then some (w.refuse []) else none
  | .relay chunk =>
      if w.stage = .admitted then
        some { w with received := w.received ++ chunk, relayed := w.relayed ++ chunk }
      else none

end Mac

end Wire

/-- The line is a correct preamble. -/
structure Preamble (hello : Bytes) : Prop where
  line : IsLine maxLine hello
  words : ∃ rest rest', nextWord (trim (fromUtf8Lossy hello)) = some (magic, rest) ∧
    nextWord rest = some (profile, rest')

/-- The line answers the nonce with its digest under the token. -/
structure Answers (mac : Bytes → Bytes → Digest) (token : Str) (nonce : Digest) (answer : Bytes) :
    Prop where
  line : IsLine maxLine answer
  decodes : ∃ auth, stripPrefix "AUTH ".toList (trim (fromUtf8Lossy answer)) = some auth ∧
    unhex (trim auth) = .bytes (digest mac token (hex nonce.toList)).toList

namespace Wire

variable (mac : Bytes → Bytes → Digest) (token : Str)

/-- The peer has sent a preamble and the answer to the nonce that was written on this connection,
and behind these only what is relayed. -/
def Proved (w : Wire) : Prop :=
  ∃ hello answer nonce, w.received = hello ++ answer ++ w.relayed ∧
    w.written = nonceLine nonce ++ okLine ∧ Preamble hello ∧ Answers mac token nonce answer

/-- What has been received is accounted for at each stage. -/
def Sound (w : Wire) : Prop :=
  match w.stage with
  | .hello =>
      w.received = w.line ++ w.buffer ∧ w.written = [] ∧ w.relayed = [] ∧ Unended maxLine w.line
  | .answer nonce =>
      (∃ hello, w.received = hello ++ (w.line ++ w.buffer) ∧ Preamble hello) ∧
        w.written = nonceLine nonce ∧ w.relayed = [] ∧ Unended maxLine w.line
  | .admitted => w.Proved mac token
  | .refused => w.relayed = []

variable {mac token} {w w' : Wire}

/-! ## Lines -/

theorem readLine_eq_some {line : Bytes} {text : Str} (h : readLine line = some text) :
    line.getLast? = some lineFeed ∧ text = trim (fromUtf8Lossy line) := by
  obtain ⟨hlast, heq⟩ := Option.ite_none_right_eq_some.1 h
  exact ⟨hlast, (Option.some.inj heq).symm⟩

/-- A preamble that is not refused has the two words. -/
theorem words_of_checkHello {hello : Str} (h : checkHello hello = none) :
    ∃ rest rest', nextWord hello = some (magic, rest) ∧ nextWord rest = some (profile, rest') := by
  have hmagic : [] ≠ magic := by decide
  have hprofile : [] ≠ profile := by decide
  simp only [checkHello] at h
  cases hword : nextWord hello with
  | none => simp [hword, hmagic] at h
  | some found =>
      obtain ⟨found, rest⟩ := found
      simp only [hword, Option.getD_some] at h
      by_cases hfound : found = magic
      · subst hfound
        rw [if_neg (by simp)] at h
        cases hword' : nextWord rest with
        | none => simp [hword', hprofile] at h
        | some found' =>
            obtain ⟨found', rest'⟩ := found'
            simp only [hword', Option.getD_some] at h
            by_cases hfound' : found' = profile
            · subst hfound'
              exact ⟨rest, rest', rfl, hword'⟩
            · simp [hfound'] at h
      · simp [hfound] at h

/-- An answer that is accepted decodes to the digest. -/
theorem decodes_of_verify {nonce : Digest} {answer : Str}
    (h : verify mac token (hex nonce.toList) ((stripPrefix "AUTH ".toList answer).getD []) =
      .accepted) :
    ∃ auth, stripPrefix "AUTH ".toList answer = some auth ∧
      unhex (trim auth) = .bytes (digest mac token (hex nonce.toList)).toList := by
  cases hauth : stripPrefix "AUTH ".toList answer with
  | some auth =>
      rw [hauth, Option.getD_some] at h
      exact ⟨auth, rfl, unhex_of_verify h⟩
  | none =>
      rw [hauth, Option.getD_none] at h
      cases h

/-! ## What each step leaves -/

theorem relayed_of_reading (hw : w.Sound mac token) (h : w.stage.Reading) : w.relayed = [] := by
  unfold Sound at hw
  cases hstage : w.stage with
  | hello =>
      rw [hstage] at hw
      exact hw.2.2.1
  | answer issued =>
      rw [hstage] at hw
      exact hw.2.2.1
  | admitted | refused => simp [hstage, Stage.Reading] at h

theorem sound_refuse {text : Bytes} (h : w.relayed = []) : (w.refuse text).Sound mac token := h

/-- A preamble is refused, or the nonce is written and the answer awaited. -/
theorem sound_onHello {line : Bytes} {nonce : Digest} (hline : w.line = [])
    (hwritten : w.written = []) (hrelayed : w.relayed = [])
    (hreceived : w.received = line ++ w.buffer)
    (hfirst : line.getLast? = some lineFeed → IsLine maxLine line) :
    (w.onHello line nonce).Sound mac token := by
  simp only [onHello]
  cases hread : readLine line with
  | none => exact sound_refuse hrelayed
  | some hello =>
      obtain ⟨hlast, rfl⟩ := readLine_eq_some hread
      simp only
      cases hcheck : checkHello (trim (fromUtf8Lossy line)) with
      | some text => exact sound_refuse hrelayed
      | none =>
          refine ⟨⟨line, ?_, hfirst hlast, words_of_checkHello hcheck⟩, ?_, hrelayed, ?_⟩
          · simpa [hline] using hreceived
          · simp [hwritten]
          · simpa [hline] using (unended_nil (by decide) : Unended maxLine [])

/-- An answer is refused, or the connection is proved. -/
theorem sound_onAnswer {line hello : Bytes} {nonce : Digest} (hwritten : w.written = nonceLine nonce)
    (hrelayed : w.relayed = []) (hhello : Preamble hello)
    (hreceived : w.received = hello ++ (line ++ w.buffer))
    (hfirst : line.getLast? = some lineFeed → IsLine maxLine line) :
    (w.onAnswer mac token line nonce).Sound mac token := by
  simp only [onAnswer]
  cases hread : readLine line with
  | none => exact sound_refuse hrelayed
  | some answer =>
      obtain ⟨hlast, rfl⟩ := readLine_eq_some hread
      simp only
      split
      · rename_i haccepted
        split
        · rename_i hempty
          refine ⟨hello, line, nonce, ?_, ?_, hhello, hfirst hlast, decodes_of_verify haccepted⟩
          · simp [hreceived, hempty, hrelayed]
          · simp [hwritten]
        · exact sound_refuse hrelayed
      · exact sound_refuse hrelayed
      · exact sound_refuse hrelayed

theorem relayed_onHello {line : Bytes} {nonce : Digest} :
    (w.onHello line nonce).relayed = w.relayed := by
  unfold onHello
  cases readLine line with
  | none => rfl
  | some hello => cases h : checkHello hello <;> simp [h, refuse]

theorem relayed_onAnswer {line : Bytes} {nonce : Digest} :
    (w.onAnswer mac token line nonce).relayed = w.relayed := by
  unfold onAnswer
  cases readLine line with
  | none => rfl
  | some answer =>
      simp only
      split
      · split <;> rfl
      · rfl
      · rfl

theorem relayed_poll {nonce : Digest} : (w.poll mac token nonce).relayed = w.relayed := by
  unfold poll
  split
  · exact relayed_onHello
  · exact relayed_onAnswer
  · rfl

theorem sound_poll {nonce : Digest} (hw : w.Sound mac token) :
    (w.poll mac token nonce).Sound mac token := by
  unfold Sound at hw
  cases hstage : w.stage with
  | hello =>
      rw [hstage] at hw
      obtain ⟨hreceived, hwritten, hrelayed, hline⟩ := hw
      simp only [poll, hstage]
      rcases hout : readUntil maxLine w.line w.buffer with ⟨line, buffer, done⟩
      cases done with
      | true =>
          refine sound_onHello rfl hwritten hrelayed ?_ fun hlast => ?_
          · exact hreceived.trans (append_of_readUntil hline hout)
          · exact isLine_of_readUntil hline hout hlast
      | false =>
          have hsplit := append_of_readUntil hline hout
          obtain ⟨-, hmore⟩ := unended_of_readUntil hline hout
          simp only [Sound]
          exact ⟨hreceived.trans hsplit, hwritten, hrelayed, hmore⟩
  | answer issued =>
      rw [hstage] at hw
      obtain ⟨⟨hello, hreceived, hhello⟩, hwritten, hrelayed, hline⟩ := hw
      simp only [poll, hstage]
      rcases hout : readUntil maxLine w.line w.buffer with ⟨line, buffer, done⟩
      cases done with
      | true =>
          refine sound_onAnswer hwritten hrelayed hhello ?_ fun hlast => ?_
          · rw [hreceived, append_of_readUntil hline hout]
          · exact isLine_of_readUntil hline hout hlast
      | false =>
          have hsplit := append_of_readUntil hline hout
          obtain ⟨-, hmore⟩ := unended_of_readUntil hline hout
          simp only [Sound]
          refine ⟨⟨hello, ?_, hhello⟩, hwritten, hrelayed, hmore⟩
          rw [hreceived, hsplit]
  | admitted | refused =>
      rw [hstage] at hw
      simpa [poll, hstage, Sound, Proved] using hw

theorem sound_step {a : WireLabel} (hw : w.Sound mac token) (h : w.step mac token a = some w') :
    w'.Sound mac token := by
  cases a with
  | recv chunk =>
      obtain ⟨⟨hreading, hempty, -, -⟩, h⟩ := Option.ite_none_right_eq_some.1 h
      obtain rfl := Option.some.inj h
      unfold Sound at hw ⊢
      cases hstage : w.stage with
      | hello =>
          simp only [hstage] at hw ⊢
          obtain ⟨hreceived, hrest⟩ := hw
          refine ⟨?_, hrest⟩
          simp [hreceived, hempty]
      | answer issued =>
          simp only [hstage] at hw ⊢
          obtain ⟨⟨hello, hreceived, hhello⟩, hrest⟩ := hw
          refine ⟨⟨hello, ?_, hhello⟩, hrest⟩
          simp [hreceived, hempty]
      | admitted | refused => simp [hstage, Stage.Reading] at hreading
  | poll nonce =>
      obtain ⟨-, h⟩ := Option.ite_none_right_eq_some.1 h
      obtain rfl := Option.some.inj h
      exact sound_poll hw
  | eof =>
      obtain ⟨⟨hreading, -⟩, h⟩ := Option.ite_none_right_eq_some.1 h
      obtain rfl := Option.some.inj h
      exact sound_refuse (relayed_of_reading hw hreading)
  | fail =>
      obtain ⟨hreading, h⟩ := Option.ite_none_right_eq_some.1 h
      obtain rfl := Option.some.inj h
      exact sound_refuse (relayed_of_reading hw hreading)
  | relay chunk =>
      obtain ⟨hstage, h⟩ := Option.ite_none_right_eq_some.1 h
      obtain rfl := Option.some.inj h
      simp only [Sound, hstage] at hw ⊢
      obtain ⟨hello, answer, nonce, hreceived, hrest⟩ := hw
      refine ⟨hello, answer, nonce, ?_, hrest⟩
      simp [hreceived]

/-- Nothing is relayed but by relaying. -/
theorem relayed_step {a : WireLabel} (hrelay : ∀ chunk, a ≠ .relay chunk)
    (h : w.step mac token a = some w') : w'.relayed = w.relayed := by
  cases a with
  | recv | eof | fail =>
      obtain ⟨-, h⟩ := Option.ite_none_right_eq_some.1 h
      obtain rfl := Option.some.inj h
      rfl
  | poll nonce =>
      obtain ⟨-, h⟩ := Option.ite_none_right_eq_some.1 h
      obtain rfl := Option.some.inj h
      exact relayed_poll
  | relay chunk => exact absurd rfl (hrelay chunk)

/-- A connection that has been admitted only relays. -/
theorem admitted_step {a : WireLabel} (hw : w.stage = .admitted)
    (h : w.step mac token a = some w') : w'.stage = .admitted := by
  cases a with
  | relay chunk =>
      obtain ⟨hstage, h⟩ := Option.ite_none_right_eq_some.1 h
      obtain rfl := Option.some.inj h
      exact hstage
  | recv | poll | eof | fail => simp [step, hw, Stage.Reading] at h

theorem sound_new : new.Sound mac token :=
  ⟨rfl, rfl, rfl, unended_nil (by decide)⟩

end Wire

end DialF.Share
