import DialF.Lib.Frame
import DialF.Lib.Lines

/-!
# The handshake of a share

The texts and the arithmetic of the challenge and its answer. HMAC-SHA256 is a parameter: `mac key
message`. A token is trimmed before it is used as a key, a digest travels as hexadecimal digits, and
`verify` compares the decoded answer with the digest; it reads digits of either case, and `+` and
one digit for a byte. Cutting a text inside a character panics, which ends the task of the
connection.

`verify_hex`: an answer in hexadecimal digits is accepted exactly where it is the digest that the
token gives; so the answer made with one token is accepted under another where the digests of the
nonce under the two are the same.
-/

set_option autoImplicit false

namespace DialF.Share

open DialF.Lib

/-- A digest, and a nonce: 32 bytes. -/
abbrev Digest := Vector UInt8 32

/-- `MAGIC`. -/
def magic : Str := "DIALF-SHARE/1".toList

/-- The one profile there is. -/
def profile : Str := "adb".toList

/-- `MAX_LINE`. -/
def maxLine : Nat := 256

/-- A digit of `hex`. -/
def hexDigit (d : Nat) : Char := if d < 10 then Char.ofNat (48 + d) else Char.ofNat (87 + d)

/-- `hex`: two digits a byte. -/
def hex (bytes : Bytes) : Str :=
  bytes.flatMap fun b => [hexDigit (b.toNat / 16), hexDigit (b.toNat % 16)]

/-- `u8::from_str_radix` on a text of two bytes. -/
def fromHexPair (b0 b1 : UInt8) : Option UInt8 :=
  if b0 = 43 then (Frame.hexVal b1).map UInt8.ofNat
  else
    match Frame.hexVal b0, Frame.hexVal b1 with
    | some high, some low => some (UInt8.ofNat (16 * high + low))
    | _, _ => none

/-- What `unhex` comes to. -/
inductive Unhexed where
  | bytes (bytes : Bytes)
  | invalid
  | panics
  deriving DecidableEq

/-- A byte in front of what has been read. -/
def Unhexed.cons (v : UInt8) : Unhexed → Unhexed
  | .bytes bs => .bytes (v :: bs)
  | u => u

/-- Two bytes after the other. A pair is cut off before it is read, so a character across its end
panics, unless an earlier pair is invalid. -/
def unhexPairs : Bytes → Unhexed
  | [] => .bytes []
  | b0 :: b1 :: rest =>
      if rest.head?.any isCont then .panics
      else
        match fromHexPair b0 b1 with
        | some v => (unhexPairs rest).cons v
        | none => .invalid
  | [_] => .invalid

/-- `unhex`: an odd length is refused, and so is an empty text. -/
def unhex (s : Str) : Unhexed :=
  if (utf8 s).length % 2 ≠ 0 ∨ utf8 s = [] then .invalid else unhexPairs (utf8 s)

/-- How `verify` ends; a slice inside a character panics. -/
inductive Verdict where
  | accepted
  | rejected
  | panics
  deriving DecidableEq

section Mac

variable (mac : Bytes → Bytes → Digest)

/-- The digest that proves a token for a nonce. -/
def digest (token nonce : Str) : Digest := mac (utf8 (trim token)) (utf8 nonce)

/-- The answer that the token gives for the nonce. -/
def expectedAuth (token nonce : Str) : Str := hex (digest mac token nonce).toList

/-- `verify`. -/
def verify (token nonce answer : Str) : Verdict :=
  match unhex (trim answer) with
  | .bytes bytes => if bytes = (digest mac token nonce).toList then .accepted else .rejected
  | .invalid => .rejected
  | .panics => .panics

end Mac

/-! ## Hexadecimal texts -/

theorem nibbles_lt (b : UInt8) : b.toNat / 16 < 16 ∧ b.toNat % 16 < 16 := by
  have := b.toNat_lt
  omega

theorem isWhitespace_hexDigit {d : Nat} (hd : d < 16) : isWhitespace (hexDigit d) = false := by
  interval_cases d <;> decide

theorem utf8EncodeChar_hexDigit {d : Nat} (hd : d < 16) :
    String.utf8EncodeChar (hexDigit d) = [Frame.hexByte d] := by
  interval_cases d <;> decide

theorem hexByte_ne {d : Nat} (hd : d < 16) :
    Frame.hexByte d ≠ 43 ∧ Frame.hexByte d ≠ lineFeed ∧ isCont (Frame.hexByte d) = false := by
  interval_cases d <;> decide

theorem utf8_hex (bytes : Bytes) :
    utf8 (hex bytes) =
      bytes.flatMap fun b => [Frame.hexByte (b.toNat / 16), Frame.hexByte (b.toNat % 16)] := by
  induction bytes with
  | nil => rfl
  | cons b bytes ih =>
      obtain ⟨hhigh, hlow⟩ := nibbles_lt b
      rw [hex, List.flatMap_cons, List.flatMap_cons, ← hex, utf8_append, ih, utf8_cons, utf8_cons,
        utf8_nil, utf8EncodeChar_hexDigit hhigh, utf8EncodeChar_hexDigit hlow]
      rfl

theorem length_utf8_hex (bytes : Bytes) : (utf8 (hex bytes)).length = 2 * bytes.length := by
  rw [utf8_hex]
  induction bytes with
  | nil => rfl
  | cons b bytes ih =>
      rw [List.flatMap_cons, List.length_append, ih]
      simp only [List.length_cons, List.length_nil]
      omega

theorem lineFeed_notMem_utf8_hex (bytes : Bytes) : lineFeed ∉ utf8 (hex bytes) := by
  rw [utf8_hex]
  intro h
  obtain ⟨b, -, hb⟩ := List.mem_flatMap.1 h
  obtain ⟨hhigh, hlow⟩ := nibbles_lt b
  simp only [List.mem_cons, List.not_mem_nil, or_false] at hb
  rcases hb with hb | hb
  · exact (hexByte_ne hhigh).2.1 hb.symm
  · exact (hexByte_ne hlow).2.1 hb.symm

theorem trim_hex (bytes : Bytes) : trim (hex bytes) = hex bytes := by
  apply trim_eq_self
  intro c hc
  obtain ⟨b, -, hb⟩ := List.mem_flatMap.1 hc
  obtain ⟨hhigh, hlow⟩ := nibbles_lt b
  simp only [List.mem_cons, List.not_mem_nil, or_false] at hb
  rcases hb with rfl | rfl
  · exact isWhitespace_hexDigit hhigh
  · exact isWhitespace_hexDigit hlow

theorem fromHexPair_hexByte (b : UInt8) :
    fromHexPair (Frame.hexByte (b.toNat / 16)) (Frame.hexByte (b.toNat % 16)) = some b := by
  obtain ⟨hhigh, hlow⟩ := nibbles_lt b
  rw [fromHexPair, if_neg (hexByte_ne hhigh).1, Frame.hexVal_hexByte hhigh,
    Frame.hexVal_hexByte hlow]
  simp [Nat.div_add_mod]

theorem unhexPairs_utf8_hex (bytes : Bytes) : unhexPairs (utf8 (hex bytes)) = .bytes bytes := by
  rw [utf8_hex]
  induction bytes with
  | nil => rfl
  | cons b bytes ih =>
      rw [List.flatMap_cons]
      simp only [List.cons_append, List.nil_append, unhexPairs, fromHexPair_hexByte]
      have hboundary : ((bytes.flatMap fun b =>
          [Frame.hexByte (b.toNat / 16), Frame.hexByte (b.toNat % 16)]).head?.any isCont) =
            false := by
        cases bytes with
        | nil => rfl
        | cons b' bytes => simpa using (hexByte_ne (nibbles_lt b').1).2.2
      rw [hboundary, ih]
      rfl

/-- Hexadecimal digits are read back. -/
theorem unhex_hex {bytes : Bytes} (h : bytes ≠ []) : unhex (hex bytes) = .bytes bytes := by
  have hne : utf8 (hex bytes) ≠ [] := by
    intro hnil
    have hlen := length_utf8_hex bytes
    rw [hnil, List.length_nil] at hlen
    exact h (List.length_eq_zero_iff.1 (by omega))
  rw [unhex, if_neg, unhexPairs_utf8_hex]
  rintro (hodd | hnil)
  · exact hodd (by rw [length_utf8_hex]; omega)
  · exact hne hnil

/-! ## The answer -/

section Mac

variable {mac : Bytes → Bytes → Digest} {token nonce answer : Str}

/-- An accepted answer decodes to the digest of the nonce under the token. -/
theorem unhex_of_verify (h : verify mac token nonce answer = .accepted) :
    unhex (trim answer) = .bytes (digest mac token nonce).toList := by
  rw [verify] at h
  cases hhex : unhex (trim answer) with
  | bytes bytes =>
      rw [hhex] at h
      simp only at h
      split at h
      · rename_i heq
        rw [heq]
      · cases h
  | invalid => simp [hhex] at h
  | panics => simp [hhex] at h

theorem toList_ne_nil (d : Digest) : d.toList ≠ [] := by
  intro hnil
  have hlen := d.length_toList
  rw [hnil] at hlen
  cases hlen

/-- A digest in hexadecimal is accepted exactly where it is the one that is wanted. -/
theorem verify_hex (auth : Digest) :
    verify mac token nonce (hex auth.toList) =
      if auth = digest mac token nonce then .accepted else .rejected := by
  rw [verify, trim_hex, unhex_hex (toList_ne_nil auth)]
  simp only [Vector.toList_inj]

end Mac

end DialF.Share
