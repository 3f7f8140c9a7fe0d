import DialF.Share.Handshake

/-!
# Answers that fail closed

An answer is right when, trimmed, it is the digest in hexadecimal, two digits for a byte (`HexOf`).
`unhex` goes by bytes: where a character lies across the end of a pair it panics before it has read
that pair, unless an earlier one was invalid (`Straddles`), and `+` and one digit pass for a byte
(`LaxOf`). `failsClosed_iff`: on any other answer, and only there, `verify` comes back and accepts
exactly the right ones.
-/

set_option autoImplicit false

namespace DialF.Share

open DialF.Lib

/-- The value of a hexadecimal digit of either case. -/
def hexVal (c : Char) : Option Nat :=
  if 48 ≤ c.toNat ∧ c.toNat ≤ 57 then some (c.toNat - 48)
  else if 97 ≤ c.toNat ∧ c.toNat ≤ 102 then some (c.toNat - 87)
  else if 65 ≤ c.toNat ∧ c.toNat ≤ 70 then some (c.toNat - 55)
  else none

/-- The value of two digits. -/
def pairVal (c0 c1 : Char) : Option UInt8 :=
  match hexVal c0, hexVal c1 with
  | some high, some low => some (UInt8.ofNat (16 * high + low))
  | _, _ => none

/-- The value of a pair as it is read: two digits, or a plus sign and one. -/
def laxVal (c0 c1 : Char) : Option UInt8 :=
  if c0 = '+' then (hexVal c1).map UInt8.ofNat else pairVal c0 c1

/-- The text is made of pairs, which have these values. -/
inductive PairsOf (val : Char → Char → Option UInt8) : Str → Bytes → Prop where
  | nil : PairsOf val [] []
  | cons {c0 c1 : Char} {v : UInt8} {s : Str} {bytes : Bytes} :
      val c0 c1 = some v → PairsOf val s bytes → PairsOf val (c0 :: c1 :: s) (v :: bytes)

/-- The text is the bytes in hexadecimal. -/
abbrev HexOf : Str → Bytes → Prop := PairsOf pairVal

/-- The text is taken for the bytes. -/
abbrev LaxOf : Str → Bytes → Prop := PairsOf laxVal

/-- Behind nothing but pairs, a character lies across the end of the next pair. -/
inductive Straddles : Str → Prop where
  | wide {c : Char} {s : Str} : 2 < c.utf8Size → Straddles (c :: s)
  | second {c c' : Char} {s : Str} : c.utf8Size = 1 → 1 < c'.utf8Size → Straddles (c :: c' :: s)
  | pair {c0 c1 : Char} {v : UInt8} {s : Str} :
      laxVal c0 c1 = some v → Straddles s → Straddles (c0 :: c1 :: s)

/-- `verify` comes back, and accepts the digest in hexadecimal and nothing else. -/
def FailsClosed (mac : Bytes → Bytes → Digest) (token nonce answer : Str) : Prop :=
  verify mac token nonce answer ≠ .panics ∧
    (verify mac token nonce answer = .accepted ↔
      HexOf (trim answer) (digest mac token nonce).toList)

/-! ## Pairs of characters -/

/-- `unhexPairs`, by characters. -/
def unhexChars : Str → Unhexed
  | [] => .bytes []
  | [c] => if 2 < c.utf8Size then .panics else .invalid
  | c0 :: c1 :: s =>
      if 2 < c0.utf8Size ∨ c0.utf8Size = 1 ∧ 1 < c1.utf8Size then .panics
      else
        match laxVal c0 c1 with
        | some v => (unhexChars s).cons v
        | none => .invalid

variable {s : Str} {bytes : Bytes}

theorem hexVal_ofNat {c : Char} (hc : c.toNat < 128) :
    Frame.hexVal (UInt8.ofNat c.toNat) = hexVal c := by
  have hval : (UInt8.ofNat c.toNat).toNat = c.toNat := by
    rw [UInt8.toNat_ofNat']
    omega
  rw [Frame.hexVal, hval, hexVal]

theorem hexVal_of_ge {c : Char} (hc : 128 ≤ c.toNat) : hexVal c = none := by
  rw [hexVal, if_neg (by omega), if_neg (by omega), if_neg (by omega)]

theorem fromHexPair_ofNat {c0 c1 : Char} (h0 : c0.toNat < 128) (h1 : c1.toNat < 128) :
    fromHexPair (UInt8.ofNat c0.toNat) (UInt8.ofNat c1.toNat) = laxVal c0 c1 := by
  have hplus : UInt8.ofNat c0.toNat = 43 ↔ c0 = '+' := by
    rw [← UInt8.toNat_inj, UInt8.toNat_ofNat', ← Char.toNat_inj]
    have h43 : (43 : UInt8).toNat = 43 := rfl
    have hchar : '+'.toNat = 43 := rfl
    omega
  cases hhigh : hexVal c0 <;> cases hlow : hexVal c1 <;>
    simp only [fromHexPair, laxVal, pairVal, hexVal_ofNat h0, hexVal_ofNat h1, hplus, hhigh, hlow]

theorem fromHexPair_of_ge {b0 b1 : UInt8} (h : 0xC0 ≤ b0.toNat) : fromHexPair b0 b1 = none := by
  have hne : b0 ≠ 43 := by
    rintro rfl
    exact absurd h (by decide)
  have hval : Frame.hexVal b0 = none := by
    rw [Frame.hexVal, if_neg (by omega), if_neg (by omega), if_neg (by omega)]
  rw [fromHexPair, if_neg hne, hval]

theorem le_of_utf8Size_ne_one {c : Char} (h : c.utf8Size ≠ 1) : 128 ≤ c.toNat := by
  have hone := (not_congr Char.utf8Size_eq_one_iff).1 h
  rw [UInt32.le_iff_toNat_le] at hone
  exact Nat.lt_of_not_le hone

theorem laxVal_of_wide {c0 c1 : Char} (h : c0.utf8Size ≠ 1) : laxVal c0 c1 = none := by
  have hge := le_of_utf8Size_ne_one h
  have hne : c0 ≠ '+' := by
    rintro rfl
    exact absurd hge (by decide)
  rw [laxVal, if_neg hne, pairVal, hexVal_of_ge hge]

/-- A text does not start with a continuation byte. -/
theorem head_utf8 (s : Str) : (utf8 s).head?.any isCont = false := by
  cases s with
  | nil => rfl
  | cons c s =>
      -- a continuation byte is in `0x80..=0xBF`, between the ASCII bytes and the lead bytes
      have hlead : ∀ b : UInt8, 0xC0 ≤ b.toNat → isCont b = false := by
        intro b hb
        simp only [isCont, Bool.and_eq_false_iff, decide_eq_false_iff_not, UInt8.le_iff_toNat_le]
        right
        have h : (0xBF : UInt8).toNat = 191 := rfl
        omega
      rw [utf8_cons]
      have hc := encoding c
      generalize String.utf8EncodeChar c = bytes at hc
      cases hc with
      | one _ hlt =>
          simp only [List.singleton_append, List.head?_cons, Option.any_some, isCont,
            Bool.and_eq_false_iff, decide_eq_false_iff_not, UInt8.le_iff_toNat_le,
            UInt8.toNat_ofNat']
          left
          have h : (0x80 : UInt8).toNat = 128 := rfl
          omega
      | two _ hb _ => exact hlead _ hb
      | more _ hb _ _ => exact hlead _ hb

/-- **By characters it is the same.** -/
theorem unhexPairs_utf8 (s : Str) : unhexPairs (utf8 s) = unhexChars s := by
  -- along the pairs of characters, by how long the encoding of each of the two is
  fun_induction unhexChars s with
  | case1 => rfl
  | case2 c hwide =>
      have hc := encoding c
      rw [utf8_cons]
      generalize String.utf8EncodeChar c = bytes at hc
      cases hc with
      | one h | two h => omega
      | more _ _ _ hcont => simp [unhexPairs, hcont]
  | case3 c hwide =>
      have hc := encoding c
      rw [utf8_cons]
      generalize String.utf8EncodeChar c = bytes at hc
      cases hc with
      | one => rfl
      | two _ hb _ => simp [unhexPairs, fromHexPair_of_ge hb]
      | more h => omega
  | case4 c0 c1 s hpanics =>
      have h0 := encoding c0
      have h1 := encoding c1
      rw [utf8_cons, utf8_cons]
      generalize String.utf8EncodeChar c0 = bytes0 at h0
      generalize String.utf8EncodeChar c1 = bytes1 at h1
      cases h0 with
      | one h =>
          cases h1 with
          | one h' => omega
          | two _ _ hcont => simp [unhexPairs, hcont]
          | more _ _ hcont _ => simp [unhexPairs, hcont]
      | two h => omega
      | more _ _ _ hcont => simp [unhexPairs, hcont]
  | case5 c0 c1 s hpanics v hv ih =>
      have h0 := encoding c0
      have h1 := encoding c1
      rw [utf8_cons, utf8_cons]
      generalize String.utf8EncodeChar c0 = bytes0 at h0
      generalize String.utf8EncodeChar c1 = bytes1 at h1
      cases h0 with
      | one h hlt =>
          cases h1 with
          | one _ hlt' =>
              simp only [List.cons_append, List.nil_append, unhexPairs, head_utf8,
                fromHexPair_ofNat hlt hlt', hv, ih]
              rfl
          | two h' | more h' => omega
      | two h | more h =>
          have hne : c0.utf8Size ≠ 1 := by omega
          simp [laxVal_of_wide hne] at hv
  | case6 c0 c1 s hpanics hv =>
      have h0 := encoding c0
      have h1 := encoding c1
      have hhead := head_utf8 (c1 :: s)
      rw [utf8_cons] at hhead ⊢
      rw [utf8_cons] at *
      generalize String.utf8EncodeChar c0 = bytes0 at h0
      generalize String.utf8EncodeChar c1 = bytes1 at h1 hhead
      cases h0 with
      | one h hlt =>
          cases h1 with
          | one _ hlt' =>
              -- two ASCII characters, which are no pair
              simp only [List.cons_append, List.nil_append, unhexPairs, head_utf8,
                fromHexPair_ofNat hlt hlt', hv]
              rfl
          | two h' | more h' => omega
      | two _ hb _ =>
          -- one character is the pair of bytes, and its lead byte is no digit
          simp only [List.cons_append, List.nil_append, unhexPairs, hhead, fromHexPair_of_ge hb]
          rfl
      | more h => omega

theorem cons_eq_panics {u : Unhexed} {v : UInt8} : u.cons v = .panics ↔ u = .panics := by
  cases u <;> simp [Unhexed.cons]

theorem cons_eq_bytes {u : Unhexed} {v : UInt8} :
    u.cons v = .bytes bytes ↔ ∃ rest, bytes = v :: rest ∧ u = .bytes rest := by
  cases u <;> simp [Unhexed.cons, eq_comm]

theorem unhexChars_eq_panics_iff : unhexChars s = .panics ↔ Straddles s := by
  fun_induction unhexChars s with
  | case1 => exact iff_of_false (by simp) (by rintro ⟨⟩)
  | case2 c hwide => exact iff_of_true rfl (.wide hwide)
  | case3 c hwide =>
      refine iff_of_false (by simp) ?_
      rintro (h | _ | _)
      exact hwide h
  | case4 c0 c1 s hpanics =>
      refine iff_of_true rfl ?_
      rcases hpanics with h | ⟨h, h'⟩
      · exact .wide h
      · exact .second h h'
  | case5 c0 c1 s hpanics v hv ih =>
      rw [cons_eq_panics, ih]
      constructor
      · exact .pair hv
      · rintro (h | ⟨h, h'⟩ | ⟨_, h⟩)
        · exact absurd (Or.inl h) hpanics
        · exact absurd (Or.inr ⟨h, h'⟩) hpanics
        · exact h
  | case6 c0 c1 s hpanics hv =>
      refine iff_of_false (by simp) ?_
      rintro (h | ⟨h, h'⟩ | ⟨h, _⟩)
      · exact hpanics (Or.inl h)
      · exact hpanics (Or.inr ⟨h, h'⟩)
      · simp [hv] at h

/-- A pair is two characters of one byte. -/
theorem not_straddles_of_pair {c0 c1 : Char} {v : UInt8} (h : laxVal c0 c1 = some v) :
    ¬ (2 < c0.utf8Size ∨ c0.utf8Size = 1 ∧ 1 < c1.utf8Size) := by
  have h0 : c0.utf8Size = 1 := by
    by_contra hne
    simp [laxVal_of_wide hne] at h
  have h1 : c1.utf8Size = 1 := by
    by_contra hne
    have hnone := hexVal_of_ge (le_of_utf8Size_ne_one hne)
    rw [laxVal, pairVal, hnone] at h
    split at h
    · simp at h
    · cases hexVal c0 <;> simp at h
  omega

theorem unhexChars_eq_bytes_iff : unhexChars s = .bytes bytes ↔ LaxOf s bytes := by
  fun_induction unhexChars s generalizing bytes with
  | case1 =>
      constructor
      · intro h
        obtain rfl := Unhexed.bytes.inj h
        exact .nil
      · rintro ⟨⟩
        rfl
  | case2 c hwide => exact iff_of_false (by simp) (by rintro ⟨⟩)
  | case3 c hwide => exact iff_of_false (by simp) (by rintro ⟨⟩)
  | case4 c0 c1 s hpanics =>
      refine iff_of_false (by simp) ?_
      rintro (_ | ⟨h, _⟩)
      exact not_straddles_of_pair h hpanics
  | case5 c0 c1 s hpanics v hv ih =>
      rw [cons_eq_bytes]
      constructor
      · rintro ⟨rest, rfl, h⟩
        exact .cons hv (ih.1 h)
      · rintro (_ | ⟨h, hs⟩)
        obtain rfl := Option.some.inj (hv.symm.trans h)
        exact ⟨_, rfl, ih.2 hs⟩
  | case6 c0 c1 s hpanics hv =>
      refine iff_of_false (by simp) ?_
      rintro (_ | ⟨h, _⟩)
      simp [hv] at h

/-! ## Right answers -/

theorem ne_plus_of_hexVal {c : Char} {d : Nat} (h : hexVal c = some d) : c ≠ '+' := by
  rintro rfl
  simp [hexVal] at h

/-- What is taken for the bytes is their hexadecimal form, unless a plus sign stands in it. -/
theorem hexOf_iff : HexOf s bytes ↔ LaxOf s bytes ∧ '+' ∉ s := by
  constructor
  · intro h
    induction h with
    | nil => exact ⟨.nil, by simp⟩
    | @cons c0 c1 v s bytes hv _ ih =>
        have hne : c0 ≠ '+' ∧ c1 ≠ '+' := by
          rw [pairVal] at hv
          cases h0 : hexVal c0 with
          | none => simp [h0] at hv
          | some high =>
              cases h1 : hexVal c1 with
              | none => simp [h0, h1] at hv
              | some low => exact ⟨ne_plus_of_hexVal h0, ne_plus_of_hexVal h1⟩
        refine ⟨.cons ?_ ih.1, ?_⟩
        · rw [laxVal, if_neg hne.1, hv]
        · simp only [List.mem_cons, not_or]
          exact ⟨hne.1.symm, hne.2.symm, ih.2⟩
  · rintro ⟨h, hplus⟩
    induction h with
    | nil => exact .nil
    | @cons c0 c1 v s bytes hv _ ih =>
        simp only [List.mem_cons, not_or] at hplus
        rw [laxVal, if_neg (Ne.symm hplus.1)] at hv
        exact .cons hv (ih hplus.2.2)

theorem length_of_laxOf (h : LaxOf s bytes) : (utf8 s).length = 2 * bytes.length := by
  induction h with
  | nil => rfl
  | @cons c0 c1 v s bytes hv _ ih =>
      have hpair := not_straddles_of_pair hv
      have hpos0 := c0.utf8Size_pos
      have hpos1 := c1.utf8Size_pos
      have h0 : c0.utf8Size = 1 := by
        by_contra hne
        simp [laxVal_of_wide hne] at hv
      rw [utf8_cons, utf8_cons, List.length_append, List.length_append,
        String.length_utf8EncodeChar, String.length_utf8EncodeChar, ih, List.length_cons]
      omega

theorem unhex_eq_panics_iff :
    unhex s = .panics ↔ (utf8 s).length % 2 = 0 ∧ Straddles s := by
  rw [unhex, unhexPairs_utf8]
  split
  · rename_i hbad
    refine iff_of_false (by simp) ?_
    rintro ⟨heven, hs⟩
    rcases hbad with hodd | hnil
    · exact hodd heven
    · -- an empty text has no character to lie across anything
      have hpanics := unhexChars_eq_panics_iff.2 hs
      rw [← unhexPairs_utf8, hnil] at hpanics
      cases hpanics
  · rename_i hgood
    rw [unhexChars_eq_panics_iff]
    exact ⟨fun hs => ⟨by omega, hs⟩, And.right⟩

theorem unhex_eq_bytes_iff (hne : bytes ≠ []) : unhex s = .bytes bytes ↔ LaxOf s bytes := by
  rw [unhex, unhexPairs_utf8]
  split
  · rename_i hbad
    refine iff_of_false (by simp) fun h => ?_
    have hlen := length_of_laxOf h
    rcases hbad with hodd | hnil
    · omega
    · rw [hnil, List.length_nil] at hlen
      exact hne (List.length_eq_zero_iff.1 (by omega))
  · exact unhexChars_eq_bytes_iff

section Mac

variable {mac : Bytes → Bytes → Digest} {token nonce answer : Str}

theorem verify_eq_panics_iff :
    verify mac token nonce answer = .panics ↔
      (utf8 (trim answer)).length % 2 = 0 ∧ Straddles (trim answer) := by
  rw [← unhex_eq_panics_iff, verify]
  cases unhex (trim answer) with
  | bytes bytes =>
      simp only [reduceCtorEq, iff_false]
      split <;> simp
  | invalid | panics => simp

theorem verify_eq_accepted_iff :
    verify mac token nonce answer = .accepted ↔
      LaxOf (trim answer) (digest mac token nonce).toList := by
  rw [← unhex_eq_bytes_iff (toList_ne_nil _), verify]
  cases unhex (trim answer) with
  | bytes bytes =>
      simp only [Unhexed.bytes.injEq]
      split <;> simp [*]
  | invalid | panics => simp

/-- **Verification fails closed** exactly where no character of the trimmed answer, of an even
length, lies across the end of a pair behind pairs only, and the digest is not given with a plus
sign. -/
theorem failsClosed_iff :
    FailsClosed mac token nonce answer ↔
      ¬ ((utf8 (trim answer)).length % 2 = 0 ∧ Straddles (trim answer)) ∧
        ¬ (LaxOf (trim answer) (digest mac token nonce).toList ∧ '+' ∈ trim answer) := by
  rw [FailsClosed, Ne, verify_eq_panics_iff, verify_eq_accepted_iff, hexOf_iff]
  tauto

/-- Whatever the token and the nonce are. -/
theorem not_failsClosed_euro :
    ¬ ∃ mac token nonce, FailsClosed mac token nonce "a€".toList := by
  rintro ⟨mac, token, nonce, hpanics, -⟩
  have hstraddles : Straddles (trim "a€".toList) := .second (by decide) (by decide)
  exact hpanics (verify_eq_panics_iff.2 ⟨by decide, hstraddles⟩)

end Mac

end DialF.Share
