import Mathlib.Data.List.DropRight

/-!
# Strings as characters, and their UTF-8 bytes

Prefix tests, prefix stripping and end trimming on character lists, the UTF-8 encoding of a
character list, and the lossy decoding of a byte list, in which every maximal ill-formed sequence
becomes one replacement character. The facts used below are the equations of `stripPrefix` and
`trimEndMatches` on a known prefix, the injectivity of `utf8`, and `fromUtf8Lossy_utf8`.
-/

set_option autoImplicit false

namespace DialF.Lib

/-- A string as its characters. -/
abbrev Str := List Char

instance : LawfulBEq Str := inferInstance

/-- A byte string. -/
abbrev Bytes := List UInt8

/-! ## Prefixes -/

/-- What follows the prefix `p`, if `s` starts with it. -/
def stripPrefix (p s : Str) : Option Str := p.isPrefixOf? s

/-- `s` starts with `p`. -/
def startsWith (p s : Str) : Bool := (stripPrefix p s).isSome

theorem stripPrefix_eq_some_iff {p s r : Str} : stripPrefix p s = some r ↔ s = p ++ r := by
  rw [stripPrefix, List.isPrefixOf?_eq_some_iff_append_eq]
  exact eq_comm

@[simp] theorem stripPrefix_append (p r : Str) : stripPrefix p (p ++ r) = some r :=
  stripPrefix_eq_some_iff.2 rfl

theorem stripPrefix_eq_none_iff {p s : Str} : stripPrefix p s = none ↔ ∀ r, s ≠ p ++ r := by
  constructor
  · intro h r hs
    rw [hs, stripPrefix_append] at h
    exact absurd h (by simp)
  · intro h
    cases hs : stripPrefix p s with
    | none => rfl
    | some r => exact absurd (stripPrefix_eq_some_iff.1 hs) (h r)

theorem startsWith_iff {p s : Str} : startsWith p s = true ↔ ∃ r, s = p ++ r := by
  rw [startsWith, Option.isSome_iff_exists]
  exact exists_congr fun r => stripPrefix_eq_some_iff

theorem startsWith_eq_false_iff {p s : Str} : startsWith p s = false ↔ ∀ r, s ≠ p ++ r := by
  rw [← Bool.not_eq_true, startsWith_iff, not_exists]

@[simp] theorem startsWith_append (p r : Str) : startsWith p (p ++ r) = true :=
  startsWith_iff.2 ⟨r, rfl⟩

/-! ## Trimming the end -/

/-- `s` without the run of `c` at its end. -/
def trimEndMatches (c : Char) (s : Str) : Str := s.rdropWhile (· == c)

/-- What trimming takes off is a run of the trimmed character. -/
theorem trimEndMatches_append_replicate (c : Char) (s : Str) :
    ∃ n, s = trimEndMatches c s ++ List.replicate n c := by
  refine ⟨(s.rtakeWhile (· == c)).length, ?_⟩
  have hall : ∀ x ∈ s.rtakeWhile (· == c), x = c := by
    intro x hx
    simpa using List.mem_rtakeWhile_imp hx
  rw [← List.eq_replicate_of_mem hall, trimEndMatches, List.rdropWhile_append_rtakeWhile]

theorem trimEndMatches_eq_self_iff {c : Char} {s : Str} :
    trimEndMatches c s = s ↔ ∀ h : s ≠ [], s.getLast h ≠ c := by
  simp [trimEndMatches]

@[simp] theorem trimEndMatches_append_replicate_self (c : Char) (s : Str) (n : Nat) :
    trimEndMatches c (s ++ List.replicate n c) = trimEndMatches c s := by
  induction n with
  | zero => simp
  | succ n ih =>
      rw [List.replicate_succ', ← List.append_assoc, trimEndMatches,
        List.rdropWhile_concat_pos _ _ _ (by simp)]
      exact ih

@[simp] theorem trimEndMatches_idem (c : Char) (s : Str) :
    trimEndMatches c (trimEndMatches c s) = trimEndMatches c s :=
  List.rdropWhile_idempotent _ _

/-- Trimming stays behind a prefix that does not end in the trimmed character. -/
theorem trimEndMatches_append {c : Char} {p : Str} (hp : trimEndMatches c p = p) (s : Str) :
    trimEndMatches c (p ++ s) = p ++ trimEndMatches c s := by
  obtain ⟨n, hn⟩ := trimEndMatches_append_replicate c s
  have hfix : trimEndMatches c (p ++ trimEndMatches c s) = p ++ trimEndMatches c s := by
    rw [trimEndMatches_eq_self_iff] at hp ⊢
    intro hne
    by_cases ht : trimEndMatches c s = []
    · have hpne : p ≠ [] := by simpa [ht] using hne
      simpa [ht] using hp hpne
    · rw [List.getLast_append_of_ne_nil _ ht]
      exact trimEndMatches_eq_self_iff.1 (trimEndMatches_idem c s) ht
  calc trimEndMatches c (p ++ s)
      = trimEndMatches c (p ++ trimEndMatches c s ++ List.replicate n c) := by
        rw [List.append_assoc, ← hn]
    _ = p ++ trimEndMatches c s := by rw [trimEndMatches_append_replicate_self, hfix]

/-- Stripping a prefix that does not end in the trimmed character, and trimming, in either order. -/
theorem stripPrefix_trimEndMatches {c : Char} {p : Str} (hp : trimEndMatches c p = p) (s : Str) :
    stripPrefix p (trimEndMatches c s) = (stripPrefix p s).map (trimEndMatches c) := by
  cases hs : stripPrefix p s with
  | some r =>
      rw [stripPrefix_eq_some_iff.1 hs, trimEndMatches_append hp, stripPrefix_append]
      rfl
  | none =>
      rw [stripPrefix_eq_none_iff] at hs
      rw [Option.map_none, stripPrefix_eq_none_iff]
      intro r hr
      obtain ⟨n, hn⟩ := trimEndMatches_append_replicate c s
      apply hs (r ++ List.replicate n c)
      rw [← List.append_assoc, ← hr]
      exact hn

/-! ## White space -/

/-- The characters with the Unicode property `White_Space`. -/
def isWhitespace (c : Char) : Bool :=
  (0x9 ≤ c.val && c.val ≤ 0xD) || c.val == 0x20 || c.val == 0x85 || c.val == 0xA0 ||
    c.val == 0x1680 || (0x2000 ≤ c.val && c.val ≤ 0x200A) || c.val == 0x2028 || c.val == 0x2029 ||
    c.val == 0x202F || c.val == 0x205F || c.val == 0x3000

/-- A word: some characters, none of them white space. -/
def IsWord (w : Str) : Prop := w ≠ [] ∧ ∀ c ∈ w, isWhitespace c = false

instance (w : Str) : Decidable (IsWord w) :=
  @instDecidableAnd _ _ _ (List.decidableBAll (isWhitespace · = false) w)

/-- A line without a carriage return at its end. -/
def stripCr (line : Str) : Str := if line.getLast? = some '\r' then line.dropLast else line

/-- `s` without the white space at its start and at its end. -/
def trim (s : Str) : Str := (s.dropWhile isWhitespace).rdropWhile isWhitespace

/-- The first of the words that white space separates, and what follows it. -/
def nextWord (s : Str) : Option (Str × Str) :=
  match s.dropWhile isWhitespace with
  | [] => none
  | c :: rest =>
      some ((c :: rest).takeWhile fun c => !isWhitespace c,
        (c :: rest).dropWhile fun c => !isWhitespace c)

/-- White space behind a text that neither starts nor ends with any is trimmed off. -/
theorem trim_append_of_isWhitespace {c d w : Char} {s : Str} (hc : isWhitespace c = false)
    (hd : isWhitespace d = false) (hw : isWhitespace w = true) (hs : ∃ t, c :: s = t ++ [d]) :
    trim (c :: s ++ [w]) = c :: s := by
  obtain ⟨t, ht⟩ := hs
  have hhead : (c :: s ++ [w]).dropWhile isWhitespace = c :: s ++ [w] := by
    simp [hc]
  rw [trim, hhead, List.rdropWhile_concat_pos _ _ _ hw, ht]
  exact List.rdropWhile_concat_neg _ _ _ (by simp [hd])

/-- A text without white space is trimmed already. -/
theorem trim_eq_self {s : Str} (hs : ∀ c ∈ s, isWhitespace c = false) : trim s = s := by
  have hhead : s.dropWhile isWhitespace = s := by
    cases s with
    | nil => rfl
    | cons c s => simp [hs c (by simp)]
  rw [trim, hhead]
  refine List.rdropWhile_eq_self_iff.2 fun hne => ?_
  simp [hs _ (List.getLast_mem hne)]

/-! ## UTF-8 -/

/-- The UTF-8 bytes of a string. -/
def utf8 (s : Str) : Bytes := s.flatMap String.utf8EncodeChar

@[simp] theorem utf8_nil : utf8 [] = [] := rfl

@[simp] theorem utf8_cons (c : Char) (s : Str) :
    utf8 (c :: s) = String.utf8EncodeChar c ++ utf8 s :=
  rfl

@[simp] theorem utf8_append (s t : Str) : utf8 (s ++ t) = utf8 s ++ utf8 t :=
  List.flatMap_append

/-- The text of a byte string, if it is well-formed. -/
def fromUtf8 (bytes : Bytes) : Option Str := (String.fromUTF8? bytes.toByteArray).map String.toList

theorem fromUtf8_utf8 (s : Str) : fromUtf8 (utf8 s) = some s := by
  have hwhole : String.fromUTF8? (String.ofList s).toByteArray = some (String.ofList s) :=
    dif_pos (String.ofList s).isValidUTF8
  show (String.fromUTF8? (String.ofList s).toByteArray).map String.toList = some s
  rw [hwhole, Option.map_some, String.toList_ofList]

/-- The character at the head of a byte string, where a well-formed one stands. -/
def decodeChar? (bytes : Bytes) : Option Char := bytes.toByteArray.utf8DecodeChar? 0

theorem decodeChar?_utf8EncodeChar (c : Char) (bytes : Bytes) :
    decodeChar? (String.utf8EncodeChar c ++ bytes) = some c := by
  rw [decodeChar?, List.toByteArray_append]
  exact ByteArray.utf8DecodeChar?_utf8EncodeChar_append

/-- A continuation byte. -/
def isCont (b : UInt8) : Bool := 0x80 ≤ b && b ≤ 0xBF

/-- The bytes of a character: one below `0x80`, or a first one from `0xC0` on and continuation
bytes. -/
inductive Encoding (c : Char) : Bytes → Prop where
  | one : c.utf8Size = 1 → c.toNat < 128 → Encoding c [UInt8.ofNat c.toNat]
  | two {b0 b1 : UInt8} : c.utf8Size = 2 → 0xC0 ≤ b0.toNat → isCont b1 = true → Encoding c [b0, b1]
  | more {b0 b1 b2 : UInt8} {rest : Bytes} : 2 < c.utf8Size → 0xC0 ≤ b0.toNat →
      isCont b1 = true → isCont b2 = true → Encoding c (b0 :: b1 :: b2 :: rest)

theorem isCont_ofNat {v : Nat} : isCont (UInt8.ofNat (v % 0x40 + 0x80)) = true := by
  have hv : v % 0x40 < 0x40 := Nat.mod_lt v (by omega)
  simp only [isCont, Bool.and_eq_true, decide_eq_true_eq, UInt8.le_iff_toNat_le,
    UInt8.toNat_ofNat', UInt8.reduceToNat]
  omega

theorem encoding (c : Char) : Encoding c (String.utf8EncodeChar c) := by
  have hsize := String.length_utf8EncodeChar c
  simp only [String.utf8EncodeChar] at hsize ⊢
  split at hsize
  · rename_i hv
    rw [if_pos hv]
    exact .one hsize.symm (Nat.lt_succ_of_le hv)
  · rename_i hv
    rw [if_neg hv]
    split at hsize
    · rename_i hv2
      rw [if_pos hv2]
      refine .two hsize.symm ?_ isCont_ofNat
      rw [UInt8.toNat_ofNat']
      omega
    · rename_i hv2
      rw [if_neg hv2]
      split at hsize
      · rename_i hv3
        rw [if_pos hv3]
        refine .more ?_ ?_ isCont_ofNat isCont_ofNat
        · simp only [List.length_cons, List.length_nil] at hsize
          omega
        · rw [UInt8.toNat_ofNat']
          omega
      · rename_i hv3
        rw [if_neg hv3]
        refine .more ?_ ?_ isCont_ofNat isCont_ofNat
        · simp only [List.length_cons, List.length_nil] at hsize
          omega
        · rw [UInt8.toNat_ofNat']
          omega

/-- The first two bytes of a three-byte sequence. -/
def startsThree (b0 b1 : UInt8) : Bool :=
  (b0 == 0xE0 && 0xA0 ≤ b1 && b1 ≤ 0xBF) || (0xE1 ≤ b0 && b0 ≤ 0xEC && isCont b1) ||
    (b0 == 0xED && 0x80 ≤ b1 && b1 ≤ 0x9F) || (0xEE ≤ b0 && b0 ≤ 0xEF && isCont b1)

/-- The first two bytes of a four-byte sequence. -/
def startsFour (b0 b1 : UInt8) : Bool :=
  (b0 == 0xF0 && 0x90 ≤ b1 && b1 ≤ 0xBF) || (0xF1 ≤ b0 && b0 ≤ 0xF3 && isCont b1) ||
    (b0 == 0xF4 && 0x80 ≤ b1 && b1 ≤ 0x8F)

/-- The length of the maximal ill-formed sequence at the head of a byte string at which no
character can be decoded. -/
def illFormedLen : Bytes → Nat
  | b0 :: b1 :: rest =>
      if startsThree b0 b1 then 2
      else if startsFour b0 b1 then
        match rest with
        | b2 :: _ => if isCont b2 then 3 else 2
        | [] => 2
      else 1
  | _ => 1

/-- `fromUtf8Lossy` with fuel; every round takes at least one byte. -/
def fromUtf8LossyGo : Nat → Bytes → Str
  | 0, _ => []
  | _ + 1, [] => []
  | n + 1, bytes@(_ :: _) =>
      match decodeChar? bytes with
      | some c => c :: fromUtf8LossyGo n (bytes.drop c.utf8Size)
      | none => '\uFFFD' :: fromUtf8LossyGo n (bytes.drop (illFormedLen bytes))

/-- The lossy decoding of a byte string. -/
def fromUtf8Lossy (bytes : Bytes) : Str := fromUtf8LossyGo bytes.length bytes

theorem fromUtf8LossyGo_utf8 (s : Str) :
    ∀ n, (utf8 s).length ≤ n → fromUtf8LossyGo n (utf8 s) = s := by
  induction s with
  | nil =>
      intro n _
      cases n <;> rfl
  | cons c s ih =>
      intro n hn
      have hlen : (String.utf8EncodeChar c).length = c.utf8Size := String.length_utf8EncodeChar c
      have hpos : 0 < c.utf8Size := c.utf8Size_pos
      rw [utf8_cons, List.length_append, hlen] at hn
      obtain ⟨m, rfl⟩ : ∃ m, n = m + 1 := ⟨n - 1, by omega⟩
      have hne : utf8 (c :: s) ≠ [] := by
        intro h
        have := congrArg List.length h
        rw [utf8_cons, List.length_append, hlen, List.length_nil] at this
        omega
      obtain ⟨b, bs, hb⟩ := List.exists_cons_of_ne_nil hne
      have hdec : decodeChar? (b :: bs) = some c := by
        rw [← hb, utf8_cons]
        exact decodeChar?_utf8EncodeChar c (utf8 s)
      have hdrop : (b :: bs).drop c.utf8Size = utf8 s := by
        rw [← hb, utf8_cons, ← hlen, List.drop_left]
      rw [hb, fromUtf8LossyGo, hdec]
      simp only [hdrop]
      rw [ih m (by omega)]

/-- Lossy decoding gives back every string from its UTF-8 bytes. -/
@[simp] theorem fromUtf8Lossy_utf8 (s : Str) : fromUtf8Lossy (utf8 s) = s :=
  fromUtf8LossyGo_utf8 s _ (Nat.le_refl _)

/-- A well-formed character at the head of a byte string is decoded first. -/
theorem fromUtf8Lossy_encode_append (c : Char) (bytes : Bytes) :
    ∃ s, fromUtf8Lossy (String.utf8EncodeChar c ++ bytes) = c :: s := by
  have hpos : 0 < (String.utf8EncodeChar c).length := by
    rw [String.length_utf8EncodeChar]
    exact c.utf8Size_pos
  obtain ⟨b, bs, hb⟩ := List.exists_cons_of_length_pos hpos
  have hdec : decodeChar? (b :: (bs ++ bytes)) = some c := by
    rw [← List.cons_append, ← hb]
    exact decodeChar?_utf8EncodeChar c bytes
  rw [hb, List.cons_append, fromUtf8Lossy, List.length_cons, fromUtf8LossyGo, hdec]
  exact ⟨_, rfl⟩

end DialF.Lib
