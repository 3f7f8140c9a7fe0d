import DialF.Lib.Text
import Mathlib.Data.Nat.Digits.Defs
import Mathlib.Tactic.IntervalCases

/-!
# Length-prefixed frames

A frame is a four-digit hexadecimal length and that many payload bytes. The reader of the length is
a parameter `readLen`, so that a strict reader and a lenient one share the rules: any reader that
reads back the four digits of every length below `0x10000` cuts an encoded frame off the head of a
stream (`cut_encode_append`), and `payloads` reads frame after frame until a payload that `stop`
accepts. A length from `0x10000` on does not fit its four digits; the fifth one then stands at the
head of what a four-digit reader takes for the payload (`encode_eq_of_length_ge`).
-/

set_option autoImplicit false

namespace DialF.Lib.Frame

/-- The lower-case hexadecimal digit of `d`, for `d < 16`. -/
def hexByte (d : Nat) : UInt8 := if d < 10 then UInt8.ofNat (48 + d) else UInt8.ofNat (87 + d)

/-- The value of a hexadecimal digit of either case. -/
def hexVal (b : UInt8) : Option Nat :=
  if 48 ≤ b.toNat ∧ b.toNat ≤ 57 then some (b.toNat - 48)
  else if 97 ≤ b.toNat ∧ b.toNat ≤ 102 then some (b.toNat - 87)
  else if 65 ≤ b.toNat ∧ b.toNat ≤ 70 then some (b.toNat - 55)
  else none

/-- The number formatted in hexadecimal, padded with zeros to four digits. -/
def hex04 (n : Nat) : Bytes :=
  (Nat.digits 16 (n / 65536)).reverse.map hexByte ++
    [hexByte (n / 4096 % 16), hexByte (n / 256 % 16), hexByte (n / 16 % 16), hexByte (n % 16)]

/-- The value of a string of hexadecimal digits, most significant first; `none` at a byte that is
not a digit. -/
def hexDigits (acc : Nat) : Bytes → Option Nat
  | [] => some acc
  | b :: bs =>
      match hexVal b with
      | some d => hexDigits (16 * acc + d) bs
      | none => none

theorem hexVal_hexByte {d : Nat} (hd : d < 16) : hexVal (hexByte d) = some d := by
  interval_cases d <;> rfl

theorem hex04_of_lt {n : Nat} (hn : n < 65536) :
    hex04 n =
      [hexByte (n / 4096 % 16), hexByte (n / 256 % 16), hexByte (n / 16 % 16), hexByte (n % 16)] := by
  rw [hex04, Nat.div_eq_of_lt hn]
  simp

/-- The digits of a length below `0x10000` read back as that length. -/
theorem hexDigits_hex04 {n : Nat} (hn : n < 65536) : hexDigits 0 (hex04 n) = some n := by
  have hmod : ∀ k, k % 16 < 16 := fun k => Nat.mod_lt k (by omega)
  rw [hex04_of_lt hn]
  simp only [hexDigits, hexVal_hexByte (hmod _), Option.some.injEq]
  omega

theorem length_hex04 {n : Nat} (hn : n < 65536) : (hex04 n).length = 4 := by
  rw [hex04_of_lt hn]
  rfl

/-- From `0x10000` on the formatted number has more than four digits, and the fifth is one of the
sixteen digits. -/
theorem hex04_of_ge {n : Nat} (hn : 65536 ≤ n) :
    ∃ pre d post, hex04 n = pre ++ hexByte d :: post ∧ pre.length = 4 ∧ d < 16 := by
  have hpos : 0 < n / 65536 := Nat.div_pos hn (by omega)
  have hds : ∀ d ∈ (Nat.digits 16 (n / 65536)).reverse, d < 16 := by
    intro d hd
    exact Nat.digits_lt_base (by omega) (List.mem_reverse.1 hd)
  have hne : (Nat.digits 16 (n / 65536)).reverse ≠ [] := by
    simp only [ne_eq, List.reverse_eq_nil_iff, Nat.digits_eq_nil_iff_eq_zero]
    omega
  have hmod : ∀ k, k % 16 < 16 := fun k => Nat.mod_lt k (by omega)
  obtain ⟨ds, hdsEq⟩ : ∃ ds : List Nat, hex04 n = ds.map hexByte ∧ (∀ d ∈ ds, d < 16) ∧
      5 ≤ ds.length := by
    refine ⟨(Nat.digits 16 (n / 65536)).reverse ++
      [n / 4096 % 16, n / 256 % 16, n / 16 % 16, n % 16], ?_, ?_, ?_⟩
    · rw [hex04, List.map_append]
      rfl
    · intro d hd
      rcases List.mem_append.1 hd with h | h
      · exact hds d h
      · simp only [List.mem_cons, List.not_mem_nil, or_false] at h
        rcases h with rfl | rfl | rfl | rfl <;> exact hmod _
    · have := List.length_pos_of_ne_nil hne
      simp only [List.length_append, List.length_cons, List.length_nil]
      omega
  obtain ⟨heq, hlt, hlen⟩ := hdsEq
  refine ⟨(ds.take 4).map hexByte, ds[4], (ds.drop 5).map hexByte, ?_, ?_, hlt _ (List.getElem_mem _)⟩
  · rw [heq, ← List.map_cons, ← List.map_append, List.getElem_cons_drop, List.take_append_drop]
  · rw [List.length_map, List.length_take]
    omega

/-! ## Cutting frames off a stream -/

/-- One encoded frame. -/
def encode (payload : Bytes) : Bytes := hex04 payload.length ++ payload

section Reader

variable (readLen : Bytes → Option Nat)

/-- Cut one frame off the head of a stream: its payload and the rest. -/
def cut (bytes : Bytes) : Option (Bytes × Bytes) :=
  if bytes.length < 4 then none
  else
    match readLen (bytes.take 4) with
    | none => none
    | some n =>
        if (bytes.drop 4).length < n then none
        else some ((bytes.drop 4).take n, (bytes.drop 4).drop n)

/-- The reader reads back the digits of every length that fits four of them. -/
def ReadsHex04 : Prop := ∀ n, n < 65536 → readLen (hex04 n) = some n

variable {readLen}

/-- **An encoded frame that fits is cut off whole.** -/
theorem cut_encode_append (hread : ReadsHex04 readLen) {payload : Bytes}
    (hfit : payload.length < 65536) (rest : Bytes) :
    cut readLen (encode payload ++ rest) = some (payload, rest) := by
  have h4 : (hex04 payload.length).length = 4 := length_hex04 hfit
  have htake : (encode payload ++ rest).take 4 = hex04 payload.length := by
    rw [encode, List.append_assoc, ← h4, List.take_left]
  have hdrop : (encode payload ++ rest).drop 4 = payload ++ rest := by
    rw [encode, List.append_assoc, ← h4, List.drop_left]
  have hlen : ¬ (encode payload ++ rest).length < 4 := by
    simp only [encode, List.length_append, h4]
    omega
  have hrest : ¬ (payload ++ rest).length < payload.length := by
    rw [List.length_append]
    omega
  rw [cut, if_neg hlen, htake, hread _ hfit]
  simp only [hdrop, if_neg hrest, List.take_left, List.drop_left]

/-- The stream a frame is cut off from, its four digits included. -/
theorem cut_eq_some {bytes payload rest : Bytes} (h : cut readLen bytes = some (payload, rest)) :
    ∃ digits, bytes = digits ++ (payload ++ rest) ∧ digits.length = 4 := by
  unfold cut at h
  by_cases hlen : bytes.length < 4
  · simp [hlen] at h
  · rw [if_neg hlen] at h
    refine ⟨bytes.take 4, ?_, by rw [List.length_take]; omega⟩
    cases hr : readLen (bytes.take 4) with
    | none => simp [hr] at h
    | some n =>
        rw [hr] at h
        by_cases hn : (bytes.drop 4).length < n
        · simp only [if_pos hn, reduceCtorEq] at h
        · simp only [if_neg hn, Option.some.injEq, Prod.mk.injEq] at h
          rw [← h.1, ← h.2, List.take_append_drop, List.take_append_drop]

theorem cut_length_lt {bytes payload rest : Bytes} (h : cut readLen bytes = some (payload, rest)) :
    rest.length < bytes.length := by
  obtain ⟨digits, heq, hlen⟩ := cut_eq_some h
  rw [heq, List.length_append, List.length_append]
  omega

/-- A frame too long for four digits, cut by any four-digit reader: the payload starts with a
hexadecimal digit, if it has a first byte at all. -/
theorem cut_encode_of_length_ge {payload p rest rest' : Bytes} (hlong : 65536 ≤ payload.length)
    (h : cut readLen (encode payload ++ rest) = some (p, rest')) :
    p = [] ∨ ∃ d t, p = hexByte d :: t ∧ d < 16 := by
  obtain ⟨pre, d, post, hhex, hpre, hd⟩ := hex04_of_ge hlong
  obtain ⟨digits, heq, hdigits⟩ := cut_eq_some h
  have hstream : pre ++ (hexByte d :: post ++ (payload ++ rest)) = digits ++ (p ++ rest') := by
    rw [← heq, encode, hhex]
    simp
  have hcons := (List.append_inj hstream (by rw [hpre, hdigits])).2
  cases p with
  | nil => exact Or.inl rfl
  | cons b t =>
      refine Or.inr ⟨d, t, ?_, hd⟩
      simp only [List.cons_append, List.cons.injEq] at hcons
      rw [hcons.1]

/-! ## Reading frame after frame -/

variable (readLen)

/-- Payloads read off a stream, at most `fuel` of them, ending behind one that `stop` accepts. -/
def payloadsGo (stop : Bytes → Bool) : Nat → Bytes → List Bytes
  | 0, _ => []
  | fuel + 1, bytes =>
      match cut readLen bytes with
      | none => []
      | some (p, rest) => p :: if stop p then [] else payloadsGo stop fuel rest

/-- Payloads read off a stream, ending behind one that `stop` accepts. -/
def payloads (stop : Bytes → Bool) (bytes : Bytes) : List Bytes :=
  payloadsGo readLen stop bytes.length bytes

variable {readLen}

/-- Fuel from the length of the stream on makes no difference. -/
theorem payloadsGo_eq (stop : Bytes → Bool) {n m : Nat} {bytes : Bytes} (hn : bytes.length ≤ n)
    (hm : bytes.length ≤ m) : payloadsGo readLen stop n bytes = payloadsGo readLen stop m bytes := by
  induction n generalizing m bytes with
  | zero =>
      have hnil : bytes = [] := List.eq_nil_of_length_eq_zero (Nat.le_zero.1 hn)
      subst hnil
      cases m <;> rfl
  | succ n ih =>
      cases m with
      | zero =>
          have hnil : bytes = [] := List.eq_nil_of_length_eq_zero (Nat.le_zero.1 hm)
          subst hnil
          rfl
      | succ m =>
          rw [payloadsGo, payloadsGo]
          cases hc : cut readLen bytes with
          | none => rfl
          | some pr =>
              have hlt : pr.2.length < bytes.length := cut_length_lt hc
              have hrest : payloadsGo readLen stop n pr.2 = payloadsGo readLen stop m pr.2 :=
                ih (by omega) (by omega)
              simp only [hrest]

/-- The equation of `payloads`. -/
theorem payloads_eq (stop : Bytes → Bool) (bytes : Bytes) :
    payloads readLen stop bytes =
      match cut readLen bytes with
      | none => []
      | some (p, rest) => p :: if stop p then [] else payloads readLen stop rest := by
  rw [payloads]
  cases hb : bytes.length with
  | zero =>
      have hnil : bytes = [] := List.eq_nil_of_length_eq_zero hb
      subst hnil
      rfl
  | succ n =>
      rw [payloadsGo]
      cases hc : cut readLen bytes with
      | none => rfl
      | some pr =>
          have hlt : pr.2.length < bytes.length := cut_length_lt hc
          have hfuel : payloadsGo readLen stop n pr.2 = payloadsGo readLen stop pr.2.length pr.2 :=
            payloadsGo_eq stop (by omega) (Nat.le_refl _)
          simp only [payloads, hfuel]

/-- Behind an encoded frame that fits, reading goes on with the rest. -/
theorem payloads_encode_append (hread : ReadsHex04 readLen) (stop : Bytes → Bool) {payload : Bytes}
    (hfit : payload.length < 65536) (rest : Bytes) :
    payloads readLen stop (encode payload ++ rest) =
      payload :: if stop payload then [] else payloads readLen stop rest := by
  rw [payloads_eq, cut_encode_append hread hfit]

@[simp] theorem payloads_nil (stop : Bytes → Bool) : payloads readLen stop [] = [] := rfl

/-- A frame that is cut short is not read. -/
theorem cut_of_short (hread : ReadsHex04 readLen) {payload bytes rest : Bytes}
    (hfit : payload.length < 65536) (hsplit : encode payload = bytes ++ rest) (hrest : rest ≠ []) :
    cut readLen bytes = none := by
  have hpos := List.length_pos_of_ne_nil hrest
  have h4 : (hex04 payload.length).length = 4 := length_hex04 hfit
  have hlen := congrArg List.length hsplit
  rw [encode, List.length_append, List.length_append, h4] at hlen
  rw [cut]
  split
  · rfl
  · rename_i hshort
    have htake : bytes.take 4 = hex04 payload.length := by
      have heq := congrArg (List.take 4) hsplit
      rw [encode, ← h4, List.take_left, h4, List.take_append_of_le_length (by omega)] at heq
      exact heq.symm
    rw [htake, hread _ hfit]
    simp only [List.length_drop]
    rw [if_pos (by omega)]

/-- **Frames that fit are read one after the other**, up to one that is cut short. -/
theorem payloads_flatMap_encode (hread : ReadsHex04 readLen) {ps : List Bytes} {tail : Bytes}
    (hfit : ∀ p ∈ ps, p.length < 65536) (htail : cut readLen tail = none) (streaming : Bool) :
    payloads readLen (fun _ => !streaming) (ps.flatMap encode ++ tail) =
      if streaming then ps else ps.take 1 := by
  induction ps with
  | nil =>
      rw [List.flatMap_nil, List.nil_append, payloads_eq, htail]
      cases streaming <;> rfl
  | cons p ps ih =>
      rw [List.flatMap_cons, List.append_assoc,
        payloads_encode_append hread _ (hfit p List.mem_cons_self),
        ih fun q hq => hfit q (List.mem_cons_of_mem p hq)]
      cases streaming <;> rfl

end Reader

end DialF.Lib.Frame
