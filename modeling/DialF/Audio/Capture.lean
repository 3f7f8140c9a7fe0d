import Mathlib.Algebra.Order.Group.Nat
import Mathlib.Data.List.Basic

/-!
# Reading the capture

`CommandCaptureSource::read` of `audio/command_backend.rs`. The capture tool writes to a pipe, which
gives its bytes in pieces of any length; a caller asks for samples, with a buffer of any length. The
source keeps the bytes that it has read and not returned.

What a read returns, what it keeps and what is still in the pipe are together what was kept and in
the pipe before (`fill_keeps`, `read_keeps`); `reassembles` is the result for sequences of reads.
-/

set_option autoImplicit false

namespace DialF.Audio

/-! ## The pipe -/

/-- What comes out of the pipe: pieces, and reads that fail. -/
abbrev Arrivals := List (Option (List UInt8))

namespace Arrivals

/-- The bytes that are still to come. -/
def bytes (arrivals : Arrivals) : List UInt8 :=
  (arrivals.filterMap id).flatten

/-- A piece has bytes: a pipe gives none only at its end. -/
def Pieces (arrivals : Arrivals) : Prop :=
  ∀ piece, some piece ∈ arrivals → piece ≠ []

/-- The measure of the recursion: the bytes still to come and the reads that bring them. -/
def size : Arrivals → Nat
  | [] => 0
  | piece :: rest => (piece.getD []).length + 1 + size rest

/-- A read of at most `len` bytes: what it returns, and what is left. It fails, or returns what has
arrived, or nothing at the end of the stream. -/
def read (len : Nat) : Arrivals → Option (List UInt8) × Arrivals
  | [] => (some [], [])
  | none :: rest => (none, rest)
  | some piece :: rest =>
      (some (piece.take len), if piece.length ≤ len then rest else some (piece.drop len) :: rest)

/-- What is taken out of the pipe is not in it any more. -/
theorem size_read_le {len : Nat} {piece : List UInt8} {arrivals rest : Arrivals}
    (h : arrivals.read len = (some piece, rest)) : piece.length + rest.size ≤ arrivals.size := by
  cases arrivals with
  | nil =>
      obtain ⟨hpiece, rfl⟩ := Prod.mk.inj h
      obtain rfl := Option.some.inj hpiece
      exact Nat.le_refl 0
  | cons a arrivals =>
      cases a with
      | none => simp [read] at h
      | some front =>
          obtain ⟨hpiece, rfl⟩ := Prod.mk.inj h
          obtain rfl := Option.some.inj hpiece
          split
          · simp only [size, Option.getD_some, List.length_take]
            omega
          · simp only [size, Option.getD_some, List.length_take, List.length_drop]
            omega

theorem size_read_lt {len : Nat} {arrivals rest : Arrivals}
    (h : arrivals.read len = (none, rest)) : rest.size < arrivals.size := by
  cases arrivals with
  | nil => simp [read] at h
  | cons a arrivals =>
      cases a with
      | none =>
          obtain ⟨-, rfl⟩ := Prod.mk.inj h
          simp [size]
      | some front => simp [read] at h

end Arrivals

/-! ## The source -/

/-- The capture tool's samples. -/
structure CommandCaptureSource where
  channels : Nat
  leftover : List UInt8
  stdout : Arrivals
  deriving DecidableEq

/-- How the loop of a read ends: with a frame at least, at the end of the stream, or with an error. -/
inductive Filled where
  | full (leftover : List UInt8) (stdout : Arrivals)
  | eof (leftover : List UInt8) (stdout : Arrivals)
  | failed (leftover : List UInt8) (stdout : Arrivals)

namespace Filled

/-- What is left of the bytes for the next read. -/
def leftover : Filled → List UInt8
  | .full leftover _ | .eof leftover _ | .failed leftover _ => leftover

/-- What the process has still to write. -/
def stdout : Filled → Arrivals
  | .full _ stdout | .eof _ stdout | .failed _ stdout => stdout

end Filled

/-- Read until a frame is there or the pipe closes. -/
def fill (frameBytes len : Nat) (leftover : List UInt8) (stdout : Arrivals) : Filled :=
  if frameBytes ≤ leftover.length then .full leftover stdout
  else
    match _h : stdout.read len with
    | (none, stdout) => .failed leftover stdout
    | (some [], stdout) => .eof leftover stdout
    | (some (b :: bs), stdout) => fill frameBytes len (leftover ++ b :: bs) stdout
termination_by stdout.size
decreasing_by
  have hle := Arrivals.size_read_le _h
  rw [List.length_cons] at hle
  omega

/-- Two bytes at a time. -/
def pairsWith (word : UInt8 → UInt8 → Int16) : List UInt8 → List Int16
  | lo :: hi :: bytes => word lo hi :: pairsWith word bytes
  | _ => []

/-- `(lo | (hi << 8)) as i16`. -/
def sampleOf (lo hi : UInt8) : Int16 :=
  (lo.toUInt16 ||| (hi.toUInt16 <<< 8)).toInt16

/-- The samples that a read returns, none at the end of the stream, or an error. -/
abbrev ReadResult := Except Unit (List Int16)

/-- A read into a buffer of `outLen` samples. -/
def CommandCaptureSource.read (c : CommandCaptureSource) (outLen : Nat) :
    ReadResult × CommandCaptureSource :=
  let ch := c.channels
  if outLen < ch then (.ok [], c)
  else
    let frameBytes := ch * 2
    let wantBytes := outLen / ch * frameBytes
    match fill frameBytes (max wantBytes frameBytes) c.leftover c.stdout with
    | .failed leftover stdout => (.error (), { c with leftover, stdout })
    | .eof leftover stdout => (.ok [], { c with leftover, stdout })
    | .full leftover stdout =>
        let frames := min (leftover.length / frameBytes) (outLen / ch)
        let used := frames * frameBytes
        (.ok (pairsWith sampleOf (leftover.take used)),
          { c with leftover := leftover.drop used, stdout })

/-- Reads one after the other. -/
def CommandCaptureSource.reads (c : CommandCaptureSource) :
    List Nat → List ReadResult × CommandCaptureSource
  | [] => ([], c)
  | outLen :: outLens =>
      let (result, c) := c.read outLen
      let (results, c) := c.reads outLens
      (result :: results, c)

/-- A source when the tool has been started. -/
def CommandCaptureSource.spawn (channels : Nat) (stdout : Arrivals) : CommandCaptureSource where
  channels := max channels 1
  leftover := []
  stdout := stdout

/-! ## What is to be returned -/

/-- Little-endian samples. -/
def littleEndian : List UInt8 → List Int16 :=
  pairsWith fun lo hi => .ofBitVec (hi.toBitVec ++ lo.toBitVec)

/-- The longest prefix of whole frames. -/
def wholeFramesOf (ch : Nat) (bytes : List UInt8) : List UInt8 :=
  bytes.take (bytes.length / (ch * 2) * (ch * 2))

/-- The samples that reads have returned. -/
def returned (results : List ReadResult) : List Int16 :=
  results.flatMap fun
    | .ok samples => samples
    | .error _ => []

/-! ## Bytes and samples -/

section Bytes

variable {ch : Nat} {a b : List UInt8}

theorem sampleOf_eq (lo hi : UInt8) : sampleOf lo hi = .ofBitVec (hi.toBitVec ++ lo.toBitVec) := by
  have h8 : (8 : UInt16).toBitVec % 16 = 8 := by decide
  have hbits : (lo.toUInt16 ||| (hi.toUInt16 <<< 8)).toBitVec = hi.toBitVec ++ lo.toBitVec := by
    rw [UInt16.toBitVec_or, UInt16.toBitVec_shiftLeft, UInt8.toBitVec_toUInt16,
      UInt8.toBitVec_toUInt16, h8]
    apply BitVec.eq_of_getLsbD_eq
    intro i hi16
    rw [BitVec.getLsbD_append]
    by_cases hlt : i < 8
    · simp [hlt]
      omega
    · have hlo : lo.toBitVec.getLsbD i = false := BitVec.getLsbD_of_ge _ _ (Nat.le_of_not_lt hlt)
      simp [hlt, hi16, hlo]
  rw [sampleOf, ← hbits]
  rfl

theorem pairsWith_sampleOf : pairsWith sampleOf = littleEndian := by
  rw [littleEndian, funext fun lo => funext (sampleOf_eq lo)]

theorem pairsWith_append (word : UInt8 → UInt8 → Int16) {k : Nat} (ha : a.length = 2 * k)
    (b : List UInt8) : pairsWith word (a ++ b) = pairsWith word a ++ pairsWith word b := by
  induction k generalizing a with
  | zero =>
      obtain rfl := List.length_eq_zero_iff.1 ha
      rfl
  | succ k ih =>
      match a, ha with
      | lo :: hi :: a, ha =>
          have ha' : a.length = 2 * k := by
            simp only [List.length_cons] at ha
            omega
          simp only [List.cons_append, pairsWith, ih ha']

theorem length_pairsWith (word : UInt8 → UInt8 → Int16) {k : Nat} (ha : a.length = 2 * k) :
    (pairsWith word a).length = k := by
  induction k generalizing a with
  | zero =>
      obtain rfl := List.length_eq_zero_iff.1 ha
      rfl
  | succ k ih =>
      match a, ha with
      | lo :: hi :: a, ha =>
          have ha' : a.length = 2 * k := by
            simp only [List.length_cons] at ha
            omega
          simp only [pairsWith, List.length_cons, ih ha']

/-- Whole frames in front stay in front. -/
theorem wholeFramesOf_append (hch : 0 < ch) {k : Nat} (ha : a.length = k * (ch * 2)) :
    wholeFramesOf ch (a ++ b) = a ++ wholeFramesOf ch b := by
  have hframe : 0 < ch * 2 := by omega
  have hcount : (a ++ b).length / (ch * 2) * (ch * 2) =
      a.length + b.length / (ch * 2) * (ch * 2) := by
    rw [List.length_append, ha, Nat.add_comm, Nat.add_mul_div_right _ _ hframe, Nat.add_mul,
      Nat.add_comm]
  rw [wholeFramesOf, hcount, List.take_length_add_append, wholeFramesOf]

theorem wholeFramesOf_of_lt (h : a.length < ch * 2) : wholeFramesOf ch a = [] := by
  rw [wholeFramesOf, Nat.div_eq_of_lt h, Nat.zero_mul, List.take_zero]

end Bytes

/-! ## One read -/

section Read

variable {arrivals : Arrivals} {frameBytes len : Nat} {leftover : List UInt8}

theorem Arrivals.bytes_read (len : Nat) (arrivals : Arrivals) :
    arrivals.bytes = ((arrivals.read len).1.getD []) ++ (arrivals.read len).2.bytes := by
  cases arrivals with
  | nil => rfl
  | cons a arrivals =>
      cases a with
      | none => rfl
      | some piece =>
          simp only [read, Option.getD_some]
          split
          · rename_i hle
            rw [List.take_of_length_le hle]
            rfl
          · show piece ++ bytes arrivals = piece.take len ++ (piece.drop len ++ bytes arrivals)
            rw [← List.append_assoc, List.take_append_drop]

theorem Arrivals.Pieces.read (h : arrivals.Pieces) (len : Nat) : (arrivals.read len).2.Pieces := by
  cases arrivals with
  | nil => exact h
  | cons a arrivals =>
      have hrest : Pieces arrivals := fun piece hpiece => h piece (List.mem_cons_of_mem _ hpiece)
      cases a with
      | none => exact hrest
      | some piece =>
          simp only [Arrivals.read]
          split
          · exact hrest
          · rename_i hle
            intro piece' hmem
            rcases List.mem_cons.1 hmem with heq | hmem
            · obtain rfl := Option.some.inj heq
              exact List.ne_nil_of_length_pos (by rw [List.length_drop]; omega)
            · exact hrest piece' hmem

/-- A read that returns nothing has come to the end. -/
theorem Arrivals.eq_nil_of_read (h : arrivals.Pieces) (hlen : 0 < len) {rest : Arrivals}
    (hread : arrivals.read len = (some [], rest)) : rest = [] := by
  cases arrivals with
  | nil => exact (Prod.mk.inj hread).2.symm
  | cons a arrivals =>
      cases a with
      | none => simp [Arrivals.read] at hread
      | some piece =>
          have hnil := Option.some.inj (Prod.mk.inj hread).1
          have hpos := List.length_pos_of_ne_nil (h piece List.mem_cons_self)
          have hzero := congrArg List.length hnil
          rw [List.length_take, List.length_nil] at hzero
          omega

/-- **The loop keeps every byte**: what has been read and what is to come are what they were. -/
theorem fill_keeps (frameBytes len : Nat) (leftover : List UInt8) (stdout : Arrivals) :
    (fill frameBytes len leftover stdout).leftover ++ (fill frameBytes len leftover stdout).stdout.bytes =
      leftover ++ stdout.bytes := by
  fun_induction fill frameBytes len leftover stdout with
  | case1 leftover stdout hfull => rfl
  | case2 leftover stdout hfull stdout' hread =>
      rw [Arrivals.bytes_read len stdout, hread]
      rfl
  | case3 leftover stdout hfull stdout' hread =>
      rw [Arrivals.bytes_read len stdout, hread]
      rfl
  | case4 leftover stdout hfull b bs stdout' hread ih =>
      rw [ih, Arrivals.bytes_read len stdout, hread, List.append_assoc]
      rfl

theorem fill_pieces (h : arrivals.Pieces) (frameBytes len : Nat) (leftover : List UInt8) :
    (fill frameBytes len leftover arrivals).stdout.Pieces := by
  fun_induction fill frameBytes len leftover arrivals with
  | case1 leftover stdout hfull => exact h
  | case2 leftover stdout hfull stdout' hread =>
      have hrest := h.read len
      rwa [hread] at hrest
  | case3 leftover stdout hfull stdout' hread =>
      have hrest := h.read len
      rwa [hread] at hrest
  | case4 leftover stdout hfull b bs stdout' hread ih =>
      have hrest := h.read len
      rw [hread] at hrest
      exact ih hrest

/-- It ends with a frame, or at the end of the stream with less than one. -/
theorem fill_cases (frameBytes : Nat) (h : arrivals.Pieces) (hlen : 0 < len) (leftover : List UInt8) :
    match fill frameBytes len leftover arrivals with
    | .full leftover _ => frameBytes ≤ leftover.length
    | .eof leftover stdout => leftover.length < frameBytes ∧ stdout = []
    | .failed _ _ => True := by
  fun_induction fill frameBytes len leftover arrivals with
  | case1 leftover stdout hfull => exact hfull
  | case2 leftover stdout hfull stdout' hread => trivial
  | case3 leftover stdout hfull stdout' hread =>
      exact ⟨Nat.lt_of_not_le hfull, Arrivals.eq_nil_of_read h hlen hread⟩
  | case4 leftover stdout hfull b bs stdout' hread ih =>
      have hrest := h.read len
      rw [hread] at hrest
      exact ih hrest

/-- It takes out of the pipe what it keeps, and an error besides. -/
theorem fill_size (frameBytes len : Nat) (leftover : List UInt8) (stdout : Arrivals) :
    match fill frameBytes len leftover stdout with
    | .failed leftover' stdout' => leftover'.length + stdout'.size < leftover.length + stdout.size
    | .full leftover' stdout' | .eof leftover' stdout' =>
        leftover'.length + stdout'.size ≤ leftover.length + stdout.size := by
  fun_induction fill frameBytes len leftover stdout with
  | case1 leftover stdout hfull => exact Nat.le_refl _
  | case2 leftover stdout hfull stdout' hread =>
      exact Nat.add_lt_add_left (Arrivals.size_read_lt hread) _
  | case3 leftover stdout hfull stdout' hread =>
      have hle := Arrivals.size_read_le hread
      rw [List.length_nil, Nat.zero_add] at hle
      exact Nat.add_le_add_left hle _
  | case4 leftover stdout hfull b bs stdout' hread ih =>
      have hle := Arrivals.size_read_le hread
      have hlength : (leftover ++ b :: bs).length = leftover.length + (b :: bs).length :=
        List.length_append
      cases hfill : fill frameBytes len (leftover ++ b :: bs) stdout' with
      | full leftover' stdout'' | eof leftover' stdout'' | failed leftover' stdout'' =>
          rw [hfill] at ih
          simp only at ih ⊢
          omega

namespace CommandCaptureSource

/-- The bytes that have been read and not returned, and those still to come. -/
def held (c : CommandCaptureSource) : List UInt8 :=
  c.leftover ++ c.stdout.bytes

/-- The measure of a source: what it keeps and what its process has still to write. -/
def size (c : CommandCaptureSource) : Nat :=
  c.leftover.length + c.stdout.size

/-- What a read gives: frames from the front of what is held, the end of a stream with no frame left,
or an error. -/
inductive Gives (c : CommandCaptureSource) : ReadResult × CommandCaptureSource → Prop where
  | frames {front : List UInt8} {c' : CommandCaptureSource} {k : Nat} : 0 < k →
      front.length = k * (c.channels * 2) → c.held = front ++ c'.held → c'.size < c.size →
        Gives c (.ok (littleEndian front), c')
  | eof {c' : CommandCaptureSource} : c'.held = c.held → c'.stdout = [] →
      c.held.length < c.channels * 2 → Gives c (.ok [], c')
  | failed {c' : CommandCaptureSource} : c'.held = c.held → c'.size < c.size →
      Gives c (.error (), c')

variable {c : CommandCaptureSource} {outLen : Nat}

/-- **One read.** -/
theorem read_gives (hch : 0 < c.channels) (hpieces : c.stdout.Pieces) (hout : c.channels ≤ outLen) :
    (c.read outLen).2.channels = c.channels ∧ (c.read outLen).2.stdout.Pieces ∧
      c.Gives (c.read outLen) := by
  have hlen : 0 < max (outLen / c.channels * (c.channels * 2)) (c.channels * 2) := by omega
  have hkeeps := fill_keeps (c.channels * 2)
    (max (outLen / c.channels * (c.channels * 2)) (c.channels * 2)) c.leftover c.stdout
  have hpieces' := fill_pieces hpieces (c.channels * 2)
    (max (outLen / c.channels * (c.channels * 2)) (c.channels * 2)) c.leftover
  have hcases := fill_cases (c.channels * 2) hpieces hlen c.leftover
  have hsize := fill_size (c.channels * 2)
    (max (outLen / c.channels * (c.channels * 2)) (c.channels * 2)) c.leftover c.stdout
  simp only [read, if_neg (Nat.not_lt_of_le hout)]
  cases hfill : fill (c.channels * 2)
      (max (outLen / c.channels * (c.channels * 2)) (c.channels * 2)) c.leftover c.stdout with
  | failed leftover stdout =>
      rw [hfill] at hkeeps hpieces' hsize
      exact ⟨rfl, hpieces', .failed hkeeps hsize⟩
  | eof leftover stdout =>
      rw [hfill] at hkeeps hpieces' hcases
      obtain ⟨hlt, rfl⟩ := hcases
      refine ⟨rfl, hpieces', .eof hkeeps rfl ?_⟩
      rw [held, ← hkeeps]
      simpa [Filled.leftover, Filled.stdout, Arrivals.bytes] using hlt
  | full leftover stdout =>
      rw [hfill] at hkeeps hpieces' hcases hsize
      simp only [Filled.leftover, Filled.stdout] at hkeeps hcases hsize
      have hframes : 0 < min (leftover.length / (c.channels * 2)) (outLen / c.channels) := by
        rw [Nat.lt_min]
        exact ⟨Nat.div_pos hcases (by omega), Nat.div_pos hout hch⟩
      have hused : min (leftover.length / (c.channels * 2)) (outLen / c.channels) *
          (c.channels * 2) ≤ leftover.length :=
        (Nat.mul_le_mul_right _ (Nat.min_le_left _ _)).trans (Nat.div_mul_le_self _ _)
      simp only
      generalize min (leftover.length / (c.channels * 2)) (outLen / c.channels) = frames
        at hframes hused ⊢
      have hpos : 0 < frames * (c.channels * 2) := Nat.mul_pos hframes (by omega)
      have hsized : c.size = c.leftover.length + c.stdout.size := rfl
      refine ⟨trivial, hpieces', ?_⟩
      rw [pairsWith_sampleOf]
      refine .frames hframes (by rw [List.length_take, Nat.min_eq_left hused]) ?_ ?_
      · rw [held, ← hkeeps, held, ← List.append_assoc, List.take_append_drop]
      · simp only [size, List.length_drop]
        omega

end CommandCaptureSource

end Read

/-! ## Sequences of reads -/

namespace CommandCaptureSource

variable {c : CommandCaptureSource} {outLens : List Nat}

theorem reads_keeps (hch : 0 < c.channels) (hpieces : c.stdout.Pieces)
    (hout : ∀ outLen ∈ outLens, c.channels ≤ outLen) :
    (c.reads outLens).2.channels = c.channels ∧ (c.reads outLens).2.stdout.Pieces := by
  induction outLens generalizing c with
  | nil => exact ⟨rfl, hpieces⟩
  | cons outLen outLens ih =>
      obtain ⟨hchannels, hpieces', -⟩ := read_gives hch hpieces (hout outLen List.mem_cons_self)
      have hrest := ih (hchannels ▸ hch) hpieces' fun n hn =>
        hchannels ▸ hout n (List.mem_cons_of_mem _ hn)
      rwa [hchannels] at hrest

/-- What one of the reads gives: that of the source after the reads before it. -/
theorem getElem?_reads (c : CommandCaptureSource) (outLens : List Nat) (i : Nat) :
    (c.reads outLens).1[i]? =
      outLens[i]?.map fun outLen => ((c.reads (outLens.take i)).2.read outLen).1 := by
  induction outLens generalizing c i with
  | nil => rfl
  | cons outLen outLens ih =>
      cases i with
      | zero => rfl
      | succ i =>
          simp only [reads, List.getElem?_cons_succ, List.take_succ_cons, ih]

theorem reads_concat (c : CommandCaptureSource) (outLens : List Nat) (outLen : Nat) :
    (c.reads (outLens ++ [outLen])).2 = ((c.reads outLens).2.read outLen).2 := by
  induction outLens generalizing c with
  | nil => rfl
  | cons n outLens ih => simp only [List.cons_append, reads, ih]

/-- **A run of reads** returns the front of the whole frames that were held. -/
theorem reads_returned (hch : 0 < c.channels) (hpieces : c.stdout.Pieces)
    (hout : ∀ outLen ∈ outLens, c.channels ≤ outLen) :
    littleEndian (wholeFramesOf c.channels c.held) =
      returned (c.reads outLens).1 ++
        littleEndian (wholeFramesOf c.channels (c.reads outLens).2.held) := by
  induction outLens generalizing c with
  | nil => rfl
  | cons outLen outLens ih =>
      obtain ⟨hchannels, hpieces', hgives⟩ :=
        read_gives hch hpieces (hout outLen List.mem_cons_self)
      simp only [reads]
      generalize c.read outLen = r at hchannels hpieces' hgives
      have hrest := ih (hchannels ▸ hch) hpieces' fun n hn =>
        hchannels ▸ hout n (List.mem_cons_of_mem _ hn)
      rw [hchannels] at hrest
      cases hgives with
      | @frames front c' k hk hfront hheld hsize =>
          have heven : front.length = 2 * (k * c.channels) := by
            rw [hfront, ← Nat.mul_assoc, Nat.mul_comm]
          rw [hheld, wholeFramesOf_append hch hfront, littleEndian, pairsWith_append _ heven]
          simp only [returned, List.flatMap_cons, List.append_assoc]
          exact congrArg _ hrest
      | eof hheld _ _ => exact hheld ▸ hrest
      | failed hheld _ => exact hheld ▸ hrest

/-- A source that does not come to the end of the stream has frames, or errors, to give. -/
theorem length_le_size (hch : 0 < c.channels) (hpieces : c.stdout.Pieces)
    (hout : ∀ outLen ∈ outLens, c.channels ≤ outLen) (hend : .ok [] ∉ (c.reads outLens).1) :
    outLens.length ≤ c.size := by
  induction outLens generalizing c with
  | nil => exact Nat.zero_le _
  | cons outLen outLens ih =>
      obtain ⟨hchannels, hpieces', hgives⟩ :=
        read_gives hch hpieces (hout outLen List.mem_cons_self)
      simp only [reads] at hend
      generalize c.read outLen = r at hchannels hpieces' hgives hend
      have hrest := ih (hchannels ▸ hch) hpieces'
        (fun n hn => hchannels ▸ hout n (List.mem_cons_of_mem _ hn))
        fun hmem => hend (List.mem_cons_of_mem _ hmem)
      cases hgives with
      | frames _ _ _ hsize => exact Nat.succ_le_of_lt (Nat.lt_of_le_of_lt hrest hsize)
      | eof _ _ _ => exact absurd List.mem_cons_self hend
      | failed _ hsize => exact Nat.succ_le_of_lt (Nat.lt_of_le_of_lt hrest hsize)

theorem held_spawn (channels : Nat) (stdout : Arrivals) :
    (spawn channels stdout).held = stdout.bytes := rfl

end CommandCaptureSource

open CommandCaptureSource in
/-- **Reading reassembles the stream.** However the pipe cuts it and whatever buffers are used, as
long as they hold a frame: the reads return the samples of the whole frames of the stream in order,
each of them whole frames; one that returns none has come to the end of the stream, with all of its
whole frames returned; and there is such a read, once enough have been made. -/
theorem reassembles (channels : Nat) (stdout : Arrivals) (outLens : List Nat)
    (hpieces : stdout.Pieces) (hout : ∀ outLen ∈ outLens, max channels 1 ≤ outLen) :
    returned ((spawn channels stdout).reads outLens).1 <+:
        littleEndian (wholeFramesOf (max channels 1) stdout.bytes) ∧
      (∀ samples, .ok samples ∈ ((spawn channels stdout).reads outLens).1 →
        max channels 1 ∣ samples.length) ∧
      (∀ i, ((spawn channels stdout).reads outLens).1[i]? = some (.ok []) →
        ((spawn channels stdout).reads (outLens.take (i + 1))).2.stdout = [] ∧
          returned ((spawn channels stdout).reads (outLens.take i)).1 =
            littleEndian (wholeFramesOf (max channels 1) stdout.bytes)) ∧
      (stdout.size < outLens.length → .ok [] ∈ ((spawn channels stdout).reads outLens).1) := by
  have hch : 0 < (spawn channels stdout).channels := Nat.le_max_right channels 1
  have hall : ∀ outLens', outLens' ⊆ outLens →
      ∀ outLen ∈ outLens', (spawn channels stdout).channels ≤ outLen :=
    fun _ hsub outLen hmem => hout outLen (hsub hmem)
  -- one of the reads, after those before it
  have hgives : ∀ (i outLen : Nat), outLens[i]? = some outLen →
      ((spawn channels stdout).reads (outLens.take i)).2.Gives
        (((spawn channels stdout).reads (outLens.take i)).2.read outLen) := by
    intro i outLen hi
    obtain ⟨hchannels, hkept⟩ := reads_keeps hch hpieces (hall _ (List.take_subset i outLens))
    exact (read_gives (hchannels ▸ hch) hkept
      (hchannels ▸ hout outLen (List.mem_of_getElem? hi))).2.2
  refine ⟨?_, ?_, ?_, ?_⟩
  · have hreturned := reads_returned hch hpieces (hall _ (List.Subset.refl _))
    rw [held_spawn] at hreturned
    exact ⟨_, hreturned.symm⟩
  · intro samples hmem
    obtain ⟨i, hi⟩ := List.getElem?_of_mem hmem
    rw [getElem?_reads] at hi
    obtain ⟨outLen, hlen, hread⟩ := Option.map_eq_some_iff.1 hi
    obtain ⟨hchannels, -⟩ := reads_keeps hch hpieces (hall _ (List.take_subset i outLens))
    have hgive := hgives i outLen hlen
    generalize ((spawn channels stdout).reads (outLens.take i)).2.read outLen = r at hread hgive
    cases hgive with
    | @frames front _ k _ hfront _ _ =>
        rw [hchannels] at hfront
        have heven : front.length = 2 * (k * max channels 1) := by
          rw [hfront, Nat.mul_comm 2, Nat.mul_assoc]
          rfl
        rw [← Except.ok.inj hread, littleEndian, length_pairsWith _ heven]
        exact Nat.dvd_mul_left _ _
    | eof _ _ _ =>
        rw [← Except.ok.inj hread]
        exact Nat.dvd_zero _
    | failed _ _ => cases hread
  · intro i hi
    rw [getElem?_reads] at hi
    obtain ⟨outLen, hlen, hread⟩ := Option.map_eq_some_iff.1 hi
    have hreturned := reads_returned hch hpieces (hall _ (List.take_subset i outLens))
    obtain ⟨hchannels, -⟩ := reads_keeps hch hpieces (hall _ (List.take_subset i outLens))
    have htake : outLens.take (i + 1) = outLens.take i ++ [outLen] := by
      rw [List.take_add_one, hlen]
      rfl
    have hgive := hgives i outLen hlen
    rw [htake, reads_concat]
    generalize ((spawn channels stdout).reads (outLens.take i)).2.read outLen = r at hread hgive ⊢
    cases hgive with
    | @frames front _ k hk hfront _ _ =>
        -- it has returned samples
        exfalso
        rw [hchannels] at hfront
        have heven : front.length = 2 * (k * max channels 1) := by
          rw [hfront, Nat.mul_comm 2, Nat.mul_assoc]
          rfl
        have hzero := congrArg List.length (Except.ok.inj hread)
        rw [littleEndian, length_pairsWith _ heven] at hzero
        have hpos := Nat.mul_pos hk hch
        exact absurd hzero (Nat.ne_of_gt hpos)
    | eof _ hstdout hlt =>
        refine ⟨hstdout, ?_⟩
        rw [hchannels] at hlt
        rw [held_spawn, wholeFramesOf_of_lt hlt] at hreturned
        exact (hreturned.trans (List.append_nil _)).symm
    | failed _ _ => cases hread
  · intro henough
    by_contra hend
    have hle := length_le_size hch hpieces (hall _ (List.Subset.refl _)) hend
    have hsize : (spawn channels stdout).size = stdout.size := Nat.zero_add _
    omega

/-- A stereo frame that comes in pieces of three bytes and one. -/
theorem reassembles_split :
    (returned ((CommandCaptureSource.spawn 2 [some [1, 0, 2], some [0]]).reads [4, 4]).1 <+:
        littleEndian (wholeFramesOf 2 [1, 0, 2, 0])) ∧
      littleEndian (wholeFramesOf 2 [1, 0, 2, 0]) = [1, 2] := by
  have hpieces : Arrivals.Pieces [some [1, 0, 2], some [0]] := by
    intro piece hmem
    simp only [List.mem_cons, Option.some.injEq, List.not_mem_nil, or_false] at hmem
    rcases hmem with rfl | rfl <;> simp
  exact ⟨(reassembles 2 [some [1, 0, 2], some [0]] [4, 4] hpieces (by decide)).1, by decide⟩

end DialF.Audio
