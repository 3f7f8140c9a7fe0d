import DialF.Audio.Chunks
import DialF.Lib.Number

/-!
# Rates that a resampler is built with

`Config::load` takes `audio.sample_rate` as it is in the file, `WavFileSource::open` the rate in the
header of a prompt, and `CommandCaptureSource::spawn` the rate that it is given; none of them refuses
one, nor does `Resampler::new`. Positions are here the code's own, of 64 bits, and so are counts and
indices, with a sign. `process64` has no result where the loop over a chunk never ends, an index
leaves the chunk, or a count does not fit.

`resampler_meets_iff` says for which rates, and for how much of a stream, a resampler comes back.
-/

set_option autoImplicit false

namespace DialF.Audio

open DialF.Lib

/-! ## The code's own numbers -/

/-- Positions between samples, `f64`. -/
abbrev F64 := Number binary64

/-- `i64::MAX`, which `as i64` does not pass. -/
def maxI64 : Nat := 2 ^ 63 - 1

/-- `src_rate as f64 / dst_rate as f64`. -/
def ratio64 (src dst : Nat) : F64 := .ofQuotient (src * 2 ^ binary64.unit) dst

/-- Both rates are numbers themselves. -/
theorem ratio64_eq_div {src dst : Nat} (hsrc : src < 2 ^ 32) (hdst : dst < 2 ^ 32) :
    ratio64 src dst = (Number.ofNat src : F64).div (Number.ofNat dst) := by
  have hpow : 2 ^ 32 ≤ 2 ^ binary64.digits := Nat.pow_le_pow_right Nat.two_pos (by decide)
  exact (Number.div_ofNat (by decide) (Nat.lt_of_lt_of_le hsrc hpow)
    (Nat.lt_of_lt_of_le hdst hpow)).symm

theorem ratio64_ne_nan {src dst : Nat} (h : src ≠ dst) : ratio64 src dst ≠ .nan := by
  rw [ratio64, Number.ofQuotient]
  split
  · split <;> simp
  · rename_i hdst
    have hsrc : src * 2 ^ binary64.unit ≠ 0 :=
      Nat.ne_of_gt (Nat.mul_pos (by omega) (Nat.two_pow_pos _))
    rw [if_neg hsrc]
    simp

/-- What the code makes of samples, and of milliseconds. -/
structure Samples64 where
  convolve : Nat → List Int16 → Int16
  interpolate : F64 → Int16 → Int16 → Int16
  msToHops : Nat → Nat → Nat

/-- What the code computes, with its own positions. -/
def floats64 (S : Samples64) : Floats F64 where
  convolve := S.convolve
  ratio := ratio64
  zero := .zero
  add := .add
  floor pos := pos.floor maxI64
  interpolate := S.interpolate
  steps _ pos n := pos.steps maxI64 n
  msToHops := S.msToHops
  floor_zero := congrArg Int.ofNat (Number.floor_zero maxI64)
  floor_add_ratio hrates pos :=
    Int.ofNat_le.2 (Number.floor_le_floor_add maxI64 (ratio64_ne_nan hrates) pos)
  le_floor_steps := Number.le_floor_steps

variable {P : Type}

namespace LinearResampler

/-- `visitChecked`, where counts fit into 64 bits with a sign: `base as i64`, and `rel + 1`. -/
def visit64 (F : Floats P) (l : LinearResampler P) (input : List Int16) (pos : P) :
    Option (Visit Int16) :=
  if l.consumed < 2 ^ 63 ∧ F.floor pos - l.consumed + 1 < 2 ^ 63 then l.visitChecked F input pos
  else none

/-- `LinearResampler::process` with its index computed in 64 bits. -/
def process64 (F : Floats P) (l : LinearResampler P) (input : List Int16) :
    Option (LinearResampler P × List Int16) :=
  if input = [] then some (l, [])
  else
    let k := F.steps (F.ratio l.src l.dst) l.pos (l.consumed + input.length - 1)
    (tryScan (l.visit64 F input) (l.next F) (k + 1) l.pos).map fun r => (l.past input r.1, r.2)

end LinearResampler

/-- `Resampler::process`, where it comes back. -/
def Resampler.process64 (F : Floats P) : Pipe (Resampler P) Int16 Int16
  | .passthrough, input => some (.passthrough, input)
  | .decimate d, input => some (.decimate (d.process F input).1, (d.process F input).2)
  | .linear l, input => (l.process64 F input).map fun r => (.linear r.1, r.2)

/-! ## Where the rates come from -/

/-- Of the section `audio` of the configuration. -/
structure AudioConfig where
  sampleRate : UInt32

/-- What a resampler is built for. -/
inductive ResamplerUse where
  /-- `DuplexSession::start`: what is heard, for the voice detector. -/
  | session
  /-- `run_wait_for_speech`, and `run_wait_for_speech_start`, on the frames of a session. -/
  | turn
  /-- The two on a capture of their own. -/
  | bareTurn
  /-- `tee_tx`: a prompt with this rate in its header. -/
  | prompt (header : UInt32)

/-- The source rate and the destination rate. -/
def ResamplerUse.rates (cfg : AudioConfig) : ResamplerUse → Nat × Nat
  | .session | .bareTurn => (cfg.sampleRate.toNat, targetRate)
  | .turn => (targetRate, targetRate)
  | .prompt header => (header.toNat, cfg.sampleRate.toNat)

/-- The resampler that each use makes from the config. -/
def ResamplerUse.resampler (F : Floats P) (cfg : AudioConfig) : ResamplerUse → Resampler P
  | .session | .bareTurn => .new16k F cfg.sampleRate.toNat
  | .turn => .new16k F targetRate
  | .prompt header => .new F header.toNat cfg.sampleRate.toNat

theorem ResamplerUse.resampler_eq (F : Floats P) (cfg : AudioConfig) (u : ResamplerUse) :
    u.resampler F cfg = .new F (u.rates cfg).1 (u.rates cfg).2 := by
  cases u <;> rfl

theorem ResamplerUse.rates_lt (cfg : AudioConfig) (u : ResamplerUse) :
    (u.rates cfg).1 < 2 ^ 32 ∧ (u.rates cfg).2 < 2 ^ 32 := by
  have hcfg := cfg.sampleRate.toNat_lt
  have htarget : targetRate < 2 ^ 32 := by decide
  cases u with
  | session | bareTurn => exact ⟨hcfg, htarget⟩
  | turn => exact ⟨htarget, htarget⟩
  | prompt header => exact ⟨header.toNat_lt, hcfg⟩

/-- A slice of samples: no object has more than `isize::MAX` bytes. -/
abbrev Slice := { input : List Int16 // input.length < 2 ^ 62 }

/-- What a resampler may give for `n` samples. -/
def outputBound (src dst n : Nat) : Nat :=
  if src = dst then n else 4 * n * dst / src + 1

/-- **It comes back**, on every slice of a stream, with a bounded output. -/
def ResamplerUse.Meets (F : Floats P) (cfg : AudioConfig) (u : ResamplerUse)
    (slices : List Slice) : Prop :=
  ∃ r out, feed (Resampler.process64 F) (u.resampler F cfg) (slices.map Subtype.val) = some (r, out) ∧
    out.length ≤
      outputBound (u.rates cfg).1 (u.rates cfg).2 (slices.map Subtype.val).flatten.length

/-- Where the positions of an interpolation come to a stop. -/
def reach (src dst : Nat) : Nat :=
  if src = 0 then 0 else stop 53 src dst

/-- The rates are equal, or the first is a multiple of the second; or else the positions come to the
end of the stream, and not so far behind the end of its first slice that no count holds them. -/
def Endures (src dst : Nat) (slices : List (List Int16)) : Prop :=
  src = dst ∨ (dst < src ∧ 0 < dst ∧ src % dst = 0) ∨
    slices.flatten.length ≤ 2 ^ 63 ∧
      if dst = 0 then ∀ slice ∈ slices.find? (· ≠ []), slice.length = 1
      else slices.flatten.length ≤ reach src dst + 1

/-! ## The loop, with its failures -/

variable {F : Floats P}

namespace LinearResampler

variable {l : LinearResampler P} {input : List Int16}

theorem visit_of_visit64 (hne : input ≠ []) (pos : P) (v : Visit Int16)
    (h : l.visit64 F input pos = some v) : l.visit F input pos = v := by
  rw [visit64] at h
  split at h
  · rw [visitChecked_eq F l hne] at h
    exact Option.some.inj h
  · exact absurd h (by simp)

theorem visit64_eq (hne : input ≠ []) {pos : P} (hconsumed : l.consumed < 2 ^ 63)
    (hfloor : F.floor pos - l.consumed + 1 < 2 ^ 63) :
    l.visit64 F input pos = some (l.visit F input pos) := by
  rw [visit64, if_pos ⟨hconsumed, hfloor⟩, visitChecked_eq F l hne]

/-- A loop that comes back does what the unchecked one does. -/
theorem process_of_process64 {r : LinearResampler P × List Int16}
    (h : l.process64 F input = some r) : l.process F input = some r := by
  rw [process64] at h
  rw [process]
  split at h
  · rename_i hnil
    rwa [if_pos hnil]
  · rename_i hne
    rw [if_neg hne]
    obtain ⟨s, hs, rfl⟩ := Option.map_eq_some_iff.1 h
    show (scan (l.visit F input) (l.next F) (_ + 1) l.pos).map _ = _
    rw [scan_of_tryScan (visit_of_visit64 hne) hs]
    rfl

/-- However long it may take, it makes no difference to what comes back. -/
theorem process64_eq_some_iff (hne : input ≠ []) {l' : LinearResampler P} {out : List Int16} :
    l.process64 F input = some (l', out) ↔
      ∃ k pos, tryScan (l.visit64 F input) (l.next F) k l.pos = some (pos, out) ∧
        l' = l.past input pos := by
  constructor
  · intro h
    rw [process64, if_neg hne] at h
    obtain ⟨s, hs, heq⟩ := Option.map_eq_some_iff.1 h
    obtain ⟨rfl, rfl⟩ := Prod.mk.inj heq
    exact ⟨_, s.1, hs, rfl⟩
  · rintro ⟨k, pos, h, rfl⟩
    have hscans := scans_of_scan (scan_of_tryScan (visit_of_visit64 hne) h)
    have hprocess := (process_eq_some_iff hne).2 ⟨pos, hscans, rfl⟩
    rw [process, if_neg hne] at hprocess
    obtain ⟨s, hs, -⟩ := Option.map_eq_some_iff.1 hprocess
    rw [process64, if_neg hne]
    show (tryScan (l.visit64 F input) (l.next F) (_ + 1) l.pos).map _ = _
    rw [tryScan_of_scan (visit_of_visit64 hne) h hs]
    rfl

/-- Where nothing fails at the positions that it comes to, neither does the loop. -/
theorem process64_eq
    (hvisit : input ≠ [] → ∀ i, (∀ j < i, l.visit F input ((l.next F)^[j] l.pos) ≠ .stop) →
      l.visit64 F input ((l.next F)^[i] l.pos) = some (l.visit F input ((l.next F)^[i] l.pos))) :
    l.process64 F input = l.process F input := by
  rw [process64, process]
  by_cases hnil : input = []
  · rw [if_pos hnil, if_pos hnil]
  · rw [if_neg hnil, if_neg hnil]
    simp only
    rw [tryScan_eq_scan (hvisit hnil)]

end LinearResampler

theorem Resampler.process_of_process64 {r : Resampler P} {input : List Int16}
    {s : Resampler P × List Int16} (h : r.process64 F input = some s) :
    r.process F input = some s := by
  cases r with
  | passthrough | decimate => exact h
  | linear l =>
      obtain ⟨t, ht, rfl⟩ := Option.map_eq_some_iff.1 h
      rw [process, LinearResampler.process_of_process64 ht]
      rfl

/-! ## Positions -/

section Positions

variable {src dst : Nat}

/-- The position after `k` samples have come out. -/
def position (src dst k : Nat) : F64 := (fun pos : F64 => pos.add (ratio64 src dst))^[k] .zero

/-- The whole part of it. -/
def wholePosition (src dst k : Nat) : Nat := (position src dst k).floor maxI64

theorem wholePosition_le (src dst k : Nat) : wholePosition src dst k ≤ maxI64 :=
  Number.floor_le maxI64 _

theorem small_binary64 (hsrc : 0 < src) (hsrc' : src < 2 ^ 32) (hdst : 0 < dst)
    (hdst' : dst < 2 ^ 32) : Number.Small binary64 32 src dst where
  digits := by decide
  unit := by decide
  top := by decide
  num_pos := hsrc
  num_lt := hsrc'
  den_pos := hdst
  den_lt := hdst'

/-- A ratio of zero stays where it is. -/
theorem wholePosition_zero (hdst : 0 < dst) (k : Nat) : wholePosition 0 dst k = 0 := by
  rw [wholePosition, position, ratio64, Number.iterate_add_zero_div hdst, Number.floor_zero]

/-- With a rate of zero to convert to, the second position is behind everything. -/
theorem wholePosition_succ_zero (hsrc : 0 < src) (k : Nat) :
    wholePosition src 0 (k + 1) = maxI64 := by
  rw [wholePosition, position, ratio64, Number.iterate_add_div_zero hsrc]
  rfl

theorem wholePosition_first (src dst : Nat) : wholePosition src dst 0 = 0 := Number.floor_zero maxI64

/-- A position that is not near the last index is not followed by one that is behind it. -/
theorem wholePosition_succ_lt (hsrc : src < 2 ^ 32) (hdst : 0 < dst) (hdst' : dst < 2 ^ 32) {k : Nat}
    (h : wholePosition src dst k + 1 < 2 ^ 62) : wholePosition src dst (k + 1) + 1 < 2 ^ 63 := by
  rcases Nat.eq_zero_or_pos src with rfl | hpos
  · rw [wholePosition_zero hdst]
    decide
  · have hbefore : wholePosition src dst k < 2 ^ 30 * 2 ^ 32 := by omega
    have hle : wholePosition src dst (k + 1) ≤ (2 ^ 30 + 1) * 2 ^ 32 :=
      Number.floor_succ_le (small_binary64 hpos hsrc hdst hdst') (by decide) (by decide) hbefore
    omega

end Positions

/-! ## A stream -/

section Stream

variable {S : Samples64} {src dst : Nat} {l : LinearResampler F64} {input : List Int16}

/-- An interpolation with these rates, at one of the positions that it comes to; before its first
sample, at the first of them. -/
structure Along (src dst : Nat) (l : LinearResampler F64) : Prop where
  src_eq : l.src = src
  dst_eq : l.dst = dst
  pos_eq : ∃ k, l.pos = position src dst k ∧ (l.consumed = 0 → k = 0)

theorem along_new (src dst : Nat) :
    Along src dst (.new (floats64 S) src dst) :=
  ⟨rfl, rfl, 0, rfl, fun _ => rfl⟩

theorem Along.iterate (h : Along src dst l) {k : Nat} (hk : l.pos = position src dst k) (i : Nat) :
    (l.next (floats64 S))^[i] l.pos = position src dst (i + k) := by
  have hnext : l.next (floats64 S) =
      fun pos : F64 => pos.add (ratio64 src dst) := by
    funext pos
    show pos.add (ratio64 l.src l.dst) = _
    rw [h.src_eq, h.dst_eq]
  rw [hk, hnext, position, position, Function.iterate_add_apply]

theorem Along.process (h : Along src dst l) {r : LinearResampler F64 × List Int16}
    (hr : l.process (floats64 S) input = some r) :
    Along src dst r.1 ∧ r.1.consumed = l.consumed + input.length := by
  obtain ⟨k, hk, hfirst⟩ := h.pos_eq
  by_cases hne : input = []
  · rw [LinearResampler.process, if_pos hne] at hr
    obtain rfl := Option.some.inj hr
    rw [hne]
    exact ⟨h, rfl⟩
  · obtain ⟨l', out⟩ := r
    obtain ⟨pos, hscans, rfl⟩ := (LinearResampler.process_eq_some_iff hne).1 hr
    obtain ⟨-, i, hi⟩ := hscans.exists_stop
    refine ⟨⟨h.src_eq, h.dst_eq, i + k, ?_, ?_⟩, rfl⟩
    · exact hi.symm.trans (h.iterate hk i)
    · intro hzero
      have hpos := List.length_pos_of_ne_nil hne
      have hconsumed : l.consumed + input.length = 0 := hzero
      omega

theorem Along.visit_eq_stop_iff (h : Along src dst l) {k : Nat} (hk : l.pos = position src dst k)
    (i : Nat) :
    l.visit (floats64 S) input
        ((l.next (floats64 S))^[i] l.pos) = .stop ↔
      l.consumed + input.length ≤ wholePosition src dst (i + k) + 1 := by
  rw [LinearResampler.visit_eq_stop_iff, h.iterate hk]
  show ((l.consumed : Int) + input.length ≤ (wholePosition src dst (i + k) : Int) + 1) ↔ _
  omega

/-- **Nothing fails** in a chunk, up to `2 ^ 63` samples in all; and where the rate to convert to is
zero, unless the first chunk has a second sample. -/
theorem Along.process64_eq (h : Along src dst l) (hsrc : src < 2 ^ 32) (hdst : dst < 2 ^ 32)
    (hinput : input.length < 2 ^ 62) (htotal : l.consumed + input.length ≤ 2 ^ 63)
    (hzero : dst = 0 → l.consumed = 0 → input.length ≤ 1) :
    l.process64 (floats64 S) input =
      l.process (floats64 S) input := by
  obtain ⟨k, hk, hfirst⟩ := h.pos_eq
  apply LinearResampler.process64_eq
  intro hne i hgo
  have hpos := List.length_pos_of_ne_nil hne
  apply LinearResampler.visit64_eq hne (by omega)
  rw [h.iterate hk]
  show (wholePosition src dst (i + k) : Int) - l.consumed + 1 < 2 ^ 63
  have hmax := wholePosition_le src dst (i + k)
  have hmax' : maxI64 < 2 ^ 63 := by decide
  rcases Nat.eq_zero_or_pos l.consumed with hnone | hsome
  · obtain rfl := hfirst hnone
    cases i with
    | zero =>
        rw [Nat.add_zero, wholePosition_first]
        omega
    | succ i =>
        have hbefore : ¬ input.length ≤ wholePosition src dst i + 1 := by
          have hgo' := hgo i (Nat.lt_succ_self i)
          rw [Ne, h.visit_eq_stop_iff hk] at hgo'
          simpa only [hnone, Nat.zero_add, Nat.add_zero] using hgo'
        rcases Nat.eq_zero_or_pos dst with rfl | hdstpos
        · have hone := hzero rfl hnone
          omega
        · have hlt := wholePosition_succ_lt hsrc hdstpos hdst (k := i) (by omega)
          simp only [Nat.add_zero]
          omega
  · omega

/-- A stream in slices, likewise. -/
theorem Along.feed_process64 (hsrc : src < 2 ^ 32) (hdst : dst < 2 ^ 32)
    {slices : List (List Int16)} (h : Along src dst l)
    (hslices : ∀ slice ∈ slices, slice.length < 2 ^ 62)
    (htotal : l.consumed + slices.flatten.length ≤ 2 ^ 63)
    (hzero : dst = 0 → l.consumed = 0 → ∀ slice ∈ slices.find? (· ≠ []), slice.length = 1) :
    feed (Resampler.process64 (floats64 S)) (.linear l) slices =
      feed (Resampler.process (floats64 S)) (.linear l) slices := by
  induction slices generalizing l with
  | nil => rfl
  | cons slice slices ih =>
      rw [List.flatten_cons, List.length_append] at htotal
      have hslice := hslices slice List.mem_cons_self
      have hfirst : dst = 0 → l.consumed = 0 → slice.length ≤ 1 := by
        intro hdst hnone
        by_cases hne : slice = []
        · rw [hne]
          exact Nat.zero_le 1
        · exact Nat.le_of_eq (hzero hdst hnone slice (by simp [hne]))
      have hsame := h.process64_eq (S := S) hsrc hdst hslice (by omega) hfirst
      rw [feed, feed, Resampler.process64, Resampler.process, hsame]
      cases hr : l.process (floats64 S) slice with
      | none => rfl
      | some r =>
          obtain ⟨halong, hconsumed⟩ := h.process hr
          rw [Option.map_some, Option.bind_some, Option.bind_some]
          rw [ih halong (fun s hs => hslices s (List.mem_cons_of_mem _ hs)) (by omega)]
          intro hdst hnone s hs
          have hnil : slice = [] := by
            apply List.eq_nil_of_length_eq_zero
            omega
          apply hzero hdst (by omega) s
          rw [hnil]
          simpa using hs

/-- In a first chunk with a second sample, there is something to give at the first position. -/
theorem visit64_first (src dst : Nat) (hinput : 2 ≤ input.length) :
    ∃ b, (LinearResampler.new (floats64 S) src dst).visit64
      (floats64 S) input
        (LinearResampler.new (floats64 S) src dst).pos =
          some (.emit b) := by
  have hfloor : (floats64 S).floor
      (LinearResampler.new (floats64 S) src dst).pos = 0 :=
    (floats64 S).floor_zero
  have hconsumed :
      (LinearResampler.new (floats64 S) src dst).consumed = 0 := rfl
  have hne : input ≠ [] := by
    rintro rfl
    exact absurd hinput (by decide)
  rw [LinearResampler.visit64_eq hne (by rw [hconsumed]; decide) (by rw [hfloor, hconsumed]; decide)]
  simp only [LinearResampler.visit, hfloor, hconsumed]
  rw [if_neg (by decide), if_neg (by omega)]
  exact ⟨_, rfl⟩

/-- With a rate of zero to convert to, the count of the second position does not fit. -/
theorem visit64_second (hsrc : 0 < src) :
    (LinearResampler.new (floats64 S) src 0).visit64
      (floats64 S) input
        ((LinearResampler.new (floats64 S) src 0).next
          (floats64 S)
          (LinearResampler.new (floats64 S) src 0).pos) = none := by
  have hfloor : (floats64 S).floor
      ((LinearResampler.new (floats64 S) src 0).next
        (floats64 S)
        (LinearResampler.new (floats64 S) src 0).pos) = (maxI64 : Int) := by
    have hnext := (along_new (S := S) src 0).iterate (S := S) (k := 0) rfl 1
    rw [Function.iterate_one] at hnext
    rw [hnext]
    exact congrArg Int.ofNat (wholePosition_succ_zero hsrc 0)
  have hconsumed :
      (LinearResampler.new (floats64 S) src 0).consumed = 0 := rfl
  rw [LinearResampler.visit64, if_neg]
  rw [hfloor, hconsumed]
  decide

/-- A first slice with a second sample is too much for a rate of zero to convert to. -/
theorem length_eq_one_of_feed (hsrc : 0 < src) {slices : List (List Int16)}
    {s : Resampler F64 × List Int16}
    (h : feed (Resampler.process64 (floats64 S))
      (.linear (.new (floats64 S) src 0)) slices = some s) :
    ∀ slice ∈ slices.find? (· ≠ []), slice.length = 1 := by
  induction slices generalizing s with
  | nil => simp
  | cons slice slices ih =>
      obtain ⟨⟨r, out⟩, hr, hrest⟩ := Option.bind_eq_some_iff.1 h
      obtain ⟨⟨l', out'⟩, hl', heq⟩ := Option.map_eq_some_iff.1 hr
      obtain ⟨rfl, rfl⟩ := Prod.mk.inj heq
      by_cases hne : slice = []
      · subst hne
        obtain ⟨rfl, rfl⟩ := Prod.mk.inj (Option.some.inj hl')
        obtain ⟨s', hs', -⟩ := Option.map_eq_some_iff.1 hrest
        simpa using ih hs'
      · have hpos := List.length_pos_of_ne_nil hne
        intro slice' hslice'
        have hfind : slice' = slice := by
          rw [List.find?_cons_of_pos (by simpa using hne)] at hslice'
          exact (Option.some.inj hslice').symm
        rw [hfind]
        by_contra hone
        obtain ⟨k, pos, hscan, -⟩ := (LinearResampler.process64_eq_some_iff hne).1 hl'
        obtain ⟨b, hemit⟩ := visit64_first (S := S) src 0 (show 2 ≤ slice.length by omega)
        cases k with
        | zero => exact absurd hscan (by simp [tryScan])
        | succ k =>
            rw [tryScan, hemit] at hscan
            obtain ⟨s, hs, -⟩ := Option.map_eq_some_iff.1 hscan
            cases k with
            | zero => exact absurd hs (by simp [tryScan])
            | succ k =>
                rw [tryScan, visit64_second hsrc] at hs
                exact absurd hs (by simp)

end Stream

/-! ## Where a resampler comes back -/

section Endures

variable {S : Samples64} {src dst : Nat} {input : List Int16}

/-- The loop over all of a stream ends where its positions come to the last sample. -/
theorem exists_wholePosition {slices : List (List Int16)} {s : Resampler F64 × List Int16}
    (h : feed (Resampler.process64 (floats64 S)) (.linear (.new (floats64 S) src dst)) slices =
      some s) (hrates : src ≠ dst) :
    ∃ k, slices.flatten.length ≤ wholePosition src dst k + 1 := by
  have hfeed := feed_of_feed (fun _ _ _ => Resampler.process_of_process64) h
  have hwf : (Resampler.linear (.new (floats64 S) src dst)).Wf := hrates
  rw [(seamless_process (floats64 S)).feed_eq slices hwf] at hfeed
  obtain ⟨⟨l, out⟩, hl, -⟩ := Option.map_eq_some_iff.1 hfeed
  by_cases hne : slices.flatten = []
  · rw [hne]
    exact ⟨0, Nat.zero_le _⟩
  · obtain ⟨pos, hscans, -⟩ := (LinearResampler.process_eq_some_iff hne).1 hl
    obtain ⟨hstop, i, hi⟩ := hscans.exists_stop
    rw [← hi] at hstop
    have hle := ((along_new (S := S) src dst).visit_eq_stop_iff (k := 0) rfl i).1 hstop
    have hconsumed : (LinearResampler.new (floats64 S) src dst).consumed = 0 := rfl
    rw [hconsumed, Nat.zero_add] at hle
    exact ⟨i + 0, hle⟩

/-- How far the positions of a ratio come. -/
theorem wholePosition_le_reach (hsrc : src < 2 ^ 32) (hdst : dst < 2 ^ 32) (hpos : 0 < dst)
    (k : Nat) : wholePosition src dst k ≤ reach src dst := by
  rw [reach]
  split
  · rename_i hzero
    subst hzero
    exact Nat.le_of_eq (wholePosition_zero hpos k)
  · rename_i hzero
    exact Number.floor_iterate_le
      (small_binary64 (Nat.pos_of_ne_zero hzero) hsrc hpos hdst) maxI64 k

/-- They come so far. -/
theorem exists_reach_le (hsrc : src < 2 ^ 32) (hdst : dst < 2 ^ 32) (hpos : 0 < dst) :
    ∃ k, min (reach src dst) maxI64 ≤ wholePosition src dst k := by
  rw [reach]
  split
  · exact ⟨0, Nat.le_trans (Nat.min_le_left _ _) (Nat.zero_le _)⟩
  · rename_i hzero
    exact Number.exists_stop_le_floor
      (small_binary64 (Nat.pos_of_ne_zero hzero) hsrc hpos hdst) maxI64

/-- An interpolation that comes back endures its stream. -/
theorem endures_of_feed (hsrc : src < 2 ^ 32) (hdst : dst < 2 ^ 32) (hrates : src ≠ dst)
    {slices : List (List Int16)} {s : Resampler F64 × List Int16}
    (h : feed (Resampler.process64 (floats64 S)) (.linear (.new (floats64 S) src dst)) slices =
      some s) : Endures src dst slices := by
  obtain ⟨k, hk⟩ := exists_wholePosition h hrates
  have hmax := wholePosition_le src dst k
  have hmax' : maxI64 + 1 = 2 ^ 63 := by decide
  refine Or.inr (Or.inr ⟨by omega, ?_⟩)
  split
  · rename_i hzero
    subst hzero
    exact length_eq_one_of_feed (Nat.pos_of_ne_zero hrates) h
  · rename_i hzero
    have hreach := wholePosition_le_reach hsrc hdst (Nat.pos_of_ne_zero hzero) k
    omega

/-- It does not skip anything. -/
theorem visit_new_ne_skip64 (src dst i : Nat) :
    (LinearResampler.new (floats64 S) src dst).visit (floats64 S) input
      (((LinearResampler.new (floats64 S) src dst).next (floats64 S))^[i]
        (LinearResampler.new (floats64 S) src dst).pos) ≠ .skip := by
  have hfloor : 0 ≤ (floats64 S).floor (position src dst (i + 0)) := Int.natCast_nonneg _
  have hconsumed : (LinearResampler.new (floats64 S) src dst).consumed = 0 := rfl
  rw [(along_new (S := S) src dst).iterate (S := S) (k := 0) rfl i, LinearResampler.visit]
  simp only [hconsumed]
  rw [if_neg (by omega)]
  split <;> simp

/-- What an interpolation gives for a stream whose end it comes to. -/
theorem length_le_of_process (hsrc : src < 2 ^ 32) (hdst : dst < 2 ^ 32) (hrates : src ≠ dst)
    (htotal : input.length ≤ 2 ^ 63) (hreach : 0 < dst → input.length ≤ reach src dst + 1)
    {l : LinearResampler F64} {out : List Int16}
    (h : (LinearResampler.new (floats64 S) src dst).process (floats64 S) input = some (l, out)) :
    out.length ≤ 4 * input.length * dst / src + 1 := by
  by_cases hne : input = []
  · rw [LinearResampler.process, if_pos hne] at h
    obtain ⟨-, rfl⟩ := Prod.mk.inj (Option.some.inj h)
    exact Nat.zero_le _
  obtain ⟨pos, hscans, -⟩ := (LinearResampler.process_eq_some_iff hne).1 h
  obtain ⟨-, hgo⟩ := hscans.length_eq (visit_new_ne_skip64 src dst)
  cases hlength : out.length with
  | zero => exact Nat.zero_le _
  | succ k =>
      -- the position that gave the last one is before the end
      have hbefore := hgo k (hlength ▸ Nat.lt_succ_self k)
      rw [Ne, (along_new (S := S) src dst).visit_eq_stop_iff (k := 0) rfl] at hbefore
      have hconsumed : (LinearResampler.new (floats64 S) src dst).consumed = 0 := rfl
      rw [hconsumed, Nat.zero_add] at hbefore
      have hlt : wholePosition src dst k + 1 < input.length := Nat.lt_of_not_le hbefore
      apply Nat.succ_le_succ
      rcases Nat.eq_zero_or_pos dst with rfl | hpos
      · cases k with
        | zero => exact Nat.zero_le _
        | succ k =>
            rw [wholePosition_succ_zero (Nat.pos_of_ne_zero hrates)] at hlt
            have hmax : maxI64 + 1 = 2 ^ 63 := by decide
            omega
      · have hend := hreach hpos
        rw [reach] at hend
        split at hend
        · omega
        · rename_i hzero
          have hsrcpos := Nat.pos_of_ne_zero hzero
          have hmax : maxI64 + 1 = 2 ^ 63 := by decide
          have hdigits : stop binary64.digits src dst = stop 53 src dst := rfl
          have hgain : k * src ≤ 4 * (input.length - 1) * dst :=
            Number.mul_le_of_floor_lt (small_binary64 hsrcpos hsrc hpos hdst)
              (show input.length - 1 ≤ maxI64 by omega) (by rw [hdigits]; omega)
              (show wholePosition src dst k < input.length - 1 by omega)
          apply (Nat.le_div_iff_mul_le hsrcpos).2
          calc k * src ≤ 4 * (input.length - 1) * dst := hgain
            _ ≤ 4 * input.length * dst :=
                Nat.mul_le_mul_right _ (Nat.mul_le_mul_left 4 (Nat.sub_le _ 1))

/-- **An interpolation comes back** from a stream that it endures. -/
theorem feed_linear_of_endures (hsrc : src < 2 ^ 32) (hdst : dst < 2 ^ 32) (hrates : src ≠ dst)
    {slices : List (List Int16)} (hslices : ∀ slice ∈ slices, slice.length < 2 ^ 62)
    (htotal : slices.flatten.length ≤ 2 ^ 63)
    (hends : if dst = 0 then ∀ slice ∈ slices.find? (· ≠ []), slice.length = 1
      else slices.flatten.length ≤ reach src dst + 1) :
    ∃ r out, feed (Resampler.process64 (floats64 S)) (.linear (.new (floats64 S) src dst)) slices =
        some (r, out) ∧
      out.length ≤ 4 * slices.flatten.length * dst / src + 1 := by
  have hconsumed : (LinearResampler.new (floats64 S) src dst).consumed = 0 := rfl
  have hzero : dst = 0 → ∀ slice ∈ slices.find? (· ≠ []), slice.length = 1 := by
    intro h
    rwa [if_pos h] at hends
  have hreach : 0 < dst → slices.flatten.length ≤ reach src dst + 1 := by
    intro h
    rwa [if_neg (Nat.ne_of_gt h)] at hends
  have hwf : (Resampler.linear (.new (floats64 S) src dst)).Wf := hrates
  rw [(along_new (S := S) src dst).feed_process64 hsrc hdst hslices
    (by rw [hconsumed]; omega) (fun h _ => hzero h), (seamless_process (floats64 S)).feed_eq slices hwf]
  generalize slices.flatten = input at *
  -- its positions come to the end
  have hend : ∃ k, input.length ≤ wholePosition src dst k + 1 := by
    have hmax : maxI64 + 1 = 2 ^ 63 := by decide
    rcases Nat.eq_zero_or_pos dst with rfl | hpos
    · refine ⟨1, ?_⟩
      rw [wholePosition_succ_zero (Nat.pos_of_ne_zero hrates)]
      omega
    · obtain ⟨k, hk⟩ := exists_reach_le hsrc hdst hpos
      have hle := hreach hpos
      exact ⟨k, by omega⟩
  have hsome : ∃ l out, (LinearResampler.new (floats64 S) src dst).process (floats64 S) input =
      some (l, out) := by
    by_cases hne : input = []
    · rw [LinearResampler.process, if_pos hne]
      exact ⟨_, _, rfl⟩
    · obtain ⟨k, hk⟩ := hend
      have hstop : LinearResampler.visit (floats64 S) (.new (floats64 S) src dst) input
          ((LinearResampler.next (floats64 S) (.new (floats64 S) src dst))^[k]
            (LinearResampler.new (floats64 S) src dst).pos) = .stop := by
        apply ((along_new src dst).visit_eq_stop_iff (k := 0) rfl k).2
        rw [hconsumed, Nat.zero_add]
        exact hk
      obtain ⟨r, hr⟩ := exists_scan_of_stop hstop
      exact ⟨_, r.2, (LinearResampler.process_eq_some_iff hne).2 ⟨r.1, scans_of_scan hr, rfl⟩⟩
  obtain ⟨l, out, hprocess⟩ := hsome
  refine ⟨.linear l, out, ?_, length_le_of_process hsrc hdst hrates htotal hreach hprocess⟩
  rw [Resampler.process, hprocess]
  rfl

/-- The other resamplers have no loop that could fail. -/
theorem feed_process64_eq {r : Resampler F64} (hr : ∀ l, r ≠ .linear l)
    (slices : List (List Int16)) :
    feed (Resampler.process64 (floats64 S)) r slices =
      feed (Resampler.process (floats64 S)) r slices := by
  induction slices generalizing r with
  | nil => rfl
  | cons slice slices ih =>
      cases r with
      | passthrough =>
          simp only [feed, Resampler.process64, Resampler.process, Option.bind_some]
          rw [ih (by simp)]
      | decimate d =>
          simp only [feed, Resampler.process64, Resampler.process, Option.bind_some]
          rw [ih (by simp)]
      | linear l => exact absurd rfl (hr l)

/-- **For any two rates**: a resampler comes back, with no more than it may give, exactly from the
streams that it endures. -/
theorem comesBack_iff (S : Samples64) (hsrc : src < 2 ^ 32) (hdst : dst < 2 ^ 32)
    {slices : List (List Int16)} (hslices : ∀ slice ∈ slices, slice.length < 2 ^ 62) :
    (∃ r out, feed (Resampler.process64 (floats64 S)) (.new (floats64 S) src dst) slices =
        some (r, out) ∧ out.length ≤ outputBound src dst slices.flatten.length) ↔
      Endures src dst slices := by
  rw [Resampler.new]
  by_cases hsame : src = dst
  · rw [if_pos hsame, feed_process64_eq (by simp),
      (seamless_process (floats64 S)).feed_eq (s := .passthrough) slices trivial]
    refine iff_of_true ⟨_, _, rfl, ?_⟩ (Or.inl hsame)
    rw [outputBound, if_pos hsame]
  · rw [if_neg hsame]
    by_cases hwhole : dst < src ∧ 0 < dst ∧ src % dst = 0
    · rw [if_pos hwhole, feed_process64_eq (by simp),
        (seamless_process (floats64 S)).feed_eq (s := .decimate (.new (src / dst))) slices trivial]
      refine iff_of_true ⟨_, _, rfl, ?_⟩ (Or.inr (Or.inl hwhole))
      obtain ⟨hlt, hpos, hmod⟩ := hwhole
      have hfactor : 0 < src / dst := Nat.div_pos (Nat.le_of_lt hlt) hpos
      have hmax : (Decimator.new (src / dst)).factor = src / dst := Nat.max_eq_left hfactor
      have hphase : (Decimator.new (src / dst)).phase = 0 := rfl
      rw [Decimator.length_process _ (by rw [hmax, hphase]; exact hfactor), hmax, hphase,
        Nat.zero_add, outputBound, if_neg hsame]
      apply Nat.le_succ_of_le
      have hmul : src / dst * dst = src := Nat.div_mul_cancel (Nat.dvd_of_mod_eq_zero hmod)
      apply (Nat.le_div_iff_mul_le (Nat.lt_trans hpos hlt)).2
      calc slices.flatten.length / (src / dst) * src
          = slices.flatten.length / (src / dst) * (src / dst) * dst := by
            rw [Nat.mul_assoc, hmul]
        _ ≤ slices.flatten.length * dst := Nat.mul_le_mul_right _ (Nat.div_mul_le_self _ _)
        _ ≤ 4 * slices.flatten.length * dst := Nat.mul_le_mul_right _ (by omega)
    · rw [if_neg hwhole, outputBound, if_neg hsame]
      constructor
      · rintro ⟨r, out, h, -⟩
        exact endures_of_feed hsrc hdst hsame h
      · rintro (h | h | ⟨htotal, hends⟩)
        · exact absurd h hsame
        · exact absurd h hwhole
        · exact feed_linear_of_endures hsrc hdst hsame hslices htotal hends

end Endures

/-! ## The rates that are admitted -/

/-- **For every rate that is read**, a resampler comes back exactly from the streams that it endures:
an interpolation, from all of the stream up to where its positions stop. -/
theorem resampler_meets_iff (S : Samples64) (cfg : AudioConfig) (u : ResamplerUse)
    (slices : List Slice) :
    u.Meets (floats64 S) cfg slices ↔
      Endures (u.rates cfg).1 (u.rates cfg).2 (slices.map Subtype.val) := by
  obtain ⟨hsrc, hdst⟩ := u.rates_lt cfg
  have hslices : ∀ slice ∈ slices.map Subtype.val, slice.length < 2 ^ 62 := by
    intro slice hmem
    obtain ⟨⟨_, hlt⟩, -, rfl⟩ := List.mem_map.1 hmem
    exact hlt
  rw [ResamplerUse.Meets, u.resampler_eq]
  exact comesBack_iff S hsrc hdst hslices

/-- A prompt with a rate of zero in its header, and two samples. -/
theorem not_meets_zeroHeader :
    ¬ (ResamplerUse.prompt 0).Meets
      (floats64 ⟨fun _ window => window.headD 0, fun _ lo _ => lo, fun _ ms => ms⟩) ⟨48000⟩
      [⟨[1, 2], by decide⟩] := by
  intro h
  rw [ResamplerUse.Meets, ResamplerUse.resampler_eq] at h
  have hends := (comesBack_iff _ (by decide) (by decide) (by simp)).1 h
  rcases hends with h | h | ⟨-, h⟩
  · exact absurd h (by decide)
  · exact absurd h (by decide)
  · exact absurd h (by decide)

end DialF.Audio
