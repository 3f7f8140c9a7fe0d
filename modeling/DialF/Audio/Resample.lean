import Mathlib.Algebra.Order.Field.Rat
import Mathlib.Data.List.GetD
import Mathlib.Data.Nat.Cast.Order.Field
import Mathlib.Tactic.Linarith
import DialF.Lib.Stream

/-!
# Resampling

The streaming resamplers of `audio/resample.rs`: a pass through where the rates are equal, a
decimation with a low-pass where the source rate is a multiple of the other, a linear interpolation
otherwise. What they compute in floating point is a parameter (`Floats`), of which the code needs
that positions never go back. The loop of the interpolation ends only where the position leaves the
input, so that a chunk has no result where it never does.

`seamless_process` says that it makes no difference to a resampler how its input is cut.
-/

set_option autoImplicit false

namespace DialF.Audio

open DialF.Lib

/-- Rate of the voice detector's path. -/
def targetRate : Nat := 16000

/-- What the code computes in floating point, with `P` for the positions between samples. -/
structure Floats (P : Type) where
  /-- The dot product of a full window with the taps of `design_lowpass` for a factor, clamped. -/
  convolve : Nat → List Int16 → Int16
  /-- `src_rate as f64 / dst_rate as f64`. -/
  ratio : Nat → Nat → P
  zero : P
  add : P → P → P
  /-- `pos.floor() as i64`. -/
  floor : P → Int
  /-- Between two samples, at the fractional part of a position, clamped. -/
  interpolate : P → Int16 → Int16 → Int16
  /-- How often a ratio has to be added for a position to come to an index, where it ever does. -/
  steps : P → P → Int → Nat
  /-- `ms_to_hops`, from a hop size and milliseconds. -/
  msToHops : Nat → Nat → Nat
  floor_zero : floor zero = 0
  floor_add_ratio : ∀ {src dst : Nat}, src ≠ dst → ∀ pos, floor pos ≤ floor (add pos (ratio src dst))
  le_floor_steps : ∀ {step pos : P} {n : Int}, (∃ k, n ≤ floor ((fun pos => add pos step)^[k] pos)) →
    n ≤ floor ((fun pos => add pos step)^[steps step pos n] pos)

variable {P : Type}

/-- Rounding to the nearest sample, halves away from zero. -/
def roundSample (v : Rat) : Int16 :=
  Int16.ofInt (if 0 ≤ v then (v + 1 / 2).floor else -(-v + 1 / 2).floor)

/-- Exact arithmetic. A window is taken to be constant, and the taps add up to one. -/
def exactFloats : Floats Rat where
  convolve _ window := window.headD 0
  ratio src dst := src / dst
  zero := 0
  add := (· + ·)
  floor := Rat.floor
  interpolate pos lo hi := roundSample (lo.toInt + (hi.toInt - lo.toInt) * (pos - pos.floor))
  steps step pos n := if n ≤ pos.floor then 0 else ((n - pos) / step).ceil.toNat
  msToHops hopSize ms := if hopSize = 0 then 2 ^ 64 - 1 else (16 * ms + hopSize - 1) / hopSize
  floor_zero := by decide
  floor_add_ratio := by
    intro src dst _ pos
    apply Rat.floor_monotone
    exact le_add_of_nonneg_right (div_nonneg (Nat.cast_nonneg src) (Nat.cast_nonneg dst))
  le_floor_steps := by
    rintro step pos n ⟨k, hk⟩
    split
    · assumption
    · rename_i hn
      simp only [add_right_iterate_apply, nsmul_eq_mul, Rat.le_floor_iff] at *
      have hstep : 0 < step := by
        refine lt_of_not_ge fun hle => hn (hk.trans ?_)
        exact add_le_of_nonpos_right (mul_nonpos_of_nonneg_of_nonpos (Nat.cast_nonneg k) hle)
      have hceil : (n - pos) / step ≤ (((n - pos) / step).ceil.toNat : Rat) :=
        Rat.le_ceil.trans (by exact_mod_cast Int.self_le_toNat _)
      have hmul := (div_le_iff₀ hstep).1 hceil
      linarith

/-! ## The decimator -/

/-- `Decimator`: the window of the filter, and the place in the current group of samples. -/
structure Decimator where
  factor : Nat
  history : List Int16
  phase : Nat
  deriving DecidableEq

/-- The length of `design_lowpass(_, 64)`, which rounds an even length up. -/
def nTaps : Nat := 65

/-- `Decimator::new`: a window of zeros. -/
def Decimator.new (factor : Nat) : Decimator where
  factor := max factor 1
  history := List.replicate (nTaps - 1) 0
  phase := 0

/-- Slide a sample into the window; every `factor` samples, one comes out. -/
def Decimator.push (F : Floats P) (d : Decimator) (s : Int16) : Decimator × List Int16 :=
  let pushed := d.history ++ [s]
  let history := if nTaps < pushed.length then pushed.tail else pushed
  if d.phase + 1 = d.factor then
    ({ d with history, phase := 0 },
      [if history.length = nTaps then F.convolve d.factor history else s])
  else ({ d with history, phase := d.phase + 1 }, [])

/-- `Decimator::process`: push the samples one by one. -/
def Decimator.process (F : Floats P) : Decimator → List Int16 → Decimator × List Int16
  | d, [] => (d, [])
  | d, s :: input =>
      let (d', out) := d.push F s
      let (d'', rest) := Decimator.process F d' input
      (d'', out ++ rest)

/-! ## The interpolator -/

/-- `LinearResampler`, with its position counted from the first sample of the stream. -/
structure LinearResampler (P : Type) where
  src : Nat
  dst : Nat
  pos : P
  last : Int16
  primed : Bool
  consumed : Nat
  deriving DecidableEq

/-- `LinearResampler::new`: nothing consumed, and no last sample yet. -/
def LinearResampler.new (F : Floats P) (src dst : Nat) : LinearResampler P where
  src := src
  dst := dst
  pos := F.zero
  last := 0
  primed := false
  consumed := 0

namespace LinearResampler

/-- The sample at an index of a chunk; the one before it is carried over. -/
def lo (l : LinearResampler P) (input : List Int16) (rel : Int) : Int16 :=
  if rel < 0 then if l.primed then l.last else input.headD 0
  else input.getD rel.toNat 0

/-- What the loop over a chunk does at a position. -/
def visit (F : Floats P) (l : LinearResampler P) (input : List Int16) (pos : P) : Visit Int16 :=
  let rel := F.floor pos - l.consumed
  if rel < -1 then .skip
  else if input.length ≤ rel + 1 then .stop
  else .emit (F.interpolate pos (l.lo input rel) (input.getD (rel + 1).toNat 0))

/-- `self.pos += self.step`. -/
def next (F : Floats P) (l : LinearResampler P) (pos : P) : P :=
  F.add pos (F.ratio l.src l.dst)

/-- What a chunk leaves behind it. -/
def past (l : LinearResampler P) (input : List Int16) (pos : P) : LinearResampler P :=
  { l with
    pos
    consumed := l.consumed + input.length
    last := input.getLastD l.last
    primed := true }

/-- `LinearResampler::process`: the samples between the positions of this input. -/
def process (F : Floats P) (l : LinearResampler P) (input : List Int16) :
    Option (LinearResampler P × List Int16) :=
  if input = [] then some (l, [])
  else
    let k := F.steps (F.ratio l.src l.dst) l.pos (l.consumed + input.length - 1)
    (scan (l.visit F input) (l.next F) (k + 1) l.pos).map fun r => (l.past input r.1, r.2)

end LinearResampler

/-! ## The resampler -/

/-- `Resampler`: the way from one rate to the other. -/
inductive Resampler (P : Type) where
  | passthrough
  | decimate (d : Decimator)
  | linear (l : LinearResampler P)
  deriving DecidableEq

namespace Resampler

/-- `Resampler::new`: decimate by a whole factor, interpolate otherwise. -/
def new (F : Floats P) (src dst : Nat) : Resampler P :=
  if src = dst then .passthrough
  else if dst < src ∧ 0 < dst ∧ src % dst = 0 then .decimate (.new (src / dst))
  else .linear (.new F src dst)

/-- `Resampler16k::new`. -/
def new16k (F : Floats P) (src : Nat) : Resampler P := new F src targetRate

/-- `Resampler::process`. -/
def process (F : Floats P) : Pipe (Resampler P) Int16 Int16
  | .passthrough, input => some (.passthrough, input)
  | .decimate d, input => some (.decimate (d.process F input).1, (d.process F input).2)
  | .linear l, input => (l.process F input).map fun r => (.linear r.1, r.2)

end Resampler

/-! ## It makes no difference where the input is cut -/

variable {F : Floats P}

theorem Decimator.process_append (d : Decimator) (p q : List Int16) :
    d.process F (p ++ q) =
      (((d.process F p).1.process F q).1,
        (d.process F p).2 ++ ((d.process F p).1.process F q).2) := by
  induction p generalizing d with
  | nil => simp [Decimator.process]
  | cons s p ih => simp [Decimator.process, ih]

namespace LinearResampler

variable {l : LinearResampler P} {input : List Int16}

theorem floor_le_next (F : Floats P) (hrates : l.src ≠ l.dst) (pos : P) :
    F.floor pos ≤ F.floor (l.next F pos) :=
  F.floor_add_ratio hrates pos

theorem visit_eq_stop_iff {pos : P} :
    l.visit F input pos = .stop ↔ l.consumed + input.length ≤ F.floor pos + 1 := by
  simp only [visit]
  split
  · rename_i h
    simp only [reduceCtorEq, false_iff]
    omega
  · split
    · rename_i h
      simp only [true_iff]
      omega
    · rename_i h
      simp only [reduceCtorEq, false_iff]
      omega

/-- Before the end of a chunk, what follows it makes no difference. -/
theorem visit_append {q : List Int16} {pos : P} (hne : input ≠ [])
    (h : l.visit F input pos ≠ .stop) : l.visit F (input ++ q) pos = l.visit F input pos := by
  rw [Ne, visit_eq_stop_iff] at h
  simp only [visit]
  by_cases hskip : F.floor pos - l.consumed < -1
  · rw [if_pos hskip, if_pos hskip]
  · rw [if_neg hskip, if_neg hskip, if_neg (by rw [List.length_append]; omega), if_neg (by omega)]
    have hlo : l.lo (input ++ q) (F.floor pos - l.consumed) =
        l.lo input (F.floor pos - l.consumed) := by
      cases input with
      | nil => exact absurd rfl hne
      | cons s input =>
          rw [lo, lo, List.getD_append _ _ _ _ (by omega)]
          rfl
    rw [hlo, List.getD_append _ _ _ _ (by omega)]

/-- Behind a chunk, it is the last sample of the chunk that counts. -/
theorem visit_past {q : List Int16} {pos : P} (pos' : P) (hne : input ≠ [])
    (h : l.consumed + input.length ≤ F.floor pos + 1) :
    (l.past input pos').visit F q pos = l.visit F (input ++ q) pos := by
  have hpos := List.length_pos_of_ne_nil hne
  have hrel : F.floor pos - (l.consumed + input.length : Nat) =
      F.floor pos - l.consumed - input.length := by omega
  have hconsumed : (l.past input pos').consumed = l.consumed + input.length := rfl
  simp only [visit, hconsumed, List.length_append, hrel]
  rw [if_neg (by omega : ¬ F.floor pos - l.consumed - input.length < -1),
    if_neg (by omega : ¬ F.floor pos - l.consumed < -1)]
  by_cases hstop : (q.length : Int) ≤ F.floor pos - l.consumed - input.length + 1
  · rw [if_pos hstop, if_pos (by omega)]
  · rw [if_neg hstop, if_neg (by omega)]
    have hlo : (l.past input pos').lo q (F.floor pos - l.consumed - input.length) =
        l.lo (input ++ q) (F.floor pos - l.consumed) := by
      rw [lo, lo, if_neg (by omega : ¬ F.floor pos - l.consumed < 0)]
      split
      · -- the sample before the next chunk is the last one of this chunk
        have hlast : (F.floor pos - l.consumed).toNat = input.length - 1 := by omega
        rw [hlast, List.getD_append _ _ _ _ (by omega), List.getD_eq_getElem?_getD,
          ← List.getLast?_eq_getElem?]
        cases input with
        | nil => exact absurd rfl hne
        | cons s input => simp [past, List.getLastD_eq_getLast?, List.getLast?_cons]
      · rw [List.getD_append_right _ _ _ _ (by omega)]
        congr 1
        omega
    have hhi : q.getD (F.floor pos - l.consumed - input.length + 1).toNat 0 =
        (input ++ q).getD (F.floor pos - l.consumed + 1).toNat 0 := by
      rw [List.getD_append_right _ _ _ _ (by omega)]
      congr 1
      omega
    rw [hlo, hhi]

theorem scans_append (hrates : l.src ≠ l.dst) (p q : List Int16) (hne : p ≠ []) {pos : P}
    {r : P × List Int16} :
    Scans (l.visit F (p ++ q)) (l.next F) pos r ↔
      ∃ r' out, Scans (l.visit F p) (l.next F) pos r' ∧
        Scans ((l.past p r'.1).visit F q) (l.next F) r'.1 (r.1, out) ∧ r.2 = r'.2 ++ out := by
  have hvisit : ∀ pos, l.visit F p pos ≠ .stop → l.visit F (p ++ q) pos = l.visit F p pos :=
    fun pos h => visit_append hne h
  have hnext : ∀ pos, l.consumed + p.length ≤ F.floor pos + 1 →
      l.consumed + p.length ≤ F.floor (l.next F pos) + 1 := by
    intro pos hpos
    have := floor_le_next F hrates pos
    omega
  constructor
  · intro h
    obtain ⟨r', out, hr', hout, heq⟩ := h.split hvisit
    have hpos' := visit_eq_stop_iff.1 hr'.exists_stop.1
    exact ⟨r', out, hr', hout.congr hnext (fun pos hpos => (visit_past r'.1 hne hpos).symm) hpos', heq⟩
  · rintro ⟨r', out, hr', hout, heq⟩
    have hpos' := visit_eq_stop_iff.1 hr'.exists_stop.1
    have hall := hr'.append hvisit (hout.congr hnext (fun pos hpos => visit_past r'.1 hne hpos) hpos')
    rw [← heq] at hall
    exact hall

theorem past_append (p q : List Int16) (pos pos' : P) :
    l.past (p ++ q) pos' = (l.past p pos).past q pos' := by
  simp [past, Nat.add_assoc, List.getLastD_eq_getLast?, List.getLast?_append]

/-- The loop over a chunk ends where a scan of its positions does. -/
theorem process_eq_some_iff (hne : input ≠ []) {l' : LinearResampler P} {out : List Int16} :
    l.process F input = some (l', out) ↔
      ∃ pos, Scans (l.visit F input) (l.next F) l.pos (pos, out) ∧ l' = l.past input pos := by
  have hpos := List.length_pos_of_ne_nil hne
  have hsteps : (∃ i, l.visit F input ((l.next F)^[i] l.pos) = .stop) →
      l.visit F input ((l.next F)^[F.steps (F.ratio l.src l.dst) l.pos
        (l.consumed + input.length - 1)] l.pos) = .stop := by
    rintro ⟨i, hi⟩
    have hi' := visit_eq_stop_iff.1 hi
    have hreached : l.consumed + input.length - 1 ≤
        F.floor ((fun pos => F.add pos (F.ratio l.src l.dst))^[i] l.pos) := by
      change _ ≤ F.floor ((l.next F)^[i] l.pos)
      omega
    have hle := F.le_floor_steps ⟨i, hreached⟩
    apply visit_eq_stop_iff.2
    change _ ≤ F.floor ((l.next F)^[_] l.pos) at hle
    omega
  rw [process, if_neg hne, Option.map_eq_some_iff]
  constructor
  · rintro ⟨r, hr, heq⟩
    obtain ⟨rfl, rfl⟩ := Prod.mk.inj heq
    exact ⟨r.1, scans_of_scan hr, rfl⟩
  · rintro ⟨pos, h, rfl⟩
    exact ⟨(pos, out), (scan_eq_some_iff hsteps).2 h, rfl⟩

theorem process_append (hrates : l.src ≠ l.dst) (p q : List Int16) :
    l.process F (p ++ q) = (l.process F p).bind fun r => behind r.2 (r.1.process F q) := by
  by_cases hp : p = []
  · subst hp
    simp [process]
  by_cases hq : q = []
  · subst hq
    rw [List.append_nil]
    cases h : l.process F p with
    | none => rfl
    | some r => simp [process]
  have hpq : p ++ q ≠ [] := by simp [hp]
  ext ⟨l', out⟩
  simp only [Option.bind_eq_some_iff, behind, Option.map_eq_some_iff, Prod.exists,
    Prod.mk.injEq, process_eq_some_iff hpq, process_eq_some_iff hp, process_eq_some_iff hq,
    scans_append hrates p q hp]
  constructor
  · rintro ⟨pos, ⟨pos', out₁, out₂, hp', hq', rfl⟩, rfl⟩
    exact ⟨_, out₁, ⟨pos', hp', rfl⟩, _, out₂, ⟨pos, hq', rfl⟩, (past_append p q pos' pos).symm, rfl⟩
  · rintro ⟨_, out₁, ⟨pos', hp', rfl⟩, _, out₂, ⟨pos, hq', rfl⟩, rfl, rfl⟩
    exact ⟨pos, ⟨pos', out₁, out₂, hp', hq', rfl⟩, (past_append p q pos' pos).symm⟩

end LinearResampler

/-- The rates of an interpolation differ. -/
def Resampler.Wf : Resampler P → Prop
  | .linear l => l.src ≠ l.dst
  | _ => True

theorem Resampler.wf_new (F : Floats P) (src dst : Nat) : (Resampler.new F src dst).Wf := by
  rw [new]
  split
  · trivial
  · split
    · trivial
    · assumption

theorem Resampler.wf_new16k (F : Floats P) (src : Nat) : (Resampler.new16k F src).Wf :=
  Resampler.wf_new F src targetRate

/-- **Chunks do not matter** to a resampler. -/
theorem seamless_process (F : Floats P) : Seamless Resampler.Wf (Resampler.process F) where
  nil := by
    intro r hr
    cases r <;> rfl
  keeps := by
    intro r p t out hr h
    cases r with
    | passthrough =>
        obtain ⟨rfl, -⟩ := Prod.mk.inj (Option.some.inj h)
        trivial
    | decimate d =>
        obtain ⟨rfl, -⟩ := Prod.mk.inj (Option.some.inj h)
        trivial
    | linear l =>
        obtain ⟨r', hr', h⟩ := Option.map_eq_some_iff.1 h
        obtain ⟨rfl, -⟩ := Prod.mk.inj h
        rw [LinearResampler.process] at hr'
        split at hr'
        · obtain rfl := Option.some.inj hr'
          exact hr
        · obtain ⟨r, -, rfl⟩ := Option.map_eq_some_iff.1 hr'
          exact hr
  append := by
    intro r p q hr
    cases r with
    | passthrough => rfl
    | decimate d => simp [Resampler.process, Decimator.process_append]
    | linear l =>
        simp only [Resampler.process, LinearResampler.process_append hr]
        cases l.process F p with
        | none => rfl
        | some r => simp [behind, Function.comp_def]

/-- A new resampler returns where its positions come to the end of the input; only those of the
interpolation could fail to. -/
theorem Resampler.process_new_ne_none {src dst : Nat} (input : List Int16)
    (h : ∃ k, input.length ≤ F.floor ((fun pos => F.add pos (F.ratio src dst))^[k] F.zero) + 1) :
    (Resampler.new F src dst).process F input ≠ none := by
  rw [Resampler.new]
  split
  · simp [Resampler.process]
  · split
    · simp [Resampler.process]
    · obtain ⟨k, hk⟩ := h
      by_cases hne : input = []
      · simp [Resampler.process, LinearResampler.process, hne]
      · have hstop : (LinearResampler.new F src dst).visit F input
            (((LinearResampler.new F src dst).next F)^[k] F.zero) = .stop := by
          apply LinearResampler.visit_eq_stop_iff.2
          show ((0 : Nat) : Int) + input.length ≤
            F.floor ((fun pos => F.add pos (F.ratio src dst))^[k] F.zero) + 1
          omega
        obtain ⟨r, hr⟩ := exists_scan_of_stop hstop
        have hprocess := (LinearResampler.process_eq_some_iff hne).2 ⟨r.1, scans_of_scan hr, rfl⟩
        simp [Resampler.process, hprocess]

end DialF.Audio
