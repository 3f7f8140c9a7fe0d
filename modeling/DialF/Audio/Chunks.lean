import Mathlib.Data.Set.Card
import Mathlib.Tactic.GCongr
import DialF.Audio.Resample

/-!
# Chunks of a resampler's input

In exact arithmetic, with any window function, a resampler makes the same of its input whichever way
it is cut into chunks, and how many samples come out is known beforehand (`outputLength`). The loop
of the interpolation indexes its chunk, and carries the sample before it; `visitChecked` has no
result where an index is outside.
-/

set_option autoImplicit false

namespace DialF.Audio

open DialF.Lib

variable {P : Type}

/-- Exact arithmetic, with some way to convolve a window. -/
def exactWith (convolve : Nat → List Int16 → Int16) : Floats Rat :=
  { exactFloats with convolve }

/-- How many samples come out. -/
noncomputable def outputLength (src dst n : Nat) : Nat :=
  if src = dst then n
  else if dst < src ∧ src % dst = 0 then n / (src / dst)
  else Set.ncard {k : Nat | ((k * src / dst : Rat).floor + 1 ≤ (n : Int) - 1)}

namespace LinearResampler

/-- `lo`, where the index is in the chunk. -/
def loChecked (l : LinearResampler P) (input : List Int16) (rel : Int) : Option Int16 :=
  if rel < 0 then if l.primed then some l.last else input[0]?
  else input[rel.toNat]?

/-- `visit`, where every index is in the chunk. -/
def visitChecked (F : Floats P) (l : LinearResampler P) (input : List Int16) (pos : P) :
    Option (Visit Int16) :=
  let rel := F.floor pos - l.consumed
  if rel < -1 then some .skip
  else if input.length ≤ rel + 1 then some .stop
  else
    match l.loChecked input rel, input[(rel + 1).toNat]? with
    | some lo, some hi => some (.emit (F.interpolate pos lo hi))
    | _, _ => none

variable {F : Floats P}

/-- **No index leaves the chunk.** -/
theorem visitChecked_eq (F : Floats P) (l : LinearResampler P) {input : List Int16}
    (hne : input ≠ []) (pos : P) : l.visitChecked F input pos = some (l.visit F input pos) := by
  have hpos := List.length_pos_of_ne_nil hne
  simp only [visitChecked, visit]
  generalize F.floor pos - l.consumed = rel
  split
  · rfl
  · split
    · rfl
    · rename_i hskip hstop
      have hhi : input[(rel + 1).toNat]? = some (input.getD (rel + 1).toNat 0) := by
        rw [List.getD_eq_getElem _ _ (by omega), List.getElem?_eq_getElem (by omega)]
      have hlo : l.loChecked input rel = some (l.lo input rel) := by
        rw [loChecked, lo]
        split
        · split
          · rfl
          · cases input with
            | nil => exact absurd rfl hne
            | cons s input => rfl
        · rw [List.getD_eq_getElem _ _ (by omega), List.getElem?_eq_getElem (by omega)]
      rw [hhi, hlo]

end LinearResampler

/-! ## How many samples come out -/

theorem Decimator.push_of_full {F : Floats P} {d : Decimator} (s : Int16)
    (hfull : d.phase + 1 = d.factor) :
    (d.push F s).1.phase = 0 ∧ (d.push F s).1.factor = d.factor ∧ (d.push F s).2.length = 1 := by
  rw [push, if_pos hfull]
  exact ⟨rfl, rfl, rfl⟩

theorem Decimator.push_of_not_full {F : Floats P} {d : Decimator} (s : Int16)
    (hfull : d.phase + 1 ≠ d.factor) :
    (d.push F s).1.phase = d.phase + 1 ∧ (d.push F s).1.factor = d.factor ∧
      (d.push F s).2.length = 0 := by
  rw [push, if_neg hfull]
  exact ⟨rfl, rfl, rfl⟩

/-- A decimator gives one sample for every `factor` that go in. -/
theorem Decimator.length_process {F : Floats P} {d : Decimator} (input : List Int16)
    (hphase : d.phase < d.factor) :
    (d.process F input).2.length = (d.phase + input.length) / d.factor := by
  induction input generalizing d with
  | nil => exact (Nat.div_eq_of_lt hphase).symm
  | cons s input ih =>
      have hstep : (d.process F (s :: input)).2.length =
          (d.push F s).2.length + ((d.push F s).1.process F input).2.length := by
        rw [← List.length_append]
        rfl
      rw [hstep, List.length_cons]
      by_cases hfull : d.phase + 1 = d.factor
      · obtain ⟨hzero, hfactor, hone⟩ := push_of_full (F := F) s hfull
        have hpos : 0 < d.factor := Nat.lt_of_le_of_lt (Nat.zero_le _) hphase
        have hsum : d.phase + (input.length + 1) = input.length + d.factor := by omega
        rw [ih (by rw [hzero, hfactor]; exact hpos), hone, hzero, hfactor, hsum,
          Nat.add_div_right _ hpos, Nat.zero_add, Nat.add_comm]
      · obtain ⟨hnext, hfactor, hnone⟩ := push_of_not_full (F := F) s hfull
        have hsum : d.phase + (input.length + 1) = d.phase + 1 + input.length := by omega
        rw [ih (by rw [hnext, hfactor]; omega), hnone, hnext, hfactor, hsum, Nat.zero_add]

namespace LinearResampler

variable {convolve : Nat → List Int16 → Int16} {src dst : Nat}

/-- The positions are the multiples of the ratio of the rates. -/
theorem floor_iterate_next (k : Nat) :
    (exactWith convolve).floor (((new (exactWith convolve) src dst).next (exactWith convolve))^[k]
      (exactWith convolve).zero) = (k * src / dst : Rat).floor := by
  change Rat.floor ((fun pos : Rat => pos + (src / dst : Rat))^[k] 0) = _
  rw [add_right_iterate_apply, nsmul_eq_mul, zero_add, mul_div_assoc]

theorem floor_position_nonneg (src dst k : Nat) : 0 ≤ (k * src / dst : Rat).floor := by
  apply Rat.le_floor_iff.2
  exact div_nonneg (mul_nonneg (Nat.cast_nonneg k) (Nat.cast_nonneg src)) (Nat.cast_nonneg dst)

/-- A new interpolator never looks behind what is carried over. -/
theorem visit_new_ne_skip (input : List Int16) (k : Nat) :
    (new (exactWith convolve) src dst).visit (exactWith convolve) input
      (((new (exactWith convolve) src dst).next (exactWith convolve))^[k]
        (exactWith convolve).zero) ≠ .skip := by
  have hfloor := floor_position_nonneg src dst k
  rw [visit, floor_iterate_next]
  have hconsumed : ((new (exactWith convolve) src dst).consumed : Int) = 0 := rfl
  simp only [hconsumed]
  rw [if_neg (by omega)]
  split
  · simp
  · simp

theorem visit_new_eq_stop_iff (input : List Int16) (k : Nat) :
    (new (exactWith convolve) src dst).visit (exactWith convolve) input
      (((new (exactWith convolve) src dst).next (exactWith convolve))^[k]
        (exactWith convolve).zero) = .stop ↔
      ¬ (k * src / dst : Rat).floor + 1 ≤ (input.length : Int) - 1 := by
  rw [visit_eq_stop_iff, floor_iterate_next]
  have hconsumed : ((new (exactWith convolve) src dst).consumed : Int) = 0 := rfl
  rw [hconsumed]
  omega

/-- An interpolation gives one sample for each position before the last sample. -/
theorem length_process_new {input out : List Int16} {l : LinearResampler Rat} (hne : input ≠ [])
    (h : (new (exactWith convolve) src dst).process (exactWith convolve) input = some (l, out)) :
    out.length =
      Set.ncard {k : Nat | (k * src / dst : Rat).floor + 1 ≤ (input.length : Int) - 1} := by
  obtain ⟨pos, hscans, -⟩ := (process_eq_some_iff hne).1 h
  obtain ⟨hstop, hgo⟩ := hscans.length_eq (visit_new_ne_skip input)
  have hpositions : {k : Nat | (k * src / dst : Rat).floor + 1 ≤ (input.length : Int) - 1} =
      ↑(Finset.range out.length) := by
    ext k
    rw [Set.mem_ofPred_eq, Finset.mem_coe, Finset.mem_range]
    constructor
    · intro hk
      by_contra hlt
      -- a position after the one it stops at is no nearer
      have hmono : (out.length * src / dst : Rat).floor ≤ (k * src / dst : Rat).floor := by
        apply Rat.floor_monotone
        have hle : (out.length : Rat) ≤ k := Nat.cast_le.2 (Nat.le_of_not_lt hlt)
        gcongr
      exact (visit_new_eq_stop_iff input out.length).1 hstop (by omega)
    · intro hk
      exact not_not.1 fun hno => hgo k hk ((visit_new_eq_stop_iff input k).2 hno)
  rw [hpositions, Set.ncard_coe_finset, Finset.card_range]

end LinearResampler

theorem Resampler.length_process_new {convolve : Nat → List Int16 → Int16} {src dst : Nat}
    (hdst : 0 < dst) {input out : List Int16} {r : Resampler Rat}
    (h : Resampler.process (exactWith convolve) (.new (exactWith convolve) src dst) input =
      some (r, out)) : out.length = outputLength src dst input.length := by
  rw [Resampler.new] at h
  rw [outputLength]
  by_cases hrates : src = dst
  · rw [if_pos hrates] at h ⊢
    obtain ⟨-, rfl⟩ := Prod.mk.inj (Option.some.inj h)
    rfl
  · rw [if_neg hrates] at h ⊢
    by_cases hwhole : dst < src ∧ src % dst = 0
    · rw [if_pos ⟨hwhole.1, hdst, hwhole.2⟩] at h
      rw [if_pos hwhole]
      obtain ⟨-, rfl⟩ := Prod.mk.inj (Option.some.inj h)
      have hpos : 0 < src / dst := Nat.div_pos (Nat.le_of_lt hwhole.1) hdst
      have hfactor : (Decimator.new (src / dst)).factor = src / dst := Nat.max_eq_left hpos
      have hphase : (Decimator.new (src / dst)).phase = 0 := rfl
      rw [Decimator.length_process input (by rw [hfactor, hphase]; exact hpos), hfactor, hphase,
        Nat.zero_add]
    · rw [if_neg fun h => hwhole ⟨h.1, h.2.2⟩] at h
      rw [if_neg hwhole]
      obtain ⟨⟨l, out'⟩, hl, heq⟩ := Option.map_eq_some_iff.1 h
      obtain ⟨-, rfl⟩ := Prod.mk.inj heq
      by_cases hne : input = []
      · -- nothing comes out of nothing, and no position is before the end of it
        subst hne
        obtain ⟨-, rfl⟩ := Prod.mk.inj (Option.some.inj hl)
        have hnone : {k : Nat | (k * src / dst : Rat).floor + 1 ≤ ((0 : Nat) : Int) - 1} = ∅ := by
          apply Set.eq_empty_of_forall_notMem
          intro k hk
          have hfloor := LinearResampler.floor_position_nonneg src dst k
          rw [Set.mem_ofPred_eq] at hk
          omega
        rw [List.length_nil, hnone, Set.ncard_empty]
      · exact LinearResampler.length_process_new hne hl

/-! ## Every split -/

/-- **Chunks do not matter**, nothing is read outside of them, and the output is as long as it should
be. -/
theorem resamples_any_split (convolve : Nat → List Int16 → Int16) {src dst : Nat} (hsrc : 0 < src)
    (hdst : 0 < dst) (chunks : List (List Int16)) :
    ∃ r out,
      feed (Resampler.process (exactWith convolve)) (.new (exactWith convolve) src dst) chunks =
        some (r, out) ∧
      Resampler.process (exactWith convolve) (.new (exactWith convolve) src dst) chunks.flatten =
        some (r, out) ∧
      out.length = outputLength src dst chunks.flatten.length ∧
      ∀ (l : LinearResampler Rat) (input : List Int16) (pos : Rat), input ≠ [] →
        l.visitChecked (exactWith convolve) input pos =
          some (l.visit (exactWith convolve) input pos) := by
  have hsplit := (seamless_process (exactWith convolve)).feed_eq chunks
    (Resampler.wf_new (exactWith convolve) src dst)
  rw [hsplit]
  generalize chunks.flatten = input
  have hreached : ∃ k, (input.length : Int) ≤ (exactWith convolve).floor
      ((fun pos => (exactWith convolve).add pos ((exactWith convolve).ratio src dst))^[k]
        (exactWith convolve).zero) + 1 := by
    refine ⟨input.length * dst, ?_⟩
    change (input.length : Int) ≤
      Rat.floor ((fun pos : Rat => pos + (src / dst : Rat))^[input.length * dst] 0) + 1
    have hdst' : (dst : Rat) ≠ 0 := Nat.cast_ne_zero.2 (Nat.ne_of_gt hdst)
    have hpos : ((input.length * dst : Nat) : Rat) * (src / dst) =
        ((input.length * src : Nat) : Int) := by
      push_cast
      rw [mul_assoc, mul_div_cancel₀ _ hdst']
    rw [add_right_iterate_apply, nsmul_eq_mul, zero_add, hpos, Rat.floor_intCast]
    have hle : input.length ≤ input.length * src := Nat.le_mul_of_pos_right _ hsrc
    omega
  obtain ⟨⟨r, out⟩, hr⟩ := Option.ne_none_iff_exists'.1 (Resampler.process_new_ne_none input hreached)
  refine ⟨r, out, hr, hr, ?_, fun l input pos hne => l.visitChecked_eq _ hne pos⟩
  exact Resampler.length_process_new hdst hr

/-- A sample, nothing, and four more. -/
theorem resamples_any_split_44100 :
    (0 < 44100 ∧ 0 < 16000) ∧ ∃ r out,
      feed (Resampler.process exactFloats) (.new exactFloats 44100 16000) [[1], [], [2, 3, 4, 5]] =
        some (r, out) ∧
      Resampler.process exactFloats (.new exactFloats 44100 16000) [1, 2, 3, 4, 5] =
        some (r, out) ∧
      out.length = outputLength 44100 16000 5 := by
  obtain ⟨r, out, hfeed, hwhole, hlength, -⟩ := resamples_any_split
    (fun _ window => window.headD 0) (by decide : 0 < 44100) (by decide : 0 < 16000)
    [[1], [], [2, 3, 4, 5]]
  exact ⟨by decide, r, out, hfeed, hwhole, hlength⟩

end DialF.Audio
