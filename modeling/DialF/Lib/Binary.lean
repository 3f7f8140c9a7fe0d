import Mathlib.Algebra.Order.Floor.Div
import Mathlib.Algebra.Order.Group.Nat
import Mathlib.Data.Nat.Log
import Mathlib.Logic.Function.Iterate
import Mathlib.Tactic.Ring

/-!
# Binary floating point

The numbers of a binary format that are not negative, as counts of its least unit: those with at
most `t` binary digits before the zeros at their end. A quotient is rounded to the nearest of them,
and to the even one of two (`round`), which keeps the order (`round_mono`) and changes none of them
(`round_of_fits`).

Adding a number again and again comes to a stop where what is added is less than half of the last
digit: at `stallAt`, and nowhere before (`climb_stallAt`, `lt_climb`, `iterate_climb`).
-/

set_option autoImplicit false

namespace DialF.Lib

/-! ## Whole numbers -/

/-- The whole number nearest to a quotient; halfway between two, the even one. -/
def nearest (num den : Nat) : Nat :=
  if 2 * (num % den) < den ∨ 2 * (num % den) = den ∧ num / den % 2 = 0 then num / den
  else num / den + 1

section Nearest

variable {num num' den : Nat}

theorem nearest_mul (hden : 0 < den) (m : Nat) : nearest (m * den) den = m := by
  rw [nearest, Nat.mul_mod_left, Nat.mul_div_cancel m hden, if_pos (Or.inl (by omega))]

/-- It is off by half at most. -/
theorem two_mul_le_nearest (num : Nat) (hden : 0 < den) :
    2 * num ≤ 2 * (nearest num den * den) + den := by
  have hdivmod := Nat.div_add_mod' num den
  have hmod := Nat.mod_lt num hden
  rw [nearest]
  split
  · omega
  · rw [Nat.add_mul]
    omega

theorem nearest_mul_right {c : Nat} (hc : 0 < c) (num den : Nat) :
    nearest (num * c) (den * c) = nearest num den := by
  have hlt : 2 * (num % den * c) < den * c ↔ 2 * (num % den) < den := by
    rw [← Nat.mul_assoc]
    exact Nat.mul_lt_mul_right hc
  have heq : 2 * (num % den * c) = den * c ↔ 2 * (num % den) = den := by
    rw [← Nat.mul_assoc]
    exact Nat.mul_left_inj (Nat.ne_of_gt hc)
  simp only [nearest, Nat.mul_div_mul_right num den hc, Nat.mul_mod_mul_right, hlt, heq]

theorem nearest_mono (den : Nat) (h : num ≤ num') : nearest num den ≤ nearest num' den := by
  have hdivmod := Nat.div_add_mod' num den
  have hdivmod' := Nat.div_add_mod' num' den
  rcases Nat.lt_or_eq_of_le (Nat.div_le_div_right (c := den) h) with hlt | heq
  · rw [nearest, nearest]
    split <;> split <;> omega
  · -- the same whole part: what is left decides
    have hmod : num % den ≤ num' % den := by
      rw [heq] at hdivmod
      omega
    rw [nearest, nearest, heq]
    split <;> split <;> omega

end Nearest

/-! ## Rounding to a number of digits -/

/-- How many of its binary digits are too many. -/
def excess (t n : Nat) : Nat := Nat.log 2 n + 1 - t

/-- What does not fit is zeros. -/
def Fits (t n : Nat) : Prop := 2 ^ excess t n ∣ n

instance (t n : Nat) : Decidable (Fits t n) := inferInstanceAs (Decidable (_ ∣ _))

/-- The nearest number of `t` digits to a quotient. -/
def round (t num den : Nat) : Nat :=
  nearest num (den * 2 ^ excess t (num / den)) * 2 ^ excess t (num / den)

section Round

variable {t n num num' den k : Nat}

theorem excess_le_log (ht : 0 < t) (n : Nat) : excess t n ≤ Nat.log 2 n := by
  rw [excess]
  omega

/-- A few digits and zeros behind them. -/
theorem fits_mul_two_pow (h : n < 2 ^ t) (k : Nat) : Fits t (n * 2 ^ k) := by
  rcases Nat.eq_zero_or_pos n with rfl | hpos
  · rw [Nat.zero_mul]
    exact dvd_zero _
  · have hlog : Nat.log 2 (n * 2 ^ k) < t + k := by
      apply Nat.log_lt_of_lt_pow
      · exact Nat.ne_of_gt (Nat.mul_pos hpos (Nat.two_pow_pos k))
      · rw [Nat.pow_add]
        exact Nat.mul_lt_mul_of_pos_right h (Nat.two_pow_pos k)
    apply Nat.dvd_trans _ (Nat.dvd_mul_left (2 ^ k) n)
    apply Nat.pow_dvd_pow
    rw [excess]
    omega

theorem fits_two_pow (ht : 0 < t) (k : Nat) : Fits t (2 ^ k) := by
  rw [← Nat.one_mul (2 ^ k)]
  exact fits_mul_two_pow (Nat.one_lt_two_pow (Nat.ne_of_gt ht)) k

theorem round_of_fits (hden : 0 < den) (h : Fits t n) : round t (n * den) den = n := by
  obtain ⟨m, hm⟩ := h
  have hmul : n * den = m * (den * 2 ^ excess t n) := by
    conv_lhs => rw [hm]
    ring
  rw [round, Nat.mul_div_cancel n hden, hmul,
    nearest_mul (Nat.mul_pos hden (Nat.two_pow_pos _)), Nat.mul_comm, ← hm]

/-- Rounding loses half of a quotient at most. -/
theorem le_two_mul_round (ht : 0 < t) (hden : 0 < den) (h : den ≤ num) :
    num ≤ 2 * (round t num den * den) := by
  have hne : num / den ≠ 0 := Nat.ne_of_gt (Nat.div_pos h hden)
  have hdigit : 2 ^ excess t (num / den) * den ≤ num := by
    apply (Nat.le_div_iff_mul_le hden).1
    calc 2 ^ excess t (num / den) ≤ 2 ^ Nat.log 2 (num / den) :=
          Nat.pow_le_pow_right Nat.two_pos (excess_le_log ht _)
      _ ≤ num / den := Nat.pow_log_le_self 2 hne
  have hnearest := two_mul_le_nearest num
    (Nat.mul_pos hden (Nat.two_pow_pos (excess t (num / den))))
  have hround : round t num den * den =
      nearest num (den * 2 ^ excess t (num / den)) * (den * 2 ^ excess t (num / den)) := by
    rw [round]
    ring
  rw [hround]
  rw [Nat.mul_comm] at hdigit
  omega

/-- A quotient may be reduced. -/
theorem round_mul_right (t : Nat) {c : Nat} (hc : 0 < c) (num den : Nat) :
    round t (num * c) (den * c) = round t num den := by
  have hcomm : den * c * 2 ^ excess t (num / den) = den * 2 ^ excess t (num / den) * c := by ring
  rw [round, round, Nat.mul_div_mul_right num den hc, hcomm, nearest_mul_right hc]

theorem log_div_le (h : num ≤ 2 ^ k * den) : Nat.log 2 (num / den) ≤ k := by
  have hle : num / den ≤ 2 ^ k := Nat.div_le_of_le_mul (by rwa [Nat.mul_comm den])
  calc Nat.log 2 (num / den) ≤ Nat.log 2 (2 ^ k) := Nat.log_mono_right hle
    _ = k := Nat.log_pow Nat.one_lt_two k

/-- A power of two, in steps of a smaller one. -/
theorem two_pow_mul_eq {e : Nat} (h : e ≤ k) (den : Nat) :
    2 ^ k * den = 2 ^ (k - e) * (den * 2 ^ e) := by
  conv_lhs => rw [← Nat.sub_add_cancel h, Nat.pow_add]
  ring

theorem round_le_two_pow (ht : 0 < t) (hden : 0 < den) (h : num ≤ 2 ^ k * den) :
    round t num den ≤ 2 ^ k := by
  have hexcess : excess t (num / den) ≤ k :=
    Nat.le_trans (excess_le_log ht _) (log_div_le h)
  have hunit : 0 < den * 2 ^ excess t (num / den) := Nat.mul_pos hden (Nat.two_pow_pos _)
  rw [two_pow_mul_eq hexcess] at h
  have hnearest := nearest_mono (den * 2 ^ excess t (num / den)) h
  rw [nearest_mul hunit] at hnearest
  calc round t num den ≤ 2 ^ (k - excess t (num / den)) * 2 ^ excess t (num / den) :=
        Nat.mul_le_mul_right _ hnearest
    _ = 2 ^ k := Nat.pow_sub_mul_pow 2 hexcess

theorem two_pow_le_round (ht : 0 < t) (hden : 0 < den) (h : 2 ^ k * den ≤ num) :
    2 ^ k ≤ round t num den := by
  have hquotient : 2 ^ k ≤ num / den := (Nat.le_div_iff_mul_le hden).2 h
  have hne : num / den ≠ 0 := Nat.ne_of_gt (Nat.lt_of_lt_of_le (Nat.two_pow_pos k) hquotient)
  have hk : k ≤ Nat.log 2 (num / den) := Nat.le_log_of_pow_le Nat.one_lt_two hquotient
  have hexcess := excess_le_log ht (num / den)
  have hunit : 0 < den * 2 ^ excess t (num / den) := Nat.mul_pos hden (Nat.two_pow_pos _)
  have hlog : 2 ^ Nat.log 2 (num / den) * den ≤ num :=
    (Nat.le_div_iff_mul_le hden).1 (Nat.pow_log_le_self 2 hne)
  rw [two_pow_mul_eq hexcess] at hlog
  have hnearest := nearest_mono (den * 2 ^ excess t (num / den)) hlog
  rw [nearest_mul hunit] at hnearest
  calc 2 ^ k ≤ 2 ^ Nat.log 2 (num / den) := Nat.pow_le_pow_right Nat.two_pos hk
    _ = 2 ^ (Nat.log 2 (num / den) - excess t (num / den)) * 2 ^ excess t (num / den) :=
        (Nat.pow_sub_mul_pow 2 hexcess).symm
    _ ≤ round t num den := Nat.mul_le_mul_right _ hnearest

/-- **Rounding keeps the order.** -/
theorem round_mono (ht : 0 < t) (hden : 0 < den) (h : num ≤ num') :
    round t num den ≤ round t num' den := by
  have hdiv : num / den ≤ num' / den := Nat.div_le_div_right h
  rcases Nat.lt_or_eq_of_le (Nat.log_mono_right (b := 2) hdiv) with hlt | heq
  · -- a power of two lies in between
    have hle : num ≤ 2 ^ (Nat.log 2 (num / den) + 1) * den :=
      Nat.le_of_lt ((Nat.div_lt_iff_lt_mul hden).1 (Nat.lt_pow_succ_log_self Nat.one_lt_two _))
    have hne : num' / den ≠ 0 := by
      intro hzero
      rw [hzero, Nat.log_zero_right] at hlt
      exact Nat.not_lt_zero _ hlt
    have hge : 2 ^ Nat.log 2 (num' / den) * den ≤ num' :=
      (Nat.le_div_iff_mul_le hden).1 (Nat.pow_log_le_self 2 hne)
    calc round t num den ≤ 2 ^ (Nat.log 2 (num / den) + 1) := round_le_two_pow ht hden hle
      _ ≤ 2 ^ Nat.log 2 (num' / den) := Nat.pow_le_pow_right Nat.two_pos hlt
      _ ≤ round t num' den := two_pow_le_round ht hden hge
  · have hexcess : excess t (num / den) = excess t (num' / den) := by rw [excess, excess, heq]
    rw [round, round, hexcess]
    exact Nat.mul_le_mul_right _ (nearest_mono _ h)

/-- What is rounded fits. -/
theorem fits_round (ht : 0 < t) (hden : 0 < den) (num : Nat) : Fits t (round t num den) := by
  have hunit : 0 < den * 2 ^ excess t (num / den) := Nat.mul_pos hden (Nat.two_pow_pos _)
  have hlt : num < 2 ^ (Nat.log 2 (num / den) + 1) * den :=
    (Nat.div_lt_iff_lt_mul hden).1 (Nat.lt_pow_succ_log_self Nat.one_lt_two _)
  have hdigits : nearest num (den * 2 ^ excess t (num / den)) ≤ 2 ^ t := by
    have hle : num ≤ 2 ^ t * (den * 2 ^ excess t (num / den)) := by
      have hpow : 2 ^ (Nat.log 2 (num / den) + 1) ≤ 2 ^ (t + excess t (num / den)) := by
        apply Nat.pow_le_pow_right Nat.two_pos
        rw [excess]
        omega
      calc num ≤ 2 ^ (Nat.log 2 (num / den) + 1) * den := Nat.le_of_lt hlt
        _ ≤ 2 ^ (t + excess t (num / den)) * den := Nat.mul_le_mul_right den hpow
        _ = 2 ^ t * (den * 2 ^ excess t (num / den)) := by rw [Nat.pow_add]; ring
    have hnearest := nearest_mono (den * 2 ^ excess t (num / den)) hle
    rwa [nearest_mul hunit] at hnearest
  rw [round]
  rcases Nat.lt_or_eq_of_le hdigits with hfew | hcarry
  · exact fits_mul_two_pow hfew _
  · rw [hcarry, ← Nat.pow_add]
    exact fits_two_pow ht _

end Round

/-! ## Adding again and again -/

/-- A number that is added, rounded. -/
def climb (t s p : Nat) : Nat := round t (p + s) 1

/-- Where adding comes to a stop: the least power of two that is not less than `2 ^ t` times what is
added. -/
def stallAt (t s : Nat) : Nat := 2 ^ (t + Nat.clog 2 s)

section Climb

variable {t s p : Nat}

theorem fits_climb (ht : 2 ≤ t) (s p : Nat) : Fits t (climb t s p) :=
  fits_round (by omega) Nat.one_pos (p + s)

theorem climb_mono (ht : 2 ≤ t) (s : Nat) {p q : Nat} (h : p ≤ q) : climb t s p ≤ climb t s q :=
  round_mono (by omega) Nat.one_pos (by omega)

/-- It never goes back. -/
theorem le_climb (ht : 2 ≤ t) (hp : Fits t p) (s : Nat) : p ≤ climb t s p := by
  have hround := round_of_fits Nat.one_pos hp
  calc p = round t (p * 1) 1 := hround.symm
    _ ≤ climb t s p := round_mono (by omega) Nat.one_pos (by omega)

/-- A climb is short by half of the last digit at most. -/
theorem add_le_climb (t s p : Nat) :
    2 * (p + s) ≤ 2 * climb t s p + 2 ^ excess t (p + s) := by
  have hnearest := two_mul_le_nearest (p + s)
    (Nat.two_pow_pos (excess t (p + s)))
  rwa [climb, round, Nat.div_one, Nat.one_mul]

/-- **It stops there**: half of the last digit, or less, is rounded down. -/
theorem climb_stallAt (ht : 2 ≤ t) (hs : 0 < s) : climb t s (stallAt t s) = stallAt t s := by
  have hle : s ≤ 2 ^ Nat.clog 2 s := Nat.le_pow_clog Nat.one_lt_two s
  have hstall : stallAt t s = 2 ^ (t - 1) * 2 ^ (Nat.clog 2 s + 1) := by
    rw [stallAt, ← Nat.pow_add]
    congr 1
    omega
  have hdigit : 2 ^ (Nat.clog 2 s + 1) = 2 * 2 ^ Nat.clog 2 s := Nat.pow_succ'
  have hlog : Nat.log 2 (stallAt t s + s) = t + Nat.clog 2 s := by
    have hpow : 2 ^ Nat.clog 2 s < 2 ^ (t + Nat.clog 2 s) :=
      Nat.pow_lt_pow_right Nat.one_lt_two (by omega)
    apply Nat.log_eq_of_pow_le_of_lt_pow
    · exact Nat.le_add_right _ s
    · rw [Nat.pow_succ, stallAt]
      omega
  have hexcess : excess t (stallAt t s + s) = Nat.clog 2 s + 1 := by
    rw [excess, hlog]
    omega
  have heven : 2 ^ (t - 1) % 2 = 0 := by
    rw [Nat.pow_mod, Nat.mod_self, Nat.zero_pow (by omega)]
  have hdiv : (stallAt t s + s) / 2 ^ (Nat.clog 2 s + 1) = 2 ^ (t - 1) := by
    rw [hstall, Nat.mul_comm, Nat.mul_add_div (Nat.two_pow_pos _), Nat.div_eq_of_lt (by omega),
      Nat.add_zero]
  have hmod : (stallAt t s + s) % 2 ^ (Nat.clog 2 s + 1) = s := by
    rw [hstall, Nat.mul_comm, Nat.mul_add_mod, Nat.mod_eq_of_lt (by omega)]
  rw [climb, round, Nat.div_one, hexcess, Nat.one_mul, nearest, hdiv, hmod, heven, if_pos (by omega),
    ← hstall]

/-- **Nowhere before.** -/
theorem lt_climb (ht : 2 ≤ t) (hs : 0 < s) (hlt : p < stallAt t s) : p < climb t s p := by
  by_contra hstuck
  have hshort := add_le_climb t s p
  have hclog : 2 ^ Nat.clog 2 s < 2 * s := by
    rcases Nat.lt_or_eq_of_le (Nat.succ_le_of_lt hs) with hone | rfl
    · have hpred := Nat.pow_pred_clog_lt_self Nat.one_lt_two hone
      have hpos : 0 < Nat.clog 2 s := Nat.clog_pos Nat.one_lt_two hone
      calc 2 ^ Nat.clog 2 s = 2 * 2 ^ (Nat.clog 2 s).pred := by
            rw [← Nat.pow_succ', Nat.succ_pred_eq_of_pos hpos]
        _ < 2 * s := Nat.mul_lt_mul_of_pos_left hpred Nat.two_pos
    · rw [Nat.clog_one_right]
      decide
  -- its last digit is then so high that the stop is not behind it
  have hexcess : Nat.clog 2 s < excess t (p + s) :=
    (Nat.pow_lt_pow_iff_right Nat.one_lt_two).1 (by omega)
  have hlog : t + Nat.clog 2 s ≤ Nat.log 2 (p + s) := by
    rw [excess] at hexcess
    omega
  have hreached : stallAt t s ≤ p + s := by
    calc stallAt t s ≤ 2 ^ Nat.log 2 (p + s) := Nat.pow_le_pow_right Nat.two_pos hlog
      _ ≤ p + s := Nat.pow_log_le_self 2 (by omega)
  have hpast : stallAt t s ≤ climb t s p :=
    two_pow_le_round (by omega) Nat.one_pos (by rwa [Nat.mul_one])
  omega

/-- Before the stop, half of what is added is gained. -/
theorem two_mul_add_le_climb (ht : 2 ≤ t) (hs : 0 < s) (hp : Fits t p) (hlt : p < stallAt t s) :
    2 * p + s ≤ 2 * climb t s p := by
  have hshort := add_le_climb t s p
  by_cases hdigit : 2 ^ excess t (p + s) ≤ s
  · omega
  · -- what is added is less than the last digit, so that half of that divides both ends
    have hsucc : ∃ e, excess t (p + s) = e + 1 := by
      cases hexcess : excess t (p + s) with
      | zero =>
          rw [hexcess] at hdigit
          omega
      | succ e => exact ⟨e, rfl⟩
    obtain ⟨e, he⟩ := hsucc
    have hlog : Nat.log 2 (p + s) = t + e := by
      rw [excess] at he
      omega
    have hsum : 2 ^ (t + e) ≤ p + s := by
      rw [← hlog]
      exact Nat.pow_log_le_self 2 (by omega)
    have hhalf : 2 ^ (t + e) = 2 * 2 ^ (t - 1 + e) := by
      rw [← Nat.pow_succ']
      congr 1
      omega
    have hpow : 2 ^ (e + 1) ≤ 2 ^ (t - 1 + e) := Nat.pow_le_pow_right Nat.two_pos (by omega)
    have hlogp : t - 1 + e ≤ Nat.log 2 p := by
      apply Nat.le_log_of_pow_le Nat.one_lt_two
      rw [he] at hdigit
      omega
    have hdvd : 2 ^ e ∣ p := by
      refine Nat.dvd_trans (Nat.pow_dvd_pow 2 ?_) hp
      rw [excess]
      omega
    have hdvd' : 2 ^ e ∣ climb t s p := by
      rw [climb, round, Nat.div_one, he]
      exact Nat.dvd_trans (Nat.pow_dvd_pow 2 (Nat.le_succ e)) (Nat.dvd_mul_left _ _)
    have hgain : 2 ^ e ≤ climb t s p - p :=
      Nat.le_of_dvd (Nat.sub_pos_of_lt (lt_climb ht hs hlt)) (Nat.dvd_sub hdvd' hdvd)
    rw [he, Nat.pow_succ] at hdigit
    omega

theorem climb_le_stallAt (ht : 2 ≤ t) (hs : 0 < s) (h : p ≤ stallAt t s) :
    climb t s p ≤ stallAt t s := by
  calc climb t s p ≤ climb t s (stallAt t s) := climb_mono ht s h
    _ = stallAt t s := climb_stallAt ht hs

/-- **A climb from nothing** does not pass the stop, and gains half of what is added until it has
come there. -/
theorem iterate_climb (ht : 2 ≤ t) (hs : 0 < s) (k : Nat) :
    Fits t ((climb t s)^[k] 0) ∧ (climb t s)^[k] 0 ≤ stallAt t s ∧
      ((climb t s)^[k] 0 = stallAt t s ∨ k * s ≤ 2 * (climb t s)^[k] 0) := by
  induction k with
  | zero => exact ⟨dvd_zero _, Nat.zero_le _, Or.inr (Nat.le_of_eq (Nat.zero_mul s))⟩
  | succ k ih =>
      obtain ⟨hfits, hle, hgain⟩ := ih
      rw [Function.iterate_succ_apply']
      refine ⟨fits_climb ht s _, climb_le_stallAt ht hs hle, ?_⟩
      rcases Nat.lt_or_eq_of_le hle with hlt | heq
      · have hstep := two_mul_add_le_climb ht hs hfits hlt
        rw [Nat.succ_mul]
        omega
      · rw [heq, climb_stallAt ht hs]
        exact Or.inl rfl

/-- It comes to the stop. -/
theorem exists_iterate_climb_eq (ht : 2 ≤ t) (hs : 0 < s) :
    ∃ k, (climb t s)^[k] 0 = stallAt t s := by
  obtain ⟨-, hle, hgain⟩ := iterate_climb ht hs (2 * stallAt t s)
  refine ⟨2 * stallAt t s, ?_⟩
  rcases hgain with heq | hgain
  · exact heq
  · have hmul := Nat.le_mul_of_pos_right (2 * stallAt t s) hs
    omega

end Climb

/-! ## Adding a quotient -/

/-- The whole number at which adding a quotient comes to a stop, in a format of `t` digits. -/
def stop (t num den : Nat) : Nat := 2 ^ Nat.clog 2 (2 ^ t * num ⌈/⌉ den)

section Quotient

variable {t w u num den : Nat}

/-- What lies between two powers of two is seen in the rounded quotient of two small numbers. -/
theorem lt_round_of_lt (hw : w < t) (hu : 2 * w ≤ u) (hnum : num < 2 ^ w) (hden : 0 < den)
    (hden' : den < 2 ^ w) {j : Nat} (hj : t - w ≤ j) (h : den * 2 ^ j < 2 ^ t * num) :
    2 ^ (u + j - t) < round t (num * 2 ^ u) den := by
  -- the difference is a multiple of a power of two
  have hgap : den * 2 ^ j + den * 2 ^ j * 2 ^ w ≤ 2 ^ t * num * 2 ^ w := by
    have hdvd : 2 ^ min j t ∣ 2 ^ t * num - den * 2 ^ j :=
      Nat.dvd_sub (Nat.dvd_mul_right_of_dvd (Nat.pow_dvd_pow 2 (Nat.min_le_right j t)) num)
        (Nat.dvd_mul_left_of_dvd (Nat.pow_dvd_pow 2 (Nat.min_le_left j t)) den)
    have hle : 2 ^ min j t ≤ 2 ^ t * num - den * 2 ^ j := Nat.le_of_dvd (Nat.sub_pos_of_lt h) hdvd
    have hsmall : den * 2 ^ j ≤ 2 ^ min j t * 2 ^ w := by
      rcases Nat.le_total j t with hjt | htj
      · rw [Nat.min_eq_left hjt, Nat.mul_comm]
        exact Nat.mul_le_mul_left _ (Nat.le_of_lt hden')
      · rw [Nat.min_eq_right htj]
        exact Nat.le_trans (Nat.le_of_lt h) (Nat.mul_le_mul_left _ (Nat.le_of_lt hnum))
    calc den * 2 ^ j + den * 2 ^ j * 2 ^ w
        ≤ 2 ^ min j t * 2 ^ w + den * 2 ^ j * 2 ^ w := Nat.add_le_add_right hsmall _
      _ ≤ (2 ^ t * num - den * 2 ^ j) * 2 ^ w + den * 2 ^ j * 2 ^ w :=
          Nat.add_le_add_right (Nat.mul_le_mul_right _ hle) _
      _ = 2 ^ t * num * 2 ^ w := by
          rw [← Nat.add_mul, Nat.sub_add_cancel (Nat.le_of_lt h)]
  -- there is room for a number that fits
  have hsplit : u + j - t = w + (u + j - t - w) := by omega
  have hcross : (2 ^ w + 1) * 2 ^ (u + j - t - w) * den ≤ num * 2 ^ u := by
    apply Nat.le_of_mul_le_mul_left _ (Nat.two_pow_pos (t + w))
    calc 2 ^ (t + w) * ((2 ^ w + 1) * 2 ^ (u + j - t - w) * den)
        = 2 ^ (t + w + (u + j - t - w)) * ((2 ^ w + 1) * den) := by rw [Nat.pow_add]; ring
      _ = 2 ^ (u + j) * ((2 ^ w + 1) * den) := by congr 2; omega
      _ = 2 ^ u * (den * 2 ^ j + den * 2 ^ j * 2 ^ w) := by rw [Nat.pow_add]; ring
      _ ≤ 2 ^ u * (2 ^ t * num * 2 ^ w) := Nat.mul_le_mul_left _ hgap
      _ = 2 ^ (t + w) * (num * 2 ^ u) := by rw [Nat.pow_add]; ring
  have hwpos : w ≠ 0 := by
    rintro rfl
    omega
  have hfits : Fits t ((2 ^ w + 1) * 2 ^ (u + j - t - w)) := by
    apply fits_mul_two_pow
    calc 2 ^ w + 1 < 2 ^ w + 2 ^ w := by
          have := Nat.one_lt_two_pow hwpos
          omega
      _ = 2 ^ (w + 1) := by rw [Nat.pow_succ]; ring
      _ ≤ 2 ^ t := Nat.pow_le_pow_right Nat.two_pos hw
  have hround := round_mono (t := t) (by omega) hden hcross
  rw [round_of_fits hden hfits] at hround
  calc 2 ^ (u + j - t) = 2 ^ w * 2 ^ (u + j - t - w) := by rw [← Nat.pow_add, ← hsplit]
    _ < (2 ^ w + 1) * 2 ^ (u + j - t - w) := by
        rw [Nat.add_mul]
        have := Nat.two_pow_pos (u + j - t - w)
        omega
    _ ≤ round t (num * 2 ^ u) den := hround

/-- **The rounded quotient of two small numbers** stops where the quotient itself would. -/
theorem stallAt_round (hw : w < t) (hu : 2 * w ≤ u) (hnum : 0 < num) (hnum' : num < 2 ^ w)
    (hden : 0 < den) (hden' : den < 2 ^ w) :
    stallAt t (round t (num * 2 ^ u) den) = stop t num den * 2 ^ u := by
  have hquotient : 2 ^ t * num ≤ den * stop t num den :=
    (ceilDiv_le_iff_le_mul hden).1 (Nat.le_pow_clog Nat.one_lt_two _)
  obtain ⟨c, hc⟩ : ∃ c, c = Nat.clog 2 (2 ^ t * num ⌈/⌉ den) := ⟨_, rfl⟩
  have hlow : t - w < c := by
    rw [hc]
    apply (Nat.lt_clog_iff_pow_lt Nat.one_lt_two).2
    apply Nat.lt_of_not_le
    intro hle
    have hmul := (ceilDiv_le_iff_le_mul hden).1 hle
    have hlt : den * 2 ^ (t - w) < 2 ^ t * num := by
      calc den * 2 ^ (t - w) < 2 ^ w * 2 ^ (t - w) :=
            Nat.mul_lt_mul_of_pos_right hden' (Nat.two_pow_pos _)
        _ = 2 ^ t := by rw [← Nat.pow_add]; congr 1; omega
        _ ≤ 2 ^ t * num := Nat.le_mul_of_pos_right _ hnum
    omega
  rw [stop, ← hc] at hquotient
  have hupper : round t (num * 2 ^ u) den ≤ 2 ^ (u + c - t) := by
    apply round_le_two_pow (by omega) hden
    apply Nat.le_of_mul_le_mul_left _ (Nat.two_pow_pos t)
    calc 2 ^ t * (num * 2 ^ u) = 2 ^ t * num * 2 ^ u := (Nat.mul_assoc _ _ _).symm
      _ ≤ den * 2 ^ c * 2 ^ u := Nat.mul_le_mul_right _ hquotient
      _ = 2 ^ (u + c) * den := by rw [Nat.pow_add]; ring
      _ = 2 ^ (t + (u + c - t)) * den := by congr 2; omega
      _ = 2 ^ t * (2 ^ (u + c - t) * den) := by rw [Nat.pow_add]; ring
  have hlower : 2 ^ (u + (c - 1) - t) < round t (num * 2 ^ u) den := by
    apply lt_round_of_lt hw hu hnum' hden hden' (by omega)
    apply Nat.lt_of_not_le
    intro hle
    have hclog := Nat.clog_le_of_le_pow ((ceilDiv_le_iff_le_mul hden).2 hle)
    omega
  have hclog : Nat.clog 2 (round t (num * 2 ^ u) den) = u + c - t := by
    apply Nat.le_antisymm
    · exact Nat.clog_le_of_le_pow hupper
    · have hlt := (Nat.lt_clog_iff_pow_lt Nat.one_lt_two).2 hlower
      omega
  rw [stallAt, hclog, stop, ← hc, ← Nat.pow_add]
  congr 1
  omega

end Quotient

end DialF.Lib
