import DialF.Lib.Binary

/-!
# Floating-point numbers

The numbers of a binary format that are not negative, and what is none, with the sums, quotients and
whole parts that they have. A number that is added again and again from nothing climbs as its units
do (`iterate_add_zero`), and `steps` is often enough for it to come as far as it ever does
(`le_floor_steps`).
-/

set_option autoImplicit false

namespace DialF.Lib

/-- A format: how many digits a number has, how many units one is, and from where on numbers are
infinite. -/
structure Format where
  digits : Nat
  /-- One is `2 ^ unit` units. -/
  unit : Nat
  /-- Numbers are less than `2 ^ top` units. -/
  top : Nat
  two_le_digits : 2 ≤ digits

/-- The numbers of 64 bits. -/
def binary64 : Format := ⟨53, 1074, 2098, by decide⟩

/-- A number that is not negative, or what is none. -/
inductive Number (f : Format) where
  | finite (units : Nat) (fits : Fits f.digits units) (lt_top : units < 2 ^ f.top)
  | infinite
  | nan

namespace Number

variable {f : Format}

/-- Zero. -/
def zero : Number f := .finite 0 (dvd_zero _) (Nat.two_pow_pos _)

/-- The number nearest to a quotient of units. -/
def ofQuotient (num den : Nat) : Number f :=
  if hden : 0 < den then
    if hlt : round f.digits num den < 2 ^ f.top then
      .finite (round f.digits num den)
        (fits_round (Nat.lt_of_lt_of_le Nat.two_pos f.two_le_digits) hden num) hlt
    else .infinite
  else if num = 0 then .nan
  else .infinite

/-- A whole number, rounded. -/
def ofNat (n : Nat) : Number f := ofQuotient (n * 2 ^ f.unit) 1

/-- The sum, rounded. -/
def add : Number f → Number f → Number f
  | .finite a _ _, .finite b _ _ => ofQuotient (a + b) 1
  | .nan, _ => .nan
  | _, .nan => .nan
  | _, _ => .infinite

/-- The quotient, rounded. -/
def div : Number f → Number f → Number f
  | .finite a _ _, .finite b _ _ => ofQuotient (a * 2 ^ f.unit) b
  | .finite _ _ _, .infinite => zero
  | .infinite, .finite _ _ _ => .infinite
  | _, _ => .nan

/-- The whole part, no more than `hi`. -/
def floor (hi : Nat) : Number f → Nat
  | .finite n _ _ => min (n / 2 ^ f.unit) hi
  | .infinite => hi
  | .nan => 0

@[simp] theorem floor_zero (hi : Nat) : (zero : Number f).floor hi = 0 := by
  simp [zero, floor]

theorem ofQuotient_of_lt {num den : Nat} (hden : 0 < den)
    (hlt : round f.digits num den < 2 ^ f.top) :
    ∃ hfits, (ofQuotient num den : Number f) = .finite (round f.digits num den) hfits hlt := by
  rw [ofQuotient, dif_pos hden, dif_pos hlt]
  exact ⟨_, rfl⟩

theorem floor_le (hi : Nat) (p : Number f) : p.floor hi ≤ hi := by
  cases p with
  | finite n => exact Nat.min_le_right _ _
  | infinite => exact Nat.le_refl hi
  | nan => exact Nat.zero_le hi

/-- A sum of two numbers is one, or too large. -/
theorem add_finite {a b : Nat} (ha : Fits f.digits a) (ha' : a < 2 ^ f.top)
    (hb : Fits f.digits b) (hb' : b < 2 ^ f.top) :
    add (.finite a ha ha') (.finite b hb hb') = .infinite ∨
      ∃ h h', add (.finite a ha ha') (.finite b hb hb') = .finite (climb f.digits b a) h h' := by
  by_cases hlt : round f.digits (a + b) 1 < 2 ^ f.top
  · obtain ⟨hfits, heq⟩ := ofQuotient_of_lt Nat.one_pos hlt
    exact Or.inr ⟨hfits, hlt, heq⟩
  · refine Or.inl ?_
    rw [add, ofQuotient, dif_pos Nat.one_pos, dif_neg hlt]

/-- **Adding a number** does not go back. -/
theorem floor_le_floor_add (hi : Nat) {step : Number f} (hstep : step ≠ .nan) (p : Number f) :
    p.floor hi ≤ (p.add step).floor hi := by
  cases step with
  | nan => exact absurd rfl hstep
  | infinite =>
      cases p with
      | finite a => exact floor_le hi _
      | infinite => exact Nat.le_refl hi
      | nan => exact Nat.zero_le _
  | finite b hb hb' =>
      cases p with
      | infinite => exact Nat.le_refl hi
      | nan => exact Nat.zero_le _
      | finite a ha ha' =>
          rcases add_finite ha ha' hb hb' with h | ⟨_, _, h⟩
          · rw [h]
            exact floor_le hi _
          · rw [h]
            exact Nat.le_min.2 ⟨Nat.le_trans (Nat.min_le_left _ _)
              (Nat.div_le_div_right (le_climb f.two_le_digits ha b)), Nat.min_le_right _ _⟩

/-- From nothing, numbers climb as their units do, as long as they are not too large. -/
theorem iterate_add_zero {s : Nat} {hs : Fits f.digits s} {hs' : s < 2 ^ f.top} (hpos : 0 < s)
    (htop : stallAt f.digits s < 2 ^ f.top) (k : Nat) :
    ∃ h h', (fun p : Number f => p.add (.finite s hs hs'))^[k] zero =
      .finite ((climb f.digits s)^[k] 0) h h' := by
  induction k with
  | zero => exact ⟨_, _, rfl⟩
  | succ k ih =>
      obtain ⟨hfits, hlt, heq⟩ := ih
      obtain ⟨-, hle, -⟩ := iterate_climb f.two_le_digits hpos k
      have hnext : climb f.digits s ((climb f.digits s)^[k] 0) < 2 ^ f.top :=
        Nat.lt_of_le_of_lt (climb_le_stallAt f.two_le_digits hpos hle) htop
      obtain ⟨hfits', heq'⟩ := ofQuotient_of_lt (f := f) Nat.one_pos hnext
      refine ⟨?_, ?_, ?_⟩
      · rw [Function.iterate_succ_apply']
        exact hfits'
      · rw [Function.iterate_succ_apply']
        exact hnext
      · rw [Function.iterate_succ_apply', heq]
        simp only [Function.iterate_succ_apply']
        exact heq'

/-! ### How often to add -/

/-- How often a number has to be added for the sum to come to `n`, where it ever does: as often as
there are units in `n`. -/
def steps (hi : Nat) (p : Number f) (n : Int) : Nat :=
  if n ≤ p.floor hi then 0 else n.toNat * 2 ^ f.unit

/-- Every addition changes the number by a unit, or it does not change any more. -/
theorem stuck_or_le {step : Number f} (hstep : step ≠ .nan) (p : Number f) (k : Nat) :
    ((fun p => p.add step)^[k] p).add step = (fun p => p.add step)^[k] p ∨
      ∃ a h h', (fun p => p.add step)^[k] p = .finite a h h' ∧ k ≤ a := by
  induction k with
  | zero =>
      cases p with
      | finite a h h' => exact Or.inr ⟨a, h, h', rfl, Nat.zero_le a⟩
      | infinite =>
          cases step with
          | nan => exact absurd rfl hstep
          | finite | infinite => exact Or.inl rfl
      | nan => exact Or.inl rfl
  | succ k ih =>
      rw [Function.iterate_succ_apply']
      rcases ih with hstuck | ⟨a, h, h', heq, hle⟩
      · rw [hstuck]
        exact Or.inl hstuck
      · rw [heq]
        cases step with
        | nan => exact absurd rfl hstep
        | infinite => exact Or.inl rfl
        | finite b hb hb' =>
            rcases add_finite h h' hb hb' with hsum | ⟨_, _, hsum⟩
            · rw [hsum]
              exact Or.inl rfl
            · have hclimb := le_climb f.two_le_digits h b
              rcases Nat.lt_or_eq_of_le hclimb with hlt | hsame
              · exact Or.inr ⟨_, _, _, hsum, by omega⟩
              · refine Or.inl ?_
                have hback : add (.finite a h h') (.finite b hb hb') = .finite a h h' := by
                  rw [hsum]
                  congr 1
                  exact hsame.symm
                rw [hback, hback]

theorem floor_mono_iterate (hi : Nat) {step : Number f} (hstep : step ≠ .nan) (p : Number f)
    {j k : Nat} (h : j ≤ k) :
    ((fun p => p.add step)^[j] p).floor hi ≤ ((fun p => p.add step)^[k] p).floor hi := by
  induction h with
  | refl => exact Nat.le_refl _
  | step _ ih =>
      rw [Function.iterate_succ_apply']
      exact Nat.le_trans ih (floor_le_floor_add hi hstep _)

/-- What has stopped to change stays as it is. -/
theorem iterate_add_of_stuck {step p : Number f} (h : p.add step = p) (k : Nat) :
    (fun p => p.add step)^[k] p = p := by
  induction k with
  | zero => rfl
  | succ k ih => rw [Function.iterate_succ_apply', ih, h]

theorem add_nan (p : Number f) : p.add .nan = .nan := by
  cases p <;> rfl

/-- **That is often enough.** -/
theorem le_floor_steps {hi : Nat} {step p : Number f} {n : Int}
    (h : ∃ k, n ≤ ((fun p => p.add step)^[k] p).floor hi) :
    n ≤ ((fun p => p.add step)^[steps hi p n] p).floor hi := by
  obtain ⟨k, hk⟩ := h
  rw [steps]
  split
  · assumption
  · rename_i hn
    by_cases hstep : step = .nan
    · -- nothing comes of it
      subst hstep
      cases k with
      | zero => exact absurd hk hn
      | succ k =>
          rw [Function.iterate_succ_apply', add_nan] at hk
          exact absurd (Int.le_trans hk (Int.natCast_nonneg _)) hn
    · rcases Nat.le_total k (n.toNat * 2 ^ f.unit) with hle | hge
      · exact Int.le_trans hk (Int.ofNat_le.2 (floor_mono_iterate hi hstep p hle))
      · rcases stuck_or_le hstep p (n.toNat * 2 ^ f.unit) with hstuck | ⟨a, hfits, hlt, heq, hle⟩
        · have hsplit : k = k - n.toNat * 2 ^ f.unit + n.toNat * 2 ^ f.unit := by omega
          rw [hsplit, Function.iterate_add_apply, iterate_add_of_stuck hstuck] at hk
          exact hk
        · have hreach : n ≤ hi := Int.le_trans hk (Int.ofNat_le.2 (floor_le hi _))
          have hwhole : n.toNat ≤ a / 2 ^ f.unit :=
            (Nat.le_div_iff_mul_le (Nat.two_pow_pos _)).2 hle
          have hmin : n.toNat ≤ ((fun p => p.add step)^[n.toNat * 2 ^ f.unit] p).floor hi := by
            rw [heq]
            exact Nat.le_min.2 ⟨hwhole, by omega⟩
          omega

/-! ### A quotient that is added again and again -/

section Quotient

variable {w hi num den : Nat}

theorem finite_congr {a b : Nat} {ha : Fits f.digits a} {ha' : a < 2 ^ f.top} (h : a = b)
    {hb : Fits f.digits b} {hb' : b < 2 ^ f.top} :
    (finite a ha ha' : Number f) = finite b hb hb' := by
  subst h
  rfl

/-- A small whole number is a number. -/
theorem ofNat_of_lt {n : Nat} (h : n < 2 ^ f.digits) (htop : f.digits + f.unit ≤ f.top) :
    ∃ hfits hlt, (ofNat n : Number f) = .finite (n * 2 ^ f.unit) hfits hlt := by
  have hfits : Fits f.digits (n * 2 ^ f.unit) := fits_mul_two_pow h f.unit
  have hround : round f.digits (n * 2 ^ f.unit) 1 = n * 2 ^ f.unit := by
    have hexact := round_of_fits Nat.one_pos hfits
    rwa [Nat.mul_one] at hexact
  have hlt : n * 2 ^ f.unit < 2 ^ f.top := by
    calc n * 2 ^ f.unit < 2 ^ f.digits * 2 ^ f.unit :=
          Nat.mul_lt_mul_of_pos_right h (Nat.two_pow_pos _)
      _ = 2 ^ (f.digits + f.unit) := (Nat.pow_add 2 _ _).symm
      _ ≤ 2 ^ f.top := Nat.pow_le_pow_right Nat.two_pos htop
  obtain ⟨_, heq⟩ := ofQuotient_of_lt (f := f) Nat.one_pos (hround.symm ▸ hlt)
  exact ⟨hfits, hlt, heq.trans (finite_congr hround)⟩

/-- The quotient of two whole numbers that are small. -/
theorem div_ofNat (htop : f.digits + f.unit ≤ f.top) (hnum : num < 2 ^ f.digits)
    (hden : den < 2 ^ f.digits) :
    (ofNat num : Number f).div (ofNat den) = ofQuotient (num * 2 ^ f.unit) den := by
  obtain ⟨_, _, hn⟩ := ofNat_of_lt hnum htop
  obtain ⟨_, _, hd⟩ := ofNat_of_lt hden htop
  have hunit := Nat.two_pow_pos f.unit
  rw [hn, hd, div]
  rcases Nat.eq_zero_or_pos den with rfl | hpos
  · have hzero : num * 2 ^ f.unit * 2 ^ f.unit = 0 ↔ num * 2 ^ f.unit = 0 := by
      rw [Nat.mul_eq_zero]
      exact or_iff_left (Nat.ne_of_gt hunit)
    simp only [ofQuotient, Nat.zero_mul, Nat.lt_irrefl, dif_neg, not_false_eq_true, hzero]
  · simp only [ofQuotient, dif_pos hpos, dif_pos (Nat.mul_pos hpos hunit),
      round_mul_right f.digits hunit]

/-- Whatever is divided by nothing: infinity, from the first time on that it is added. -/
theorem iterate_add_div_zero (hnum : 0 < num) (k : Nat) :
    (fun p : Number f => p.add (ofQuotient (num * 2 ^ f.unit) 0))^[k + 1] zero = .infinite := by
  have hinfinite : (ofQuotient (num * 2 ^ f.unit) 0 : Number f) = .infinite := by
    rw [ofQuotient, dif_neg (Nat.lt_irrefl 0),
      if_neg (Nat.ne_of_gt (Nat.mul_pos hnum (Nat.two_pow_pos _)))]
  rw [hinfinite]
  induction k with
  | zero => rfl
  | succ k ih =>
      rw [Function.iterate_succ_apply', ih]
      rfl

/-- Adding nothing. -/
theorem iterate_add_zero_div (hden : 0 < den) (k : Nat) :
    (fun p : Number f => p.add (ofQuotient (0 * 2 ^ f.unit) den))^[k] zero = zero := by
  have hdigits : 0 < f.digits := Nat.lt_of_lt_of_le Nat.two_pos f.two_le_digits
  have hround : ∀ {den : Nat}, 0 < den → round f.digits 0 den = 0 := by
    intro den hden
    have hexact := round_of_fits (t := f.digits) (n := 0) hden (dvd_zero _)
    rwa [Nat.zero_mul] at hexact
  have hzero : ∀ {den : Nat}, 0 < den → (ofQuotient 0 den : Number f) = zero := by
    intro den hden
    obtain ⟨_, heq⟩ := ofQuotient_of_lt (f := f) hden
      (by rw [hround hden]; exact Nat.two_pow_pos _)
    exact heq.trans (finite_congr (hround hden))
  apply iterate_add_of_stuck
  rw [Nat.zero_mul, hzero hden]
  exact hzero Nat.one_pos

/-- The small quotients of a format in which nothing that they come to is too large. -/
structure Small (f : Format) (w num den : Nat) : Prop where
  digits : w < f.digits
  unit : 2 * w ≤ f.unit
  top : f.digits + w + f.unit < f.top
  num_pos : 0 < num
  num_lt : num < 2 ^ w
  den_pos : 0 < den
  den_lt : den < 2 ^ w

theorem stop_le (h : Small f w num den) : stop f.digits num den ≤ 2 ^ (f.digits + w) := by
  apply Nat.pow_le_pow_right Nat.two_pos
  apply Nat.clog_le_of_le_pow
  apply (ceilDiv_le_iff_le_mul h.den_pos).2
  calc 2 ^ f.digits * num ≤ 2 ^ f.digits * 2 ^ w := Nat.mul_le_mul_left _ (Nat.le_of_lt h.num_lt)
    _ = 2 ^ (f.digits + w) := (Nat.pow_add 2 _ _).symm
    _ ≤ den * 2 ^ (f.digits + w) := Nat.le_mul_of_pos_left _ h.den_pos

/-- Its units, and that what they climb to is not too large. -/
theorem ofQuotient_small (h : Small f w num den) :
    0 < round f.digits (num * 2 ^ f.unit) den ∧
      num * 2 ^ f.unit ≤ 2 * (round f.digits (num * 2 ^ f.unit) den * den) ∧
      round f.digits (num * 2 ^ f.unit) den ≤ 2 ^ (w + f.unit) ∧
      stallAt f.digits (round f.digits (num * 2 ^ f.unit) den) < 2 ^ f.top := by
  have hdigits : 0 < f.digits := Nat.lt_of_lt_of_le Nat.two_pos f.two_le_digits
  have hle : den ≤ num * 2 ^ f.unit := by
    calc den ≤ 2 ^ w := Nat.le_of_lt h.den_lt
      _ ≤ 2 ^ f.unit := Nat.pow_le_pow_right Nat.two_pos (Nat.le_trans (by omega) h.unit)
      _ ≤ num * 2 ^ f.unit := Nat.le_mul_of_pos_left _ h.num_pos
  have hhalf := le_two_mul_round hdigits h.den_pos hle
  refine ⟨?_, hhalf, ?_, ?_⟩
  · apply Nat.pos_of_ne_zero
    intro hzero
    rw [hzero, Nat.zero_mul, Nat.mul_zero] at hhalf
    have := Nat.mul_pos h.num_pos (Nat.two_pow_pos f.unit)
    omega
  · apply round_le_two_pow hdigits h.den_pos
    calc num * 2 ^ f.unit ≤ 2 ^ w * 2 ^ f.unit := Nat.mul_le_mul_right _ (Nat.le_of_lt h.num_lt)
      _ = 2 ^ (w + f.unit) := (Nat.pow_add 2 _ _).symm
      _ ≤ 2 ^ (w + f.unit) * den := Nat.le_mul_of_pos_right _ h.den_pos
  · rw [stallAt_round h.digits h.unit h.num_pos h.num_lt h.den_pos h.den_lt]
    calc stop f.digits num den * 2 ^ f.unit ≤ 2 ^ (f.digits + w) * 2 ^ f.unit :=
          Nat.mul_le_mul_right _ (stop_le h)
      _ = 2 ^ (f.digits + w + f.unit) := (Nat.pow_add 2 _ _).symm
      _ < 2 ^ f.top := Nat.pow_lt_pow_right Nat.one_lt_two h.top

/-- The sums: as many units as have been climbed to. -/
theorem iterate_add_quotient (h : Small f w num den) (k : Nat) :
    ∃ hfits hlt, (fun p : Number f => p.add (ofQuotient (num * 2 ^ f.unit) den))^[k] zero =
      .finite ((climb f.digits (round f.digits (num * 2 ^ f.unit) den))^[k] 0) hfits hlt := by
  obtain ⟨hpos, -, -, htop⟩ := ofQuotient_small h
  have hle : round f.digits (num * 2 ^ f.unit) den ≤
      stallAt f.digits (round f.digits (num * 2 ^ f.unit) den) := by
    calc round f.digits (num * 2 ^ f.unit) den
        ≤ 2 ^ Nat.clog 2 (round f.digits (num * 2 ^ f.unit) den) :=
          Nat.le_pow_clog Nat.one_lt_two _
      _ ≤ stallAt f.digits (round f.digits (num * 2 ^ f.unit) den) :=
          Nat.pow_le_pow_right Nat.two_pos (Nat.le_add_left _ _)
  obtain ⟨_, heq⟩ := ofQuotient_of_lt (f := f) h.den_pos (Nat.lt_of_le_of_lt hle htop)
  rw [heq]
  exact iterate_add_zero hpos htop k

/-- **A sum never passes the stop.** -/
theorem floor_iterate_le (h : Small f w num den) (hi k : Nat) :
    ((fun p : Number f => p.add (ofQuotient (num * 2 ^ f.unit) den))^[k] zero).floor hi ≤
      stop f.digits num den := by
  obtain ⟨hpos, -⟩ := ofQuotient_small h
  obtain ⟨_, _, heq⟩ := iterate_add_quotient h k
  obtain ⟨-, hle, -⟩ := iterate_climb f.two_le_digits hpos k
  rw [stallAt_round h.digits h.unit h.num_pos h.num_lt h.den_pos h.den_lt] at hle
  rw [heq, floor]
  apply Nat.le_trans (Nat.min_le_left _ _)
  exact Nat.div_le_of_le_mul (Nat.le_trans hle (Nat.le_of_eq (Nat.mul_comm _ _)))

/-- **It comes to the stop.** -/
theorem exists_stop_le_floor (h : Small f w num den) (hi : Nat) :
    ∃ k, min (stop f.digits num den) hi ≤
      ((fun p : Number f => p.add (ofQuotient (num * 2 ^ f.unit) den))^[k] zero).floor hi := by
  obtain ⟨hpos, -⟩ := ofQuotient_small h
  obtain ⟨k, hk⟩ := exists_iterate_climb_eq f.two_le_digits hpos
  obtain ⟨_, _, heq⟩ := iterate_add_quotient h k
  refine ⟨k, ?_⟩
  rw [heq, floor, hk, stallAt_round h.digits h.unit h.num_pos h.num_lt h.den_pos h.den_lt,
    Nat.mul_div_cancel _ (Nat.two_pow_pos _)]

/-- **It comes there soon**: before it, a quarter of what the quotient would is gained each time. -/
theorem mul_le_of_floor_lt (h : Small f w num den) {k n : Nat} (hhi : n ≤ hi)
    (hstop : n ≤ stop f.digits num den)
    (hlt : ((fun p : Number f => p.add (ofQuotient (num * 2 ^ f.unit) den))^[k] zero).floor hi <
      n) : k * num ≤ 4 * n * den := by
  obtain ⟨hpos, hhalf, -⟩ := ofQuotient_small h
  obtain ⟨_, _, heq⟩ := iterate_add_quotient h k
  obtain ⟨-, -, hgain⟩ := iterate_climb f.two_le_digits hpos k
  rw [heq, floor] at hlt
  generalize hunits : (climb f.digits (round f.digits (num * 2 ^ f.unit) den))^[k] 0 = units at *
  generalize hstep : round f.digits (num * 2 ^ f.unit) den = s at *
  have hwhole : units < n * 2 ^ f.unit := by
    apply (Nat.div_lt_iff_lt_mul (Nat.two_pow_pos _)).1
    omega
  rw [← hstep, stallAt_round h.digits h.unit h.num_pos h.num_lt h.den_pos h.den_lt] at hgain
  rcases hgain with hstall | hgain
  · rw [hstall] at hwhole
    have := Nat.lt_of_mul_lt_mul_right hwhole
    omega
  · apply Nat.le_of_mul_le_mul_right _ (Nat.two_pow_pos f.unit)
    calc k * num * 2 ^ f.unit = k * (num * 2 ^ f.unit) := Nat.mul_assoc _ _ _
      _ ≤ k * (2 * (s * den)) := Nat.mul_le_mul_left k hhalf
      _ = 2 * den * (k * s) := by ring
      _ ≤ 2 * den * (2 * units) := Nat.mul_le_mul_left _ (by rwa [← hstep])
      _ ≤ 2 * den * (2 * (n * 2 ^ f.unit)) :=
          Nat.mul_le_mul_left _ (Nat.mul_le_mul_left 2 (Nat.le_of_lt hwhole))
      _ = 4 * n * den * 2 ^ f.unit := by ring

/-- One addition does not go far. -/
theorem floor_succ_le (h : Small f w num den) {k q : Nat} (hq : q + 1 < 2 ^ f.digits)
    (hhi : q * 2 ^ w ≤ hi)
    (hlt : ((fun p : Number f => p.add (ofQuotient (num * 2 ^ f.unit) den))^[k] zero).floor hi <
      q * 2 ^ w) :
    ((fun p : Number f => p.add (ofQuotient (num * 2 ^ f.unit) den))^[k + 1] zero).floor hi ≤
      (q + 1) * 2 ^ w := by
  obtain ⟨hpos, -, hsmall, -⟩ := ofQuotient_small h
  obtain ⟨_, _, heq⟩ := iterate_add_quotient h k
  obtain ⟨_, _, heq'⟩ := iterate_add_quotient h (k + 1)
  rw [heq, floor] at hlt
  rw [heq', floor, Function.iterate_succ_apply']
  generalize (climb f.digits (round f.digits (num * 2 ^ f.unit) den))^[k] 0 = units at *
  generalize round f.digits (num * 2 ^ f.unit) den = s at *
  have hwhole : units < q * 2 ^ w * 2 ^ f.unit := by
    apply (Nat.div_lt_iff_lt_mul (Nat.two_pow_pos _)).1
    omega
  have hsum : units + s ≤ (q + 1) * 2 ^ (w + f.unit) * 1 := by
    rw [Nat.pow_add] at hsmall
    calc units + s ≤ q * 2 ^ w * 2 ^ f.unit + 2 ^ w * 2 ^ f.unit := by omega
      _ = (q + 1) * 2 ^ (w + f.unit) * 1 := by rw [Nat.pow_add]; ring
  have hround := round_mono (t := f.digits) (Nat.lt_of_lt_of_le Nat.two_pos f.two_le_digits)
    Nat.one_pos hsum
  rw [round_of_fits Nat.one_pos (fits_mul_two_pow hq _)] at hround
  apply Nat.le_trans (Nat.min_le_left _ _)
  apply Nat.div_le_of_le_mul
  calc climb f.digits s units ≤ (q + 1) * 2 ^ (w + f.unit) := hround
    _ = 2 ^ f.unit * ((q + 1) * 2 ^ w) := by rw [Nat.pow_add]; ring

end Quotient

end Number

end DialF.Lib
