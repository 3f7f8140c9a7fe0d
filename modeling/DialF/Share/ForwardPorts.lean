import Mathlib.Data.List.Sort
import DialF.Share.Resolve

/-!
# The forward ports of a share

Which texts are a port or a range (`RangeText`), which specs are allowed (`PortSpec.IsGood`), and
which ports they cover. `resolve_forwardPorts`: with a valid address, upstream and list of devices,
a share resolves exactly where every spec is allowed, its own port is not among the ports, and there
are none on loopback; its forward ports are then all of them, each once and in increasing order; and
where a spec is refused, the error names one that is not allowed.
-/

set_option autoImplicit false

namespace DialF.Share

open DialF.Lib

/-- A number in decimal, behind a plus sign or not. -/
def IsNumeral (s : Str) (n : Nat) : Prop :=
  ∃ digits, (s = digits ∨ s = '+' :: digits) ∧ digits ≠ [] ∧ (∀ c ∈ digits, c.isDigit) ∧
    Nat.ofDigitChars 10 digits 0 = n

/-- The text is a port, or a range from one port to another; white space around it and around its
ends does not count. -/
inductive RangeText (s : Str) : Nat → Nat → Prop where
  | port {n : Nat} : IsNumeral (trim s) n → RangeText s n n
  | range {a b : Str} {c : Char} {lo hi : Nat} : trim s = a ++ c :: b → isDash c = true →
      IsNumeral (trim a) lo → IsNumeral (trim b) hi → RangeText s lo hi

/-- A range that may be forwarded. -/
def GoodEnds (lo hi : Nat) : Prop :=
  1 ≤ lo ∧ lo ≤ hi ∧ hi ≤ 65535 ∧ hi - lo + 1 ≤ maxForwardSpan

namespace PortSpec

/-- The spec is a port, or the range `lo`-`hi`. -/
def Covers : PortSpec → Nat → Nat → Prop
  | .port p, lo, hi => lo = p.toNat ∧ hi = p.toNat
  | .range s, lo, hi => RangeText s lo hi

/-- The ends of the spec are good ones. -/
def IsGood (spec : PortSpec) : Prop :=
  ∃ lo hi, spec.Covers lo hi ∧ GoodEnds lo hi

/-- The port lies between the ends of the spec. -/
def HasPort (spec : PortSpec) (p : Nat) : Prop :=
  ∃ lo hi, spec.Covers lo hi ∧ lo ≤ p ∧ p ≤ hi

/-- The text of a spec, as its errors give it. -/
def text : PortSpec → Str
  | .port p => decimalOf p.toNat
  | .range s => trim s

end PortSpec

/-- The spec that an error names. -/
def PortError.spec : PortError → Str
  | .notANumber _ spec => spec
  | .zero spec => spec
  | .backwards spec => spec
  | .tooWide spec _ => spec

/-- The union of the specs. -/
def InUnion (specs : List PortSpec) (p : Nat) : Prop :=
  ∃ spec ∈ specs, spec.HasPort p

/-- The specs may be forwarded by a share with this address. -/
structure Forwardable (specs : List PortSpec) (bind : BindAddr) : Prop where
  good : ∀ spec ∈ specs, spec.IsGood
  notOwn : ¬ InUnion specs bind.port.toNat
  network : (∃ p, InUnion specs p) → bind.ip.isLoopback = false

/-! ## Numbers -/

variable {s : Str} {n lo hi : Nat}

theorem isDigit_facts {c : Char} (hc : c.isDigit = true) :
    c ≠ '+' ∧ isDash c = false ∧ isWhitespace c = false := by
  have hrange : 48 ≤ c.toNat ∧ c.toNat ≤ 57 := by
    simpa [Char.isDigit, UInt32.le_iff_toNat_le] using hc
  have hchar := Char.ofNat_toNat c
  generalize c.toNat = k at hrange hchar
  obtain ⟨hlow, hhigh⟩ := hrange
  subst hchar
  interval_cases k <;> decide

theorem IsNumeral.unique {m : Nat} (h : IsNumeral s n) (h' : IsNumeral s m) : n = m := by
  obtain ⟨digits, hs, hne, hdigits, rfl⟩ := h
  obtain ⟨digits', hs', hne', hdigits', rfl⟩ := h'
  -- with its plus sign or without, a text has one reading
  have hplus : ∀ ds : Str, (∀ c ∈ ds, c.isDigit) → ∀ t, ds ≠ '+' :: t := by
    rintro ds hds t rfl
    exact (isDigit_facts (hds '+' (by simp))).1 rfl
  rcases hs with rfl | rfl
  · rcases hs' with rfl | rfl
    · rfl
    · exact absurd rfl (hplus _ hdigits _)
  · rcases hs' with rfl | h
    · exact absurd rfl (hplus _ hdigits' _)
    · rw [(List.cons.inj h).2]

theorem parseU16_eq_some_iff : parseU16 s = some n ↔ IsNumeral s n ∧ n ≤ 65535 := by
  have hdigits : ∀ ds : Str, ds ≠ [] → (∀ c ∈ ds, c.isDigit) → stripPrefix ['+'] ds = none := by
    intro ds hne hds
    rw [stripPrefix_eq_none_iff]
    rintro r rfl
    exact (isDigit_facts (hds '+' (by simp))).1 rfl
  simp only [parseU16]
  constructor
  · intro h
    obtain ⟨hbad, h⟩ := Option.ite_none_left_eq_some.1 h
    obtain ⟨hle, h⟩ := Option.ite_none_right_eq_some.1 h
    obtain rfl := Option.some.inj h
    simp only [not_or, not_not, List.all_eq_true] at hbad
    refine ⟨⟨_, ?_, hbad.1, hbad.2, rfl⟩, hle⟩
    cases hstrip : stripPrefix ['+'] s with
    | none => exact Or.inl rfl
    | some rest => exact Or.inr (stripPrefix_eq_some_iff.1 hstrip)
  · rintro ⟨⟨digits, hs, hne, hall, rfl⟩, hle⟩
    have hget : (stripPrefix ['+'] s).getD s = digits := by
      rcases hs with rfl | rfl
      · rw [hdigits _ hne hall, Option.getD_none]
      · rw [show '+' :: digits = ['+'] ++ digits from rfl, stripPrefix_append, Option.getD_some]
    rw [hget, if_neg, if_pos hle]
    rintro (hnil | hnot)
    · exact hne hnil
    · exact hnot (List.all_eq_true.2 hall)

theorem IsNumeral.not_mem (h : IsNumeral s n) {c : Char} (hc : c ∈ s) :
    isDash c = false ∧ isWhitespace c = false := by
  obtain ⟨digits, hs, -, hdigits, -⟩ := h
  rcases hs with rfl | rfl
  · exact (isDigit_facts (hdigits c hc)).2
  · rcases List.mem_cons.1 hc with rfl | hc
    · decide
    · exact (isDigit_facts (hdigits c hc)).2

theorem isNumeral_decimalOf (n : Nat) : IsNumeral (decimalOf n) n := by
  refine ⟨decimalOf n, Or.inl rfl, ?_, ?_, Nat.ofDigitChars_ten_toDigits⟩
  · exact Nat.toDigits_ne_nil
  · intro c hc
    exact Nat.isDigit_of_mem_toDigits (by decide) (by decide) hc

/-! ## Texts -/

theorem mem_dropWhile_of_mem {p : Char → Bool} {c : Char} (hc : p c = false) (h : c ∈ s) :
    c ∈ s.dropWhile p := by
  induction s with
  | nil => exact h
  | cons d s ih =>
      rw [List.dropWhile_cons]
      split
      · rename_i hd
        rcases List.mem_cons.1 h with rfl | h
        · simp [hc] at hd
        · exact ih h
      · exact h

theorem mem_trim_of_mem {c : Char} (hc : isWhitespace c = false) (h : c ∈ s) : c ∈ trim s := by
  rw [trim, List.rdropWhile, List.mem_reverse]
  apply mem_dropWhile_of_mem hc
  rw [List.mem_reverse]
  exact mem_dropWhile_of_mem hc h

theorem splitDash_eq_none_iff : splitDash s = none ↔ ∀ c ∈ s, isDash c = false := by
  rw [splitDash]
  constructor
  · intro h
    have hnil : s.dropWhile (fun c => !isDash c) = [] := by
      cases hdrop : s.dropWhile fun c => !isDash c with
      | nil => rfl
      | cons c rest => simp [hdrop] at h
    simpa using List.dropWhile_eq_nil_iff.1 hnil
  · intro h
    have hnil : s.dropWhile (fun c => !isDash c) = [] :=
      List.dropWhile_eq_nil_iff.2 (by simpa using h)
    rw [hnil]

theorem splitDash_append {a b : Str} {c : Char} (ha : ∀ c ∈ a, isDash c = false)
    (hc : isDash c = true) : splitDash (a ++ c :: b) = some (a, b) := by
  have ha' : ∀ c ∈ a, (!isDash c) = true := by simpa using ha
  rw [splitDash, List.dropWhile_append_of_pos ha', List.takeWhile_append_of_pos ha',
    List.dropWhile_cons_of_neg (by simp [hc]), List.takeWhile_cons_of_neg (by simp [hc])]
  simp

theorem eq_of_splitDash {a b : Str} (h : splitDash s = some (a, b)) :
    ∃ c, s = a ++ c :: b ∧ isDash c = true := by
  rw [splitDash] at h
  cases hdrop : s.dropWhile fun c => !isDash c with
  | nil => simp [hdrop] at h
  | cons c rest =>
      rw [hdrop] at h
      obtain ⟨rfl, rfl⟩ := Prod.mk.inj (Option.some.inj h)
      refine ⟨c, ?_, ?_⟩
      · rw [← hdrop, List.takeWhile_append_dropWhile]
      · have hhead := List.head_dropWhile_not (p := fun c => !isDash c) (l := s) (by simp [hdrop])
        simpa [hdrop] using hhead

/-- The texts of the two ends. -/
def endTexts (spec : Str) : Str × Str :=
  match splitDash spec with
  | some (a, b) => (trim a, trim b)
  | none => (spec, spec)

theorem rangeText_iff :
    RangeText s lo hi ↔
      IsNumeral (endTexts (trim s)).1 lo ∧ IsNumeral (endTexts (trim s)).2 hi := by
  constructor
  · rintro (h | ⟨hsplit, hc, hlo, hhi⟩)
    · have hnone : splitDash (trim s) = none :=
        splitDash_eq_none_iff.2 fun c hc => (h.not_mem hc).1
      rw [endTexts, hnone]
      exact ⟨h, h⟩
    · -- it is split where it should be: at its first dash
      rename_i a b c
      have ha : ∀ d ∈ a, isDash d = false := by
        intro d hd
        cases hdash : isDash d with
        | false => rfl
        | true =>
            -- a dash is not trimmed off, and no numeral has one
            have hblank : isWhitespace d = false := by
              simp only [isDash, Bool.or_eq_true, beq_iff_eq] at hdash
              rcases hdash with rfl | rfl <;> decide
            have hfalse := (hlo.not_mem (mem_trim_of_mem hblank hd)).1
            rw [hdash] at hfalse
            cases hfalse
      rw [endTexts, hsplit, splitDash_append ha hc]
      exact ⟨hlo, hhi⟩
  · rintro ⟨hlo, hhi⟩
    rw [endTexts] at hlo hhi
    cases hsplit : splitDash (trim s) with
    | none =>
        rw [hsplit] at hlo hhi
        obtain rfl := hlo.unique hhi
        exact .port hlo
    | some ends =>
        obtain ⟨a, b⟩ := ends
        rw [hsplit] at hlo hhi
        obtain ⟨c, htrim, hc⟩ := eq_of_splitDash hsplit
        exact .range htrim hc hlo hhi

theorem RangeText.unique {lo' hi' : Nat} (h : RangeText s lo hi) (h' : RangeText s lo' hi') :
    lo = lo' ∧ hi = hi' := by
  rw [rangeText_iff] at h h'
  exact ⟨h.1.unique h'.1, h.2.unique h'.2⟩

/-! ## Specs -/

theorem parsePortSpec_of_lo (hlo : parseU16 (endTexts (trim s)).1 = none) :
    parsePortSpec s = .error (.notANumber (endTexts (trim s)).1 (trim s)) := by
  rw [endTexts] at hlo ⊢
  cases hsplit : splitDash (trim s) with
  | none =>
      rw [hsplit] at hlo
      simp [parsePortSpec, hsplit, hlo]
  | some ends =>
      rw [hsplit] at hlo
      simp [parsePortSpec, hsplit, hlo]

theorem parsePortSpec_of_hi {l : Nat} (hlo : parseU16 (endTexts (trim s)).1 = some l)
    (hhi : parseU16 (endTexts (trim s)).2 = none) :
    parsePortSpec s = .error (.notANumber (endTexts (trim s)).2 (trim s)) := by
  rw [endTexts] at hlo hhi ⊢
  cases hsplit : splitDash (trim s) with
  | none =>
      rw [hsplit] at hlo hhi
      simp [hlo] at hhi
  | some ends =>
      rw [hsplit] at hlo hhi
      simp [parsePortSpec, hsplit, hlo, hhi]

theorem parsePortSpec_of_ends {l h : Nat} (hlo : parseU16 (endTexts (trim s)).1 = some l)
    (hhi : parseU16 (endTexts (trim s)).2 = some h) :
    parsePortSpec s =
      if l = 0 ∨ h = 0 then .error (.zero (trim s))
      else if h < l then .error (.backwards (trim s))
      else if maxForwardSpan < h - l + 1 then .error (.tooWide (trim s) (h - l + 1))
      else .ok (List.range' l (h - l + 1)) := by
  rw [endTexts] at hlo hhi
  cases hsplit : splitDash (trim s) with
  | none =>
      rw [hsplit] at hlo hhi
      simp [parsePortSpec, hsplit, hlo, Option.some.inj (hlo.symm.trans hhi)]
  | some ends =>
      rw [hsplit] at hlo hhi
      simp [parsePortSpec, hsplit, hlo, hhi]

/-- **What a text of ports is parsed to**: the ports of its range, or an error that names it. -/
theorem parsePortSpec_spec (s : Str) :
    (∃ lo hi, RangeText s lo hi ∧ GoodEnds lo hi ∧
        parsePortSpec s = .ok (List.range' lo (hi - lo + 1))) ∨
      (¬ ∃ lo hi, RangeText s lo hi ∧ GoodEnds lo hi) ∧
        ∃ e, parsePortSpec s = .error e ∧ e.spec = trim s := by
  cases hlo : parseU16 (endTexts (trim s)).1 with
  | none =>
      rw [parsePortSpec_of_lo hlo]
      refine Or.inr ⟨?_, _, rfl, rfl⟩
      rintro ⟨lo, hi, hrange, hgood⟩
      have hle : lo ≤ 65535 := by
        obtain ⟨-, hle, hmax, -⟩ := hgood
        omega
      simp [parseU16_eq_some_iff.2 ⟨(rangeText_iff.1 hrange).1, hle⟩] at hlo
  | some l =>
      cases hhi : parseU16 (endTexts (trim s)).2 with
      | none =>
          rw [parsePortSpec_of_hi hlo hhi]
          refine Or.inr ⟨?_, _, rfl, rfl⟩
          rintro ⟨lo, hi, hrange, hgood⟩
          simp [parseU16_eq_some_iff.2 ⟨(rangeText_iff.1 hrange).2, hgood.2.2.1⟩] at hhi
      | some h =>
          rw [parsePortSpec_of_ends hlo hhi]
          have hrange : RangeText s l h :=
            rangeText_iff.2 ⟨(parseU16_eq_some_iff.1 hlo).1, (parseU16_eq_some_iff.1 hhi).1⟩
          have hmax := (parseU16_eq_some_iff.1 hhi).2
          have hnot : ¬ GoodEnds l h → ¬ ∃ lo hi, RangeText s lo hi ∧ GoodEnds lo hi := by
            rintro hbad ⟨lo, hi, hrange', hgood⟩
            obtain ⟨rfl, rfl⟩ := hrange.unique hrange'
            exact hbad hgood
          by_cases hzero : l = 0 ∨ h = 0
          · simp only [if_pos hzero]
            refine Or.inr ⟨hnot ?_, _, rfl, rfl⟩
            rintro ⟨hone, hle, -, -⟩
            omega
          · by_cases hback : h < l
            · simp only [if_neg hzero, if_pos hback]
              refine Or.inr ⟨hnot ?_, _, rfl, rfl⟩
              rintro ⟨-, hle, -, -⟩
              omega
            · by_cases hspan : maxForwardSpan < h - l + 1
              · simp only [if_neg hzero, if_neg hback, if_pos hspan]
                refine Or.inr ⟨hnot ?_, _, rfl, rfl⟩
                rintro ⟨-, -, -, hle⟩
                omega
              · simp only [if_neg hzero, if_neg hback, if_neg hspan]
                exact Or.inl ⟨l, h, hrange, ⟨by omega, by omega, hmax, by omega⟩, rfl⟩

example : parsePortSpec " 65534:65535".toList = .ok [65534, 65535] := by decide +kernel

theorem trim_decimalOf (n : Nat) : trim (decimalOf n) = decimalOf n :=
  trim_eq_self fun _ hc => ((isNumeral_decimalOf n).not_mem hc).2

theorem rangeText_decimalOf : RangeText (decimalOf n) lo hi ↔ lo = n ∧ hi = n := by
  have hself : RangeText (decimalOf n) n n := by
    apply RangeText.port
    rw [trim_decimalOf]
    exact isNumeral_decimalOf n
  constructor
  · intro h
    exact h.unique hself
  · rintro ⟨rfl, rfl⟩
    exact hself

/-- **What a spec expands to.** -/
theorem expand_spec (spec : PortSpec) :
    (∃ lo hi, spec.Covers lo hi ∧ GoodEnds lo hi ∧
        spec.expand = .ok (List.range' lo (hi - lo + 1))) ∨
      ¬ spec.IsGood ∧ ∃ e, spec.expand = .error e ∧ e.spec = spec.text := by
  cases spec with
  | port p =>
      have h := parsePortSpec_spec (decimalOf p.toNat)
      simp only [rangeText_decimalOf, trim_decimalOf] at h
      exact h
  | range s => exact parsePortSpec_spec s

theorem PortSpec.Covers.unique {spec : PortSpec} {lo' hi' : Nat} (h : spec.Covers lo hi)
    (h' : spec.Covers lo' hi') : lo = lo' ∧ hi = hi' := by
  cases spec with
  | port p => exact ⟨h.1.trans h'.1.symm, h.2.trans h'.2.symm⟩
  | range s => exact RangeText.unique h h'

/-- **What a list of specs expands to**: all of their ports, or the error of one that is not
allowed. -/
theorem expandAll_spec (specs : List PortSpec) :
    ((∀ spec ∈ specs, spec.IsGood) ∧
        ∃ ports, expandAll specs = .ok ports ∧ ∀ p, p ∈ ports ↔ InUnion specs p) ∨
      ∃ spec ∈ specs, ¬ spec.IsGood ∧ ∃ e, expandAll specs = .error e ∧ e.spec = spec.text := by
  induction specs with
  | nil => exact Or.inl ⟨by simp, [], rfl, by simp [InUnion]⟩
  | cons spec specs ih =>
      rw [expandAll]
      rcases expand_spec spec with ⟨lo, hi, hcovers, hgood, hexpand⟩ | ⟨hbad, e, hexpand, he⟩
      · rw [hexpand]
        rcases ih with ⟨hall, ports, hports, hmem⟩ | ⟨spec', hspec', hbad, e, hports, he⟩
        · rw [hports]
          refine Or.inl ⟨?_, _, rfl, ?_⟩
          · simp only [List.forall_mem_cons]
            exact ⟨⟨lo, hi, hcovers, hgood⟩, hall⟩
          · intro p
            rw [List.mem_append, hmem, List.mem_range'_1, InUnion, InUnion]
            simp only [List.mem_cons, exists_eq_or_imp]
            refine or_congr ?_ Iff.rfl
            constructor
            · rintro ⟨hlo, hhi⟩
              have hle := hgood.2.1
              exact ⟨lo, hi, hcovers, hlo, by omega⟩
            · rintro ⟨lo', hi', hcovers', hlo, hhi⟩
              obtain ⟨rfl, rfl⟩ := hcovers.unique hcovers'
              omega
        · rw [hports]
          exact Or.inr ⟨spec', List.mem_cons_of_mem spec hspec', hbad, e, rfl, he⟩
      · rw [hexpand]
        exact Or.inr ⟨spec, List.mem_cons_self, hbad, e, rfl, he⟩

/-! ## Ports, each once -/

theorem mem_destutter'_iff {ports : List Nat} {q p : Nat} :
    p ∈ ports.destutter' (· ≠ ·) q ↔ p = q ∨ p ∈ ports := by
  induction ports generalizing q with
  | nil => simp
  | cons r ports ih =>
      rw [List.destutter'_cons, List.mem_cons]
      split
      · rw [List.mem_cons, ih]
      · rename_i hsame
        obtain rfl : q = r := not_not.1 hsame
        rw [ih]
        tauto

theorem mem_destutter_iff {ports : List Nat} {p : Nat} :
    p ∈ ports.destutter (· ≠ ·) ↔ p ∈ ports := by
  cases ports with
  | nil => rfl
  | cons q ports => rw [List.destutter_cons', mem_destutter'_iff, List.mem_cons]

theorem pairwise_destutter {ports : List Nat} (h : ports.Pairwise (· ≤ ·)) :
    (ports.destutter (· ≠ ·)).Pairwise (· < ·) := by
  have hle := List.isChain_iff_getElem.1 (h.sublist (List.destutter_sublist (· ≠ ·) ports)).isChain
  have hne := List.isChain_iff_getElem.1 (List.isChain_destutter (· ≠ ·) ports)
  apply List.IsChain.pairwise
  apply List.isChain_iff_getElem.2
  intro i hi
  exact lt_of_le_of_ne (hle i hi) (hne i hi)

theorem mem_sorted_iff {ports : List Nat} {p : Nat} :
    p ∈ (ports.mergeSort (· ≤ ·)).destutter (· ≠ ·) ↔ p ∈ ports := by
  rw [mem_destutter_iff, List.mem_mergeSort]

theorem pairwise_sorted (ports : List Nat) :
    ((ports.mergeSort (· ≤ ·)).destutter (· ≠ ·)).Pairwise (· < ·) := by
  apply pairwise_destutter
  exact List.pairwise_mergeSort' (· ≤ ·) ports

/-! ## Resolving -/

variable {cfg : ShareConfig} {bind : BindAddr}

theorem Forwardable.pos {p : Nat} (h : ∀ spec ∈ cfg.forwardPorts, spec.IsGood)
    (hp : InUnion cfg.forwardPorts p) : p ≠ 0 := by
  obtain ⟨spec, hspec, lo, hi, hcovers, hlo, -⟩ := hp
  obtain ⟨lo', hi', hcovers', hgood⟩ := h spec hspec
  obtain ⟨rfl, rfl⟩ := hcovers.unique hcovers'
  have hone := hgood.1
  omega

/-- **The forward ports of a config**, with this address to bind. -/
theorem resolvePorts_spec (cfg : ShareConfig) (bind : BindAddr) :
    (Forwardable cfg.forwardPorts bind ∧ ∃ ports, cfg.resolvePorts bind = .ok ports ∧
        ports.Pairwise (· < ·) ∧ ∀ p, p ∈ ports ↔ InUnion cfg.forwardPorts p) ∨
      ¬ Forwardable cfg.forwardPorts bind ∧ ∃ e, cfg.resolvePorts bind = .error e ∧
        ∀ pe, e = .port pe → ∃ spec ∈ cfg.forwardPorts, ¬ spec.IsGood ∧ pe.spec = spec.text := by
  rw [ShareConfig.resolvePorts]
  rcases expandAll_spec cfg.forwardPorts with
    ⟨hgood, ports, hports, hmem⟩ | ⟨spec, hspec, hbad, e, hports, he⟩
  · simp only [hports]
    have hsorted : ∀ p, p ∈ (ports.mergeSort (· ≤ ·)).destutter (· ≠ ·) ↔
        InUnion cfg.forwardPorts p := fun p => mem_sorted_iff.trans (hmem p)
    have hincreasing := pairwise_sorted ports
    generalize (ports.mergeSort (· ≤ ·)).destutter (· ≠ ·) = sorted at hsorted hincreasing
    by_cases hown : bind.port.toNat ∈ sorted
    · refine Or.inr ⟨fun h => h.notOwn ((hsorted _).1 hown), _, if_pos hown, ?_⟩
      intro pe hpe
      cases hpe
    · have hzero : 0 ∉ sorted := fun h => Forwardable.pos hgood ((hsorted 0).1 h) rfl
      by_cases hloop : sorted ≠ [] ∧ bind.ip.isLoopback = true
      · refine Or.inr ⟨?_, .loopback bind, ?_, ?_⟩
        · intro h
          obtain ⟨p, hp⟩ := List.exists_mem_of_ne_nil sorted hloop.1
          have hnetwork := h.network ⟨p, (hsorted p).1 hp⟩
          rw [hloop.2] at hnetwork
          cases hnetwork
        · simp only [if_neg hown, if_neg hzero, if_pos hloop]
        · intro pe hpe
          cases hpe
      · refine Or.inl ⟨⟨hgood, fun h => hown ((hsorted _).2 h), ?_⟩, sorted, ?_, hincreasing,
          hsorted⟩
        · rintro ⟨p, hp⟩
          have hne : sorted ≠ [] := List.ne_nil_of_mem ((hsorted p).2 hp)
          simpa [hne] using hloop
        · simp only [if_neg hown, if_neg hzero, if_neg hloop]
  · simp only [hports]
    refine Or.inr ⟨fun h => hbad (h.good spec hspec), .port e, rfl, ?_⟩
    rintro _ ⟨⟩
    exact ⟨spec, hspec, hbad, he⟩

section Resolve

variable {parseAddr : Str → Option BindAddr} {profile : Profile} {upstream : Upstream}
  {targets : Targets}

/-- With the other settings valid, a share resolves where its ports do. -/
theorem resolve_eq (newToken : Str) (withToken : Bool)
    (hbind : parseAddr (cfg.bindStr profile) = some bind)
    (hupstream : cfg.resolveUpstream profile = .ok upstream)
    (htargets : cfg.resolveTargets = .ok targets) :
    cfg.resolve parseAddr newToken profile withToken =
      match cfg.resolvePorts bind with
      | .error e => .error e
      | .ok forwardPorts =>
          .ok {
            profile, bind, upstream, targets
            token := if withToken then some newToken else none
            expiresAfter :=
              if 0 < cfg.expireAfter then some cfg.expireAfter.toInt.toNat else none
            forwardPorts } := by
  cases hports : cfg.resolvePorts bind <;>
    simp only [ShareConfig.resolve, hbind, hupstream, htargets, hports]

/-- **The forward ports of a share**: it resolves exactly where they may be forwarded, to all of
them in increasing order, and an error about a spec names one that is not allowed. -/
theorem resolve_forwardPorts {newToken : Str} {withToken : Bool}
    (hbind : parseAddr (cfg.bindStr profile) = some bind)
    (hupstream : cfg.resolveUpstream profile = .ok upstream)
    (htargets : cfg.resolveTargets = .ok targets) :
    ((∃ r, cfg.resolve parseAddr newToken profile withToken = .ok r) ↔
        Forwardable cfg.forwardPorts bind) ∧
      (∀ r, cfg.resolve parseAddr newToken profile withToken = .ok r →
        r.forwardPorts.Pairwise (· < ·) ∧
          ∀ p, p ∈ r.forwardPorts ↔ InUnion cfg.forwardPorts p) ∧
      ∀ e, cfg.resolve parseAddr newToken profile withToken = .error (.port e) →
        ∃ spec ∈ cfg.forwardPorts, ¬ spec.IsGood ∧ e.spec = spec.text := by
  have heq := resolve_eq newToken withToken hbind hupstream htargets
  rcases resolvePorts_spec cfg bind with
    ⟨hgood, ports, hports, hincreasing, hmem⟩ | ⟨hbad, e, hports, he⟩
  · rw [heq, hports]
    refine ⟨⟨fun _ => hgood, fun _ => ⟨_, rfl⟩⟩, ?_, ?_⟩
    · rintro r ⟨⟩
      exact ⟨hincreasing, hmem⟩
    · intro e h
      cases h
  · rw [heq, hports]
    refine ⟨⟨?_, fun h => absurd h hbad⟩, ?_, ?_⟩
    · rintro ⟨r, h⟩
      cases h
    · intro r h
      cases h
    · rintro pe ⟨⟩
      exact he pe rfl

theorem resolve_forwardPorts_overlapping :
    ∃ cfg : ShareConfig, cfg.forwardPorts = [.range "5000-5002".toList, .port 5001] ∧
      ((∃ r, cfg.resolve (fun _ => some ⟨.v4 0 0 0 0, 5939⟩) [] .adb false = .ok r) ↔
        Forwardable cfg.forwardPorts ⟨.v4 0 0 0 0, 5939⟩) ∧
      (∀ r, cfg.resolve (fun _ => some ⟨.v4 0 0 0 0, 5939⟩) [] .adb false = .ok r →
        r.forwardPorts.Pairwise (· < ·) ∧
          ∀ p, p ∈ r.forwardPorts ↔ InUnion cfg.forwardPorts p) ∧
      ∀ e, cfg.resolve (fun _ => some ⟨.v4 0 0 0 0, 5939⟩) [] .adb false = .error (.port e) →
        ∃ spec ∈ cfg.forwardPorts, ¬ spec.IsGood ∧ e.spec = spec.text := by
  refine ⟨⟨none, none, [], true, 3600, [.range "5000-5002".toList, .port 5001]⟩, rfl, ?_⟩
  exact resolve_forwardPorts rfl rfl rfl

end Resolve

end DialF.Share
