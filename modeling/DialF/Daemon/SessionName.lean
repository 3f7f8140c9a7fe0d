import Mathlib.Data.List.DropRight
import Mathlib.Data.List.Infix
import DialF.Lib.Text

/-!
# Session names

A recording is named after the label that its job was given. A label is reduced to letters, digits,
`_`, `.` and `-`: every run of other characters becomes one `-`, the dots and dashes at the ends are
taken off, and at most 40 characters are kept. Dots inside the label stay as they are, also two in a
row: `sessionName_safe_iff` says which labels leave two adjacent dots in the name, and that all else
holds of every label.
-/

set_option autoImplicit false

namespace DialF.Daemon

open DialF.Lib

/-! ## Labels -/

/-- `MAX_LABEL_LEN`. -/
def maxLabelLen : Nat := 40

/-- What a label is reduced to. -/
def isLabelChar (c : Char) : Bool := c.isAlphanum || c == '.' || c == '_' || c == '-'

/-- What is trimmed at both ends of a label. -/
def isDashOrDot (c : Char) : Bool := c == '-' || c == '.'

/-- One character of a label, behind what has been kept. -/
def pushLabelChar (out : Str) (c : Char) : Str :=
  if isLabelChar c then out ++ [c]
  else if out.getLast? ≠ some '-' then out ++ ['-']
  else out

/-- `trim_matches(['-', '.'])` -/
def trimDashesAndDots (s : Str) : Str := (s.dropWhile isDashOrDot).rdropWhile isDashOrDot

/-- Reduce a user-supplied label to something safe to put in a filename. -/
def sanitizeLabel (label : Str) : Option Str :=
  let out := label.foldl pushLabelChar []
  let cleaned := trimDashesAndDots ((trimDashesAndDots out).take maxLabelLen)
  if cleaned = [] then none else some cleaned

/-- Recording session name. -/
def sessionName (label : Option Str) (ts : Int) : Str :=
  match label.bind sanitizeLabel with
  | some l => "dialf-job-".toList ++ l ++ '-' :: (toString ts).toList
  | none => "dialf-job-".toList ++ (toString ts).toList

/-! ## What is kept -/

/-- What is kept of a text, behind a `-` or not. -/
def keptText (dash : Bool) : Str → Str
  | [] => []
  | c :: s =>
      if isLabelChar c then c :: keptText (c == '-') s
      else if dash then keptText true s
      else '-' :: keptText true s

/-- How many characters are kept: those of labels, and one for each run of others that does not
follow a `-`. -/
def width (dash : Bool) : Str → Nat
  | [] => 0
  | c :: s =>
      if isLabelChar c then width (c == '-') s + 1
      else if dash then width true s
      else width true s + 1

attribute [local simp] keptText width

theorem length_keptText (dash : Bool) (s : Str) : (keptText dash s).length = width dash s := by
  induction s generalizing dash with
  | nil => rfl
  | cons c s ih =>
      rw [keptText, width]
      split
      · rw [List.length_cons, ih]
      · split
        · exact ih true
        · rw [List.length_cons, ih]

theorem foldl_pushLabelChar (out s : Str) :
    s.foldl pushLabelChar out = out ++ keptText (decide (out.getLast? = some '-')) s := by
  induction s generalizing out with
  | nil => simp [keptText]
  | cons c s ih =>
      rw [List.foldl_cons, ih, pushLabelChar, keptText]
      by_cases hc : isLabelChar c = true
      · have hlast : decide ((out ++ [c]).getLast? = some '-') = (c == '-') := by simp [beq_eq_decide]
        rw [if_pos hc, if_pos hc, hlast, List.append_assoc]
        rfl
      · rw [if_neg hc, if_neg hc]
        by_cases hdash : out.getLast? = some '-'
        · rw [if_neg (not_not_intro hdash), decide_eq_true hdash]
          rfl
        · have hlast : decide ((out ++ ['-']).getLast? = some '-') = true := by simp
          rw [if_pos hdash, decide_eq_false hdash, hlast, List.append_assoc]
          rfl

theorem isLabelChar_of_mem_keptText {dash : Bool} {s : Str} {c : Char} (h : c ∈ keptText dash s) :
    isLabelChar c = true := by
  induction s generalizing dash with
  | nil => cases h
  | cons d s ih =>
      rw [keptText] at h
      split at h
      · rename_i hd
        rcases List.mem_cons.1 h with rfl | h
        · exact hd
        · exact ih h
      · split at h
        · exact ih h
        · rcases List.mem_cons.1 h with rfl | h
          · rfl
          · exact ih h

/-- What can be in a label is kept. -/
theorem keptText_of_forall {s : Str} (h : ∀ c ∈ s, isLabelChar c = true) (dash : Bool) :
    keptText dash s = s := by
  induction s generalizing dash with
  | nil => rfl
  | cons c s ih =>
      rw [keptText, if_pos (h c List.mem_cons_self),
        ih (fun d hd => h d (List.mem_cons_of_mem c hd))]

/-- A character of labels other than `-` cuts a text in two. -/
theorem keptText_append_cons {c : Char} (hc : isLabelChar c = true) (hdash : c ≠ '-') (dash : Bool)
    (s t : Str) : keptText dash (s ++ c :: t) = keptText dash s ++ c :: keptText false t := by
  induction s generalizing dash with
  | nil =>
      show keptText dash (c :: t) = c :: keptText false t
      rw [keptText, if_pos hc, beq_false_of_ne hdash]
  | cons d s ih =>
      rw [List.cons_append, keptText, keptText]
      split
      · rw [ih, List.cons_append]
      · split
        · exact ih true
        · rw [ih, List.cons_append]

/-- And is found there. -/
theorem exists_of_keptText_eq {c : Char} (hdash : c ≠ '-') {dash : Bool} {s p q : Str}
    (h : keptText dash s = p ++ c :: q) :
    ∃ a b, s = a ++ c :: b ∧ keptText dash a = p ∧ keptText false b = q := by
  induction s generalizing dash p with
  | nil => simp [keptText] at h
  | cons d s ih =>
      rw [keptText] at h
      split at h
      · rename_i hd
        cases p with
        | nil =>
            obtain ⟨rfl, hq⟩ := List.cons.inj h
            rw [beq_false_of_ne hdash] at hq
            exact ⟨[], s, rfl, rfl, hq⟩
        | cons e p =>
            obtain ⟨rfl, hp⟩ := List.cons.inj h
            obtain ⟨a, b, rfl, ha, hb⟩ := ih hp
            exact ⟨d :: a, b, rfl, by rw [keptText, if_pos hd, ha], hb⟩
      · rename_i hd
        split at h
        · rename_i hbefore
          obtain ⟨a, b, rfl, ha, hb⟩ := ih h
          exact ⟨d :: a, b, rfl, by rw [keptText, if_neg hd, if_pos hbefore, ha], hb⟩
        · rename_i hbefore
          cases p with
          | nil => exact absurd (List.cons.inj h).1.symm hdash
          | cons e p =>
              obtain ⟨rfl, hp⟩ := List.cons.inj h
              obtain ⟨a, b, rfl, ha, hb⟩ := ih hp
              exact ⟨d :: a, b, rfl, by rw [keptText, if_neg hd, if_neg hbefore, ha], hb⟩

/-! ## What is trimmed -/

/-- A letter, a digit or `_`. -/
def isWordChar (c : Char) : Bool := c.isAlphanum || c == '_'

theorem isWordChar_iff {c : Char} :
    isWordChar c = true ↔ isLabelChar c = true ∧ isDashOrDot c = false := by
  by_cases hdash : c = '-'
  · subst hdash
    decide
  · by_cases hdot : c = '.'
    · subst hdot
      decide
    · simp [isWordChar, isLabelChar, isDashOrDot, hdash, hdot]

theorem isDashOrDot_of_isLabelChar {c : Char} (h : isLabelChar c = true)
    (hc : isWordChar c = false) : isDashOrDot c = true := by
  by_contra hnot
  rw [isWordChar_iff.2 ⟨h, eq_false_of_ne_true hnot⟩] at hc
  cases hc

/-- What is kept begins, but for dashes and dots, with the first letter, digit or `_`. -/
theorem dropWhile_keptText (dash : Bool) (s : Str) :
    (keptText dash s).dropWhile isDashOrDot =
      keptText false (s.dropWhile fun c => !isWordChar c) := by
  induction s generalizing dash with
  | nil => rfl
  | cons c s ih =>
      cases hword : isWordChar c with
      | true =>
          obtain ⟨hlabel, hedge⟩ := isWordChar_iff.1 hword
          rw [List.dropWhile_cons_of_neg (by simp [hword]), keptText, keptText, if_pos hlabel,
            if_pos hlabel, List.dropWhile_cons_of_neg (by simp [hedge])]
      | false =>
          rw [List.dropWhile_cons_of_pos (by simp [hword]), keptText]
          by_cases hlabel : isLabelChar c = true
          · have hedge := isDashOrDot_of_isLabelChar hlabel hword
            rw [if_pos hlabel, List.dropWhile_cons_of_pos hedge, ih]
          · rw [if_neg hlabel]
            split
            · exact ih true
            · rw [List.dropWhile_cons_of_pos (by decide), ih]

section RDropWhile

variable {α : Type} (p : α → Bool)

/-- What is taken off at the end, before and after a cut. -/
theorem rdropWhile_take (l : List α) (n : Nat) :
    ((l.rdropWhile p).take n).rdropWhile p = (l.take n).rdropWhile p := by
  induction l using List.reverseRecOn with
  | nil => rfl
  | append_singleton l a ih =>
      by_cases ha : p a = true
      · rw [List.rdropWhile_concat_pos _ _ _ ha, ih]
        rcases Nat.lt_or_ge l.length n with hlt | hle
        · have htake : (l ++ [a]).take n = l ++ [a] :=
            List.take_of_length_le (by rw [List.length_append, List.length_singleton]; omega)
          rw [htake, List.rdropWhile_concat_pos _ _ _ ha, List.take_of_length_le hlt.le]
        · rw [List.take_append_of_le_length hle]
      · rw [List.rdropWhile_concat_neg _ _ _ ha]

/-- Nothing up to an element that stays is taken off. -/
theorem rdropWhile_append_cons {a : α} (ha : p a = false) (l t : List α) :
    (l ++ a :: t).rdropWhile p = l ++ a :: t.rdropWhile p := by
  induction t using List.reverseRecOn with
  | nil => rw [List.rdropWhile_concat_neg _ _ _ (by simp [ha])]; rfl
  | append_singleton t b ih =>
      have hassoc : l ++ a :: (t ++ [b]) = (l ++ a :: t) ++ [b] := by simp
      rw [hassoc]
      by_cases hb : p b = true
      · rw [List.rdropWhile_concat_pos _ _ _ hb, ih, List.rdropWhile_concat_pos _ _ _ hb]
      · rw [List.rdropWhile_concat_neg _ _ _ hb, List.rdropWhile_concat_neg _ _ _ hb]
        simp

/-- What is not taken off ends in an element that stays. -/
theorem exists_last_of_rdropWhile {l : List α} (h : l.rdropWhile p ≠ []) :
    ∃ init a, l.rdropWhile p = init ++ [a] ∧ p a = false := by
  have hlast := List.rdropWhile_last_not p l h
  exact ⟨_, _, (List.dropLast_append_getLast h).symm, eq_false_of_ne_true hlast⟩

end RDropWhile

/-- What is kept from the first letter, digit or `_` on does not begin with a dash or a dot. -/
theorem isDashOrDot_head_keptText {text s : Str} {c : Char}
    (h : keptText false (text.dropWhile fun c => !isWordChar c) = c :: s) :
    isDashOrDot c = false := by
  rw [← dropWhile_keptText false] at h
  have hhead := List.head_dropWhile_not isDashOrDot (l := keptText false text) (by rw [h]; simp)
  simpa [h] using hhead

/-- **What is left of a label.** -/
theorem sanitizeLabel_eq (label : Str) :
    sanitizeLabel label =
      let cleaned := ((keptText false (label.dropWhile fun c => !isWordChar c)).take maxLabelLen).rdropWhile
        isDashOrDot
      if cleaned = [] then none else some cleaned := by
  have hfold : label.foldl pushLabelChar [] = keptText false label := by
    rw [foldl_pushLabelChar]
    rfl
  simp only [sanitizeLabel, trimDashesAndDots, hfold, dropWhile_keptText]
  generalize hstart : keptText false (label.dropWhile fun c => !isWordChar c) = start
  have hpre : (start.rdropWhile isDashOrDot).take maxLabelLen <+: start :=
    (List.take_prefix _ _).trans (List.rdropWhile_prefix _ _)
  have htrimmed : ((start.rdropWhile isDashOrDot).take maxLabelLen).dropWhile isDashOrDot =
      (start.rdropWhile isDashOrDot).take maxLabelLen := by
    cases hcut : (start.rdropWhile isDashOrDot).take maxLabelLen with
    | nil => rfl
    | cons c s =>
        obtain ⟨t, rfl⟩ := hcut ▸ hpre
        exact List.dropWhile_cons_of_neg (by simp [isDashOrDot_head_keptText hstart])
  rw [htrimmed, rdropWhile_take]

/-! ## Safe names -/

/-- What a name may be made of: it is one component of a path, and no other. -/
def IsComponent (name : Str) : Prop :=
  name ≠ [] ∧ (∀ c ∈ name, isLabelChar c = true) ∧ '/' ∉ name ∧ name ≠ ['.'] ∧ name ≠ ['.', '.']

/-- A label in which nothing is left that could do harm. -/
structure SafeLabel (l : Str) : Prop where
  chars : ∀ c ∈ l, isLabelChar c = true
  short : l.length ≤ 40
  head : ∀ c, l.head? = some c → isDashOrDot c = false
  last : ∀ c, l.getLast? = some c → isDashOrDot c = false
  noDots : ¬ ['.', '.'] <:+: l
  again : sanitizeLabel l = some l

/-- **Safe**: the name is one component of a path, and its label is safe. -/
def Safe (label : Option Str) (ts : Int) : Prop :=
  IsComponent (sessionName label ts) ∧ ∀ l, label.bind sanitizeLabel = some l → SafeLabel l

/-- Two adjacent dots of a text, between its first letter, digit or `_` and another one, within the
first 40 characters that are kept from there on. -/
def DotsStay (text : Str) : Prop :=
  ∃ skipped first before behind last rest,
    text = skipped ++ (first :: before) ++ '.' :: '.' :: behind ++ last :: rest ∧
    (∀ c ∈ skipped, isWordChar c = false) ∧ isWordChar first = true ∧ isWordChar last = true ∧
    width false (first :: before ++ '.' :: '.' :: behind ++ [last]) ≤ 40

theorem isLabelChar_of_mem_toString {ts : Int} {c : Char} (h : c ∈ (toString ts).toList) :
    isLabelChar c = true := by
  have hdigits : ∀ (n : Nat) (c : Char), c ∈ (Nat.repr n).toList → isLabelChar c = true := by
    intro n c hc
    have hdigit : c.isDigit = true := by
      rw [Nat.toList_repr] at hc
      exact Nat.isDigit_of_mem_toDigits (by decide) (by decide) hc
    simp [isLabelChar, Char.isAlphanum, hdigit]
  rw [Int.toString_eq_repr, Int.repr_eq_if] at h
  split at h
  · exact hdigits _ c h
  · rw [String.toList_append, List.mem_append] at h
    rcases h with h | h
    · obtain rfl := List.mem_singleton.1 h
      rfl
    · exact hdigits _ c h

theorem isComponent_sessionName (label : Option Str) (ts : Int) :
    IsComponent (sessionName label ts) := by
  have hall : ∀ c ∈ sessionName label ts, isLabelChar c = true := by
    have hstem : ∀ c ∈ "dialf-job-".toList, isLabelChar c = true :=
      List.all_eq_true.1 (by decide)
    intro c hc
    rw [sessionName] at hc
    split at hc
    · rename_i l hl
      obtain ⟨text, -, htext⟩ := Option.bind_eq_some_iff.1 hl
      rcases List.mem_append.1 hc with hc | hc
      · rcases List.mem_append.1 hc with hc | hc
        · exact hstem c hc
        · rw [sanitizeLabel_eq] at htext
          simp only at htext
          split at htext
          · cases htext
          · obtain rfl := Option.some.inj htext
            exact isLabelChar_of_mem_keptText
              (List.mem_of_mem_take ((List.rdropWhile_prefix _ _).mem hc))
      · rcases List.mem_cons.1 hc with rfl | hc
        · rfl
        · exact isLabelChar_of_mem_toString hc
    · rcases List.mem_append.1 hc with hc | hc
      · exact hstem c hc
      · exact isLabelChar_of_mem_toString hc
  have hhead : (sessionName label ts).head? = some 'd' := by
    rw [sessionName]
    split
    · rfl
    · rfl
  refine ⟨?_, hall, fun h => absurd (hall '/' h) (by decide), ?_, ?_⟩
  · intro h
    rw [h] at hhead
    cases hhead
  · intro h
    rw [h] at hhead
    cases hhead
  · intro h
    rw [h] at hhead
    cases hhead

/-- The text that is kept from the first letter, digit or `_` on, cut and trimmed. -/
theorem infix_dots_iff {start : Str} (hchars : ∀ c ∈ start, isLabelChar c = true) :
    ['.', '.'] <:+: (start.take maxLabelLen).rdropWhile isDashOrDot ↔
      ∃ p q last r, start = p ++ '.' :: '.' :: q ++ last :: r ∧ isWordChar last = true ∧
        (p ++ '.' :: '.' :: q ++ [last]).length ≤ 40 := by
  constructor
  · rintro ⟨p, t, hdots⟩
    have hne : (start.take maxLabelLen).rdropWhile isDashOrDot ≠ [] := by
      rw [← hdots]
      simp
    obtain ⟨init, last, hlast, hedge⟩ := exists_last_of_rdropWhile isDashOrDot hne
    -- what is behind the dots ends in a character that stays
    obtain ⟨q, rfl⟩ : ∃ q, t = q ++ [last] := by
      rcases List.eq_nil_or_concat t with rfl | ⟨q, d, rfl⟩
      · have hends : (p ++ ['.']) ++ ['.'] = init ++ [last] := by
          rw [← hlast, ← hdots]
          simp
        obtain rfl := List.singleton_inj.1 (List.append_inj' hends rfl).2
        cases hedge
      · rw [hlast, List.concat_eq_append, ← List.append_assoc] at hdots
        have hd := (List.append_inj' hdots rfl).2
        exact ⟨q, by rw [List.concat_eq_append, List.singleton_inj.1 hd]⟩
    obtain ⟨r, hr⟩ := (List.rdropWhile_prefix isDashOrDot (start.take maxLabelLen)).trans
      (List.take_prefix _ _)
    rw [← hdots] at hr
    have hmem : last ∈ start := by
      rw [← hr]
      simp
    refine ⟨p, q, last, r, by rw [← hr]; simp, isWordChar_iff.2 ⟨hchars last hmem, hedge⟩, ?_⟩
    have hle := (List.rdropWhile_prefix isDashOrDot (start.take maxLabelLen)).length_le
    rw [← hdots, List.length_take] at hle
    have hmax : maxLabelLen = 40 := rfl
    simp only [List.length_append, List.length_cons, List.length_nil] at hle ⊢
    omega
  · rintro ⟨p, q, last, r, rfl, hlast, hlength⟩
    have htake : (p ++ '.' :: '.' :: q ++ last :: r).take maxLabelLen =
        (p ++ '.' :: '.' :: q) ++ last :: r.take (40 - (p ++ '.' :: '.' :: q ++ [last]).length) := by
      have hsplit : p ++ '.' :: '.' :: q ++ last :: r = (p ++ '.' :: '.' :: q ++ [last]) ++ r := by
        simp
      rw [hsplit, show maxLabelLen = 40 from rfl, List.take_append, List.take_of_length_le hlength]
      simp
    rw [htake, rdropWhile_append_cons _ (isWordChar_iff.1 hlast).2]
    generalize (r.take _).rdropWhile isDashOrDot = left
    exact ⟨p, q ++ last :: left, by simp⟩

/-- **Dots that stay**, in the text and in what is kept of it. -/
theorem dotsStay_iff (text : Str) :
    DotsStay text ↔ ['.', '.'] <:+:
      ((keptText false (text.dropWhile fun c => !isWordChar c)).take maxLabelLen).rdropWhile
        isDashOrDot := by
  rw [infix_dots_iff fun c hc => isLabelChar_of_mem_keptText hc]
  have hdot : isLabelChar '.' = true := by decide
  constructor
  · rintro ⟨skipped, first, before, behind, last, rest, rfl, hskipped, hfirst, hlast, hwidth⟩
    have hstart : (skipped ++ (first :: before) ++ '.' :: '.' :: behind ++ last :: rest).dropWhile
        (fun c => !isWordChar c) = first :: before ++ '.' :: '.' :: behind ++ last :: rest := by
      have hassoc : skipped ++ (first :: before) ++ '.' :: '.' :: behind ++ last :: rest =
          skipped ++ (first :: before ++ '.' :: '.' :: behind ++ last :: rest) := by simp
      rw [hassoc, List.dropWhile_append_of_pos fun c hc => by simp [hskipped c hc]]
      exact List.dropWhile_cons_of_neg (by simp [hfirst])
    have hlabel := (isWordChar_iff.1 hlast).1
    have hdash : last ≠ '-' := by
      rintro rfl
      cases hlast
    have hkept : ∀ more, keptText false (first :: before ++ '.' :: '.' :: behind ++ last :: more) =
        keptText false (first :: before) ++ '.' :: '.' :: keptText false behind ++
          last :: keptText false more := by
      intro more
      rw [keptText_append_cons hlabel hdash, keptText_append_cons hdot (by decide),
        show '.' :: behind = [] ++ '.' :: behind from rfl, keptText_append_cons hdot (by decide)]
      rfl
    rw [hstart, hkept]
    refine ⟨_, _, last, _, rfl, hlast, ?_⟩
    rw [← length_keptText, hkept] at hwidth
    exact hwidth
  · rintro ⟨p, q, last, r, heq, hlast, hlength⟩
    have hdash : last ≠ '-' := by
      rintro rfl
      cases hlast
    obtain ⟨upto, rest, htext, hupto, hrest⟩ := exists_of_keptText_eq hdash heq
    obtain ⟨begin, tail, rfl, hbegin, htail⟩ := exists_of_keptText_eq (by decide) hupto
    obtain ⟨between, behind, rfl, hbetween, hbehind⟩ :=
      exists_of_keptText_eq (s := tail) (p := []) (by decide) htail
    -- nothing stands between the dots
    obtain rfl : between = [] := by
      cases between with
      | nil => rfl
      | cons c s =>
          rw [keptText] at hbetween
          split at hbetween
          · cases hbetween
          · cases hbetween
    have hhead : ∀ c s, text.dropWhile (fun c => !isWordChar c) = c :: s → isWordChar c = true := by
      intro c s hcs
      have hfirst :=
        List.head_dropWhile_not (fun c => !isWordChar c) (l := text) (by rw [hcs]; simp)
      simpa [hcs] using hfirst
    cases begin with
    | nil => exact absurd (hhead '.' _ htext) (by decide)
    | cons first before =>
        refine ⟨text.takeWhile fun c => !isWordChar c, first, before, behind, last, rest, ?_, ?_,
          hhead first _ htext, hlast, ?_⟩
        · conv_lhs =>
            rw [← List.takeWhile_append_dropWhile (p := fun c => !isWordChar c) (l := text)]
          rw [htext]
          simp
        · intro c hc
          simpa using List.mem_takeWhile_imp hc
        · rw [← length_keptText, keptText_append_cons (isWordChar_iff.1 hlast).1 hdash,
            show first :: before ++ '.' :: '.' :: behind =
              first :: before ++ '.' :: ([] ++ '.' :: behind) from rfl, hupto]
          exact hlength

/-- A safe text is left as it is. -/
theorem sanitizeLabel_eq_self {l : Str} (hne : l ≠ []) (hchars : ∀ c ∈ l, isLabelChar c = true)
    (hshort : l.length ≤ 40) (hhead : ∀ c, l.head? = some c → isDashOrDot c = false)
    (hlast : ∀ c, l.getLast? = some c → isDashOrDot c = false) : sanitizeLabel l = some l := by
  have hstart : l.dropWhile (fun c => !isWordChar c) = l := by
    cases l with
    | nil => exact absurd rfl hne
    | cons c s =>
        have hword := isWordChar_iff.2 ⟨hchars c List.mem_cons_self, hhead c rfl⟩
        exact List.dropWhile_cons_of_neg (by simp [hword])
  have hend : l.rdropWhile isDashOrDot = l := by
    apply List.rdropWhile_eq_self_iff.2
    intro h
    rw [hlast _ (List.getLast?_eq_getLast_of_ne_nil h)]
    exact Bool.false_ne_true
  rw [sanitizeLabel_eq, hstart, keptText_of_forall hchars, show maxLabelLen = 40 from rfl,
    List.take_of_length_le hshort, hend]
  exact if_neg hne

theorem safeLabel_of_noDots {text l : Str} (h : sanitizeLabel text = some l)
    (hdots : ¬ ['.', '.'] <:+: l) : SafeLabel l := by
  rw [sanitizeLabel_eq] at h
  simp only at h
  split at h
  · cases h
  · rename_i hne
    obtain rfl := Option.some.inj h
    generalize hstart : keptText false (text.dropWhile fun c => !isWordChar c) = start at *
    have hpre : (start.take maxLabelLen).rdropWhile isDashOrDot <+: start :=
      (List.rdropWhile_prefix _ _).trans (List.take_prefix _ _)
    have hchars : ∀ c ∈ (start.take maxLabelLen).rdropWhile isDashOrDot, isLabelChar c = true :=
      fun c hc => isLabelChar_of_mem_keptText (hstart ▸ hpre.mem hc)
    have hshort : ((start.take maxLabelLen).rdropWhile isDashOrDot).length ≤ 40 :=
      (List.rdropWhile_prefix _ _).length_le.trans (List.length_take_le _ _)
    have hhead : ∀ c, ((start.take maxLabelLen).rdropWhile isDashOrDot).head? = some c →
        isDashOrDot c = false := by
      intro c hc
      obtain ⟨s, hs⟩ := List.head?_eq_some_iff.1 hc
      obtain ⟨t, rfl⟩ := hs ▸ hpre
      exact isDashOrDot_head_keptText hstart
    have hlast : ∀ c, ((start.take maxLabelLen).rdropWhile isDashOrDot).getLast? = some c →
        isDashOrDot c = false := by
      intro c hc
      obtain ⟨init, d, heq, hd⟩ := exists_last_of_rdropWhile isDashOrDot hne
      rw [heq, List.getLast?_concat] at hc
      exact Option.some.inj hc ▸ hd
    exact ⟨hchars, hshort, hhead, hlast, hdots, sanitizeLabel_eq_self hne hchars hshort hhead hlast⟩

/-- **When a name is safe**: exactly if no two adjacent dots of the label stay. -/
theorem sessionName_safe_iff (label : Option Str) (ts : Int) :
    Safe label ts ↔ ∀ text, label = some text → ¬ DotsStay text := by
  constructor
  · rintro ⟨-, hsafe⟩ text rfl hstay
    have hdots := (dotsStay_iff text).1 hstay
    apply (hsafe _ _).noDots hdots
    rw [Option.bind_some, sanitizeLabel_eq]
    apply if_neg
    intro hnil
    rw [hnil] at hdots
    simp at hdots
  · intro hstays
    refine ⟨isComponent_sessionName label ts, fun l hl => ?_⟩
    obtain ⟨text, rfl, htext⟩ := Option.bind_eq_some_iff.1 hl
    apply safeLabel_of_noDots htext
    rw [sanitizeLabel_eq] at htext
    simp only at htext
    split at htext
    · cases htext
    · obtain rfl := Option.some.inj htext
      exact fun hdots => hstays text rfl ((dotsStay_iff text).2 hdots)

/-- The label `v1..v2`. -/
theorem not_safe_dots : ¬ Safe (some "v1..v2".toList) 1700 := by
  rintro ⟨-, hsafe⟩
  apply (hsafe "v1..v2".toList (by decide)).noDots
  exact ⟨"v1".toList, "v2".toList, rfl⟩

end DialF.Daemon
