import Mathlib.Logic.Function.Basic
import DialF.Lib.Text

/-!
# The daemons that the phone has discovered

A network can host several daemons. The app keeps those of the discovery round in the order in which
they were found, and skips for a while one that has rejected its shared key; one that has just
failed to connect is tried after the others. `wsUrl` makes the URL that a daemon is dialled at, and
refuses an address that cannot be dialled.

The one that `next` offers is an endpoint of the round that has not rejected the key
(`next_eq_some`), and there is always one unless all have (`next_eq_none_iff`).
-/

set_option autoImplicit false

namespace DialF.Phone

open DialF.Lib

/-! ## Texts -/

/-- `Char.isWhitespace`: the separators, and the controls that Java counts as white space. -/
def isBlank (c : Char) : Bool :=
  let n := c.toNat
  (9 ≤ n && n ≤ 13) || (28 ≤ n && n ≤ 32) || n == 0xA0 || n == 0x1680 ||
    (0x2000 ≤ n && n ≤ 0x200A) || n == 0x2028 || n == 0x2029 || n == 0x202F || n == 0x205F ||
    n == 0x3000

/-- `String.trim`. -/
def trimBlank (s : Str) : Str := (s.dropWhile isBlank).rdropWhile isBlank

/-- The zeros of the decimal digits that a UTF-16 unit can hold. -/
def zeroDigits : List Nat :=
  [0x30, 0x660, 0x6F0, 0x7C0, 0x966, 0x9E6, 0xA66, 0xAE6, 0xB66, 0xBE6, 0xC66, 0xCE6, 0xD66, 0xDE6,
    0xE50, 0xED0, 0xF20, 0x1040, 0x1090, 0x17E0, 0x1810, 0x1946, 0x19D0, 0x1A80, 0x1A90, 0x1B50,
    0x1BB0, 0x1C40, 0x1C50, 0xA620, 0xA8D0, 0xA900, 0xA9D0, 0xA9F0, 0xAA50, 0xABF0, 0xFF10]

/-- `Character.digit`: a decimal digit of any script, or a Latin letter, also a full-width one. -/
def digitOf (radix : Nat) (c : Char) : Option Nat :=
  let n := c.toNat
  let value :=
    ((zeroDigits.find? fun z => z ≤ n && n ≤ z + 9).map fun z => n - z).or
      (([0x41, 0x61, 0xFF21, 0xFF41].find? fun first => first ≤ n && n < first + 26).map
        fun first => n - first + 10)
  value.filter fun d => decide (d < radix)

/-- The value of the digits behind those already read. -/
def digitsOf (radix : Nat) (acc : Nat) : Str → Option Nat
  | [] => some acc
  | c :: s =>
      match digitOf radix c with
      | some d => digitsOf radix (acc * radix + d) s
      | none => none

/-- `String.toIntOrNull`: an optional sign, then at least one digit; 32 bits. -/
def toIntOrNull (radix : Nat) : Str → Option Int
  | [] => none
  | c :: s =>
      let value :=
        -- only what sorts before the digits can be a sign
        if c < '0' then
          if s = [] then none
          else if c = '-' then (digitsOf radix 0 s).map fun n => -(n : Int)
          else if c = '+' then (digitsOf radix 0 s).map fun n => (n : Int)
          else none
        else (digitsOf radix 0 (c :: s)).map fun n => (n : Int)
      value.filter fun n => decide (-2147483648 ≤ n ∧ n ≤ 2147483647)

/-! ## Addresses -/

/-- `fe80::/10`, by the first group of an address with or without a zone. -/
def isLinkLocal (h : Str) : Bool :=
  match toIntOrNull 16 ((h.takeWhile (· ≠ '%')).takeWhile (· ≠ ':')) with
  | some firstGroup => (BitVec.ofInt 32 firstGroup &&& 0xffc0#32) == 0xfe80#32
  | none => false

/-- The `ws://` URL for a discovered endpoint, or none if it can't be dialed. -/
def wsUrl (host : Str) (port : Int) : Option Str :=
  let h := trimBlank host
  let decimal := (toString port).toList
  if h.isEmpty || decide (port ≤ 0) then none
  else if !h.contains ':' then some ("ws://".toList ++ h ++ ':' :: decimal)
  else if isLinkLocal h then none
  else some ("ws://[".toList ++ h ++ ']' :: ':' :: decimal)

/-- What cannot be dialled: nothing, a port that is none, and a link-local address. -/
theorem wsUrl_eq_none_iff {host : Str} {port : Int} :
    wsUrl host port = none ↔
      trimBlank host = [] ∨ port ≤ 0 ∨
        (':' ∈ trimBlank host ∧ isLinkLocal (trimBlank host) = true) := by
  simp only [wsUrl]
  split
  · rename_i hbad
    simp only [Bool.or_eq_true, List.isEmpty_iff, decide_eq_true_eq] at hbad
    exact iff_of_true rfl (hbad.imp_right Or.inl)
  · rename_i hgood
    simp only [Bool.or_eq_true, List.isEmpty_iff, decide_eq_true_eq, not_or] at hgood
    split
    · rename_i hcolon
      simp only [Bool.not_eq_true', List.contains_eq_mem, decide_eq_false_iff_not] at hcolon
      simp [hgood.1, hgood.2, hcolon]
    · rename_i hcolon
      simp only [Bool.not_eq_true', List.contains_eq_mem, decide_eq_false_iff_not, not_not] at hcolon
      split
      · rename_i hlocal
        exact iff_of_true rfl (Or.inr (Or.inr ⟨hcolon, hlocal⟩))
      · rename_i hlocal
        simp [hgood.1, hgood.2, hlocal]

/-! ## Candidates -/

/-- A daemon that has been discovered, under the URL that it is dialled at. -/
structure Endpoint where
  url : Str
  host : Str
  port : Int
  dials : wsUrl host port = some url
  deriving DecidableEq

/-- The URLs that are marked, each until a time. -/
abbrev Marks := Str → Option Int

namespace Marks

variable (marks : Marks) (nowMs : Int)

/-- Whether a URL is marked; a mark that has expired is taken off. -/
def isMarked (url : Str) : Bool × Marks :=
  match marks url with
  | none => (false, marks)
  | some limit =>
      if limit < nowMs then (false, Function.update marks url none) else (true, marks)

/-- The endpoints that are not marked. -/
def unmarked : List Endpoint → Marks → List Endpoint × Marks
  | [], marks => ([], marks)
  | e :: es, marks =>
      match marks.isMarked nowMs e.url with
      | (true, marks) => unmarked es marks
      | (false, marks) => (e :: (unmarked es marks).1, (unmarked es marks).2)

/-- The first endpoint that is not marked; those behind it are not looked at. -/
def firstUnmarked : List Endpoint → Marks → Option Endpoint × Marks
  | [], marks => (none, marks)
  | e :: es, marks =>
      match marks.isMarked nowMs e.url with
      | (true, marks) => firstUnmarked es marks
      | (false, marks) => (some e, marks)

/-- The URL has a mark that has not expired. -/
def holds (url : Str) : Bool := (marks url).any fun limit => decide (nowMs ≤ limit)

end Marks

/-- `DaemonCandidates`: the endpoints found, and the marks on their URLs. -/
structure DaemonCandidates where
  keyRejectTtlMs : Int
  unreachableTtlMs : Int
  found : List Endpoint
  rejectedUntil : Marks
  unreachableUntil : Marks

namespace DaemonCandidates

/-- No daemon has been found yet. -/
def start (keyRejectTtlMs unreachableTtlMs : Int) : DaemonCandidates :=
  ⟨keyRejectTtlMs, unreachableTtlMs, [], fun _ => none, fun _ => none⟩

variable (d : DaemonCandidates)

/-- Add a discovered endpoint, unless it can't be dialed or stands there already. -/
def add (host : Str) (port : Int) : DaemonCandidates :=
  match h : wsUrl host port with
  | none => d
  | some url =>
      if d.found.any fun e => decide (e.url = url) then d
      else { d with found := d.found ++ [⟨url, host, port, h⟩] }

/-- Drop the discovered set for a new discovery round. Rejections are kept on purpose. -/
def clear : DaemonCandidates := { d with found := [] }

/-- `markKeyRejected`. -/
def markKeyRejected (url : Str) (nowMs : Int) : DaemonCandidates :=
  { d with rejectedUntil := Function.update d.rejectedUntil url (some (nowMs + d.keyRejectTtlMs)) }

/-- `markUnreachable`. -/
def markUnreachable (url : Str) (nowMs : Int) : DaemonCandidates :=
  { d with
    unreachableUntil := Function.update d.unreachableUntil url (some (nowMs + d.unreachableTtlMs)) }

/-- `markReachable`: the mark goes. -/
def markReachable (url : Str) : DaemonCandidates :=
  { d with unreachableUntil := Function.update d.unreachableUntil url none }

/-- The best daemon to try: the first that neither rejected our key nor just failed to connect, or
else the first one that hasn't rejected our key. -/
def next (nowMs : Int) : Option Endpoint × DaemonCandidates :=
  let eligible := Marks.unmarked nowMs d.found d.rejectedUntil
  -- the unreachable marks only change who comes first
  let first := Marks.firstUnmarked nowMs eligible.1 d.unreachableUntil
  (first.1.or eligible.1.head?,
    { d with rejectedUntil := eligible.2, unreachableUntil := first.2 })

end DaemonCandidates

namespace Marks

variable {marks : Marks} {nowMs : Int} {url other : Str}

theorem isMarked_fst : (marks.isMarked nowMs url).1 = marks.holds nowMs url := by
  simp only [isMarked, holds]
  cases marks url with
  | none => rfl
  | some limit =>
      by_cases hlimit : limit < nowMs
      · simp [hlimit]
      · simp [hlimit, Int.not_lt.1 hlimit]

/-- Taking an expired mark off changes no answer, now and later. -/
theorem holds_isMarked_of_le {laterMs : Int} (h : nowMs ≤ laterMs) :
    (marks.isMarked nowMs url).2.holds laterMs other = marks.holds laterMs other := by
  simp only [isMarked]
  cases hmark : marks url with
  | none => rfl
  | some limit =>
      by_cases hlimit : limit < nowMs
      · simp only [hlimit, if_true]
        by_cases hother : other = url
        · subst hother
          simp [holds, hmark, Int.lt_of_lt_of_le hlimit h]
        · simp [holds, Function.update_of_ne hother]
      · simp [hlimit]

theorem holds_isMarked : (marks.isMarked nowMs url).2.holds nowMs other = marks.holds nowMs other :=
  holds_isMarked_of_le (Int.le_refl nowMs)

theorem unmarked_fst (es : List Endpoint) :
    (unmarked nowMs es marks).1 = es.filter fun e => !marks.holds nowMs e.url := by
  induction es generalizing marks with
  | nil => rfl
  | cons e es ih =>
      have hfst : (marks.isMarked nowMs e.url).1 = marks.holds nowMs e.url := isMarked_fst
      have hsnd : ∀ other, (marks.isMarked nowMs e.url).2.holds nowMs other =
          marks.holds nowMs other := fun other => holds_isMarked
      rw [unmarked]
      -- taking off the expired mark changes no later answer
      rcases hmarked : marks.isMarked nowMs e.url with ⟨b, marks'⟩
      rw [hmarked] at hfst hsnd
      cases b with
      | true =>
          rw [List.filter_cons_of_neg (by simp [← hfst]), ih]
          simp only [hsnd]
      | false =>
          rw [List.filter_cons_of_pos (by simp [← hfst])]
          simp only [ih, hsnd]

theorem firstUnmarked_fst (es : List Endpoint) :
    (firstUnmarked nowMs es marks).1 = es.find? fun e => !marks.holds nowMs e.url := by
  induction es generalizing marks with
  | nil => rfl
  | cons e es ih =>
      have hfst : (marks.isMarked nowMs e.url).1 = marks.holds nowMs e.url := isMarked_fst
      have hsnd : ∀ other, (marks.isMarked nowMs e.url).2.holds nowMs other =
          marks.holds nowMs other := fun other => holds_isMarked
      rw [firstUnmarked]
      rcases hmarked : marks.isMarked nowMs e.url with ⟨b, marks'⟩
      rw [hmarked] at hfst hsnd
      cases b with
      | true =>
          rw [List.find?_cons_of_neg (by simp [← hfst]), ih]
          simp only [hsnd]
      | false => rw [List.find?_cons_of_pos (by simp [← hfst])]

end Marks

namespace DaemonCandidates

variable {d : DaemonCandidates} {nowMs : Int}

@[simp] theorem found_markUnreachable (url : Str) : (d.markUnreachable url nowMs).found = d.found :=
  rfl

@[simp] theorem found_next : (d.next nowMs).2.found = d.found := rfl

/-- The endpoints of the round that have not rejected the key. -/
def eligible (d : DaemonCandidates) (nowMs : Int) : List Endpoint :=
  d.found.filter fun e => !d.rejectedUntil.holds nowMs e.url

theorem next_fst :
    (d.next nowMs).1 = ((d.eligible nowMs).find? fun e => !d.unreachableUntil.holds nowMs e.url).or
      (d.eligible nowMs).head? := by
  simp only [next, Marks.unmarked_fst, Marks.firstUnmarked_fst, eligible]

/-- There is a daemon to try unless all have rejected the key: a stale unreachable mark strands
nobody. -/
theorem next_eq_none_iff :
    (d.next nowMs).1 = none ↔ ∀ e ∈ d.found, d.rejectedUntil.holds nowMs e.url = true := by
  rw [next_fst, Option.or_eq_none_iff, List.head?_eq_none_iff]
  constructor
  · rintro ⟨-, hnil⟩ e he
    simpa using List.filter_eq_nil_iff.1 hnil e he
  · intro hall
    have hnil : d.eligible nowMs = [] := by
      apply List.filter_eq_nil_iff.2
      intro e he
      simp [hall e he]
    exact ⟨by rw [hnil]; rfl, hnil⟩

/-- What `next` offers has been found in this round, has not rejected the key, and has not just
failed to connect unless all such have. -/
theorem next_eq_some {e : Endpoint} (h : (d.next nowMs).1 = some e) :
    e ∈ d.eligible nowMs ∧
      (d.unreachableUntil.holds nowMs e.url = true →
        ∀ o ∈ d.eligible nowMs, d.unreachableUntil.holds nowMs o.url = true) := by
  rw [next_fst, Option.or_eq_some_iff] at h
  rcases h with hfirst | ⟨hnone, hhead⟩
  · refine ⟨List.mem_of_find?_eq_some hfirst, fun hmark => ?_⟩
    have hunmarked := List.find?_some hfirst
    simp [hmark] at hunmarked
  · refine ⟨List.mem_of_mem_head? hhead, fun _ o ho => ?_⟩
    simpa using List.find?_eq_none.1 hnone o ho

end DaemonCandidates

end DialF.Phone
