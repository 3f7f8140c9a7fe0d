import Mathlib.Data.List.Basic
import DialF.Lib.Text

/-!
# Paths as texts

A path is a text, and its parts are what its separators leave (`pathParts`). Walking along parts,
`..` goes back and `.` stays (`walk`); a path is normalised by walking it from the root. The way
from one place to another goes back to where they part, and on from there (`walk_route`).
-/

set_option autoImplicit false

namespace DialF.Lib

/-! ## Parts -/

/-- The parts of a path, without those that are empty. -/
def pathParts (path : Str) : List Str := (path.splitOn '/').filter (· ≠ [])

/-- The parts with a slash between them. -/
def joinParts (parts : List Str) : Str := ['/'].intercalate parts

/-- `Path::join`: an absolute path replaces the base. -/
def joinPath (base path : Str) : Str :=
  if path.head? = some '/' ∨ base = [] then path
  else if base.getLast? = some '/' then base ++ path
  else base ++ '/' :: path

@[simp] theorem pathParts_nil : pathParts [] = [] := rfl

theorem pathParts_append_cons (s t : Str) :
    pathParts (s ++ '/' :: t) = pathParts s ++ pathParts t := by
  rw [pathParts, List.splitOn_append_cons_self, List.filter_append]
  rfl

/-- Parts that are not empty, and have no separator in them, are found again. -/
theorem pathParts_joinParts {parts : List Str} (h : ∀ p ∈ parts, p ≠ [] ∧ '/' ∉ p) :
    pathParts (joinParts parts) = parts := by
  by_cases hne : parts = []
  · subst hne
    rfl
  · rw [pathParts, joinParts, List.splitOn_intercalate _ (fun p hp => (h p hp).2) hne,
      List.filter_eq_self]
    intro p hp
    exact decide_eq_true (h p hp).1

theorem head?_joinParts {parts : List Str} (h : ∀ p ∈ parts, p ≠ [] ∧ '/' ∉ p) :
    (joinParts parts).head? ≠ some '/' := by
  cases parts with
  | nil => simp [joinParts]
  | cons p parts =>
      obtain ⟨hne, hsep⟩ := h p List.mem_cons_self
      obtain ⟨c, s, rfl⟩ := List.exists_cons_of_ne_nil hne
      have hc : c ≠ '/' := by
        rintro rfl
        exact hsep List.mem_cons_self
      cases parts with
      | nil => simpa [joinParts] using hc
      | cons q parts => simpa [joinParts, List.intercalate] using hc

/-- The parts of a path below a base. -/
theorem pathParts_joinPath {base path : Str} (h : path.head? ≠ some '/') :
    pathParts (joinPath base path) = pathParts base ++ pathParts path := by
  rw [joinPath]
  by_cases hbase : base = []
  · rw [if_pos (Or.inr hbase), hbase]
    rfl
  · rw [if_neg (not_or.2 ⟨h, hbase⟩)]
    split
    · rename_i hlast
      obtain ⟨b, rfl⟩ := List.getLast?_eq_some_iff.1 hlast
      rw [List.append_assoc, List.singleton_append, pathParts_append_cons,
        pathParts_append_cons, pathParts_nil, List.append_nil]
    · exact pathParts_append_cons base path

/-! ## Walking -/

/-- One part, from a place. -/
def walkPart (place : List Str) (part : Str) : List Str :=
  if part = ['.'] then place
  else if part = ['.', '.'] then place.dropLast
  else place ++ [part]

/-- Follow the parts one by one. -/
def walk (place parts : List Str) : List Str := parts.foldl walkPart place

/-- The path to where a path leads from the root. -/
def normalizePath (path : Str) : Str := joinParts (walk [] (pathParts path))

/-- A part that is a name. -/
def IsName (part : Str) : Prop :=
  part ≠ [] ∧ '/' ∉ part ∧ part ≠ ['.'] ∧ part ≠ ['.', '.']

instance (part : Str) : Decidable (IsName part) := inferInstanceAs (Decidable (_ ∧ _))

/-- A path that is made of names, below the root. -/
def IsNormal (path : Str) : Prop := ∃ parts, (∀ p ∈ parts, IsName p) ∧ path = joinParts parts

@[simp] theorem walk_nil (place : List Str) : walk place [] = place := rfl

theorem walk_append (place parts more : List Str) :
    walk place (parts ++ more) = walk (walk place parts) more := List.foldl_append

/-- Names lead on. -/
theorem walk_of_names {parts : List Str} (h : ∀ p ∈ parts, IsName p) (place : List Str) :
    walk place parts = place ++ parts := by
  induction parts generalizing place with
  | nil => rw [walk_nil, List.append_nil]
  | cons p parts ih =>
      obtain ⟨-, -, hdot, hdots⟩ := h p List.mem_cons_self
      show walk (walkPart place p) parts = _
      rw [ih (fun q hq => h q (List.mem_cons_of_mem p hq)), walkPart, if_neg hdot, if_neg hdots,
        List.append_assoc]
      rfl

/-- So many `..` lead back. -/
theorem walk_replicate_up (place : List Str) (n : Nat) :
    walk place (List.replicate n ['.', '.']) = place.take (place.length - n) := by
  induction n generalizing place with
  | zero => simp
  | succ n ih =>
      rw [List.replicate_succ]
      show walk (walkPart place ['.', '.']) _ = _
      rw [ih, walkPart, if_neg (by decide), if_pos rfl, List.length_dropLast,
        List.dropLast_eq_take, List.take_take]
      congr 1
      omega

/-! ## From one place to another -/

/-- How many parts two places have in common, from the root. -/
def commonParts (a b : List Str) : Nat := ((a.zip b).takeWhile fun p => p.1 = p.2).length

/-- Back from a place to where another one parts from it, and on to that. -/
def route (a b : List Str) : List Str :=
  List.replicate (a.length - commonParts a b) ['.', '.'] ++ b.drop (commonParts a b)

theorem commonParts_le (a b : List Str) : commonParts a b ≤ a.length := by
  have hle : commonParts a b ≤ (a.zip b).length := (List.takeWhile_prefix _).length_le
  rw [List.length_zip] at hle
  exact hle.trans (Nat.min_le_left _ _)

theorem take_commonParts (a b : List Str) :
    a.take (commonParts a b) = b.take (commonParts a b) := by
  induction a generalizing b with
  | nil => simp [commonParts]
  | cons x a ih =>
      cases b with
      | nil => simp [commonParts]
      | cons y b =>
          by_cases hxy : x = y
          · subst hxy
            have hcount : commonParts (x :: a) (x :: b) = commonParts a b + 1 := by
              simp [commonParts]
            rw [hcount, List.take_succ_cons, List.take_succ_cons, ih]
          · simp [commonParts, hxy]

/-- **The way from one place to another** leads there. -/
theorem walk_route {a b : List Str} (hb : ∀ p ∈ b, IsName p) : walk a (route a b) = b := by
  rw [route, walk_append, walk_replicate_up, Nat.sub_sub_self (commonParts_le a b),
    walk_of_names fun p hp => hb p (List.mem_of_mem_drop hp), take_commonParts,
    List.take_append_drop]

end DialF.Lib
