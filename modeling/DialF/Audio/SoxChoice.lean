import Mathlib.Algebra.Order.Group.Nat
import Mathlib.Data.Prod.Lex
import Mathlib.Order.WithBot
import DialF.Lib.Best
import DialF.Lib.Paths

/-!
# Which SoX is used

`best_sox_in` of `audio/tool_detect.rs` looks for a binary of the SoX family in a list of
directories, under the plain name and under that of sox_ng, asks every file once for its version,
and takes what ranks highest. The rank tells sox_ng from the rest, and a newer version from an older
one; it does not tell an original sox that names no version from a binary that is neither.

`bestSoxIn_meets_iff` says for which binaries the one that is taken is the first of the best.
-/

set_option autoImplicit false

namespace DialF.Audio

open DialF.Lib

/-! ## Identities -/

/-- Which sox implementation a binary is. -/
inductive SoxFlavor where
  | soxNg
  | original
  /-- Couldn't run it, or it said something else. -/
  | unknown
  deriving DecidableEq

/-- What a binary says it is, from `--version`. -/
structure SoxIdentity where
  flavor : SoxFlavor
  /-- None where it printed no number. -/
  version : Option (Nat × Nat × Nat)
  deriving DecidableEq

/-- What follows the first place of a text at which another one stands. -/
def behindFirst (pat : Str) : Str → Option Str
  | [] => stripPrefix pat []
  | c :: s => (stripPrefix pat (c :: s)).or (behindFirst pat s)

/-- `str::parse::<u32>`, on digits. -/
def parseU32 (digits : Str) : Option Nat :=
  if digits = [] ∨ ¬ digits.all Char.isDigit then none
  else
    let n := Nat.ofDigitChars 10 digits 0
    if n < 2 ^ 32 then some n else none

namespace SoxIdentity

/-- The version at the head of a text: up to three numbers, of which the first has to be one. -/
def versionAt (rest : Str) : Option (Nat × Nat × Nat) :=
  let digits := rest.takeWhile fun c => c.isDigit || c == '.'
  let parts := (digits.splitOn '.').map parseU32
  match (parts[0]?).join with
  | some a => some (a, ((parts[1]?).join).getD 0, ((parts[2]?).join).getD 0)
  | none => none

/-- Read `--version` output. -/
def parse (output : Str) : SoxIdentity :=
  match behindFirst "SoX_ng v".toList output with
  | some rest => ⟨.soxNg, versionAt rest⟩
  | none =>
      match behindFirst "SoX v".toList output with
      | some rest => ⟨.original, versionAt rest⟩
      | none => ⟨.unknown, none⟩

/-- A version that is not known is below all others. -/
def versionKey (version : Option (Nat × Nat × Nat)) : WithBot (Nat ×ₗ Nat ×ₗ Nat) :=
  match version with
  | none => ⊥
  | some (a, b, c) => ((toLex (a, toLex (b, c)) : Nat ×ₗ Nat ×ₗ Nat) : WithBot _)

/-- Ordering for choosing among binaries: any sox_ng beats original sox; then newer wins. -/
def rank (id : SoxIdentity) : Bool ×ₗ WithBot (Nat ×ₗ Nat ×ₗ Nat) :=
  toLex (decide (id.flavor = .soxNg), versionKey id.version)

end SoxIdentity

/-! ## The search -/

/-- The files of the host, and what each prints when it is run with `--version`. -/
structure SoxHost where
  runnable : Str → Bool
  canonicalize : Str → Option Str
  run : Str → Option Str

namespace SoxHost

variable (host : SoxHost)

/-- The file that a path leads to, or the path where that cannot be said. -/
def fileOf (path : Str) : Str := (host.canonicalize path).getD path

/-- Run `bin --version` and read it. -/
def probe (bin : Str) : SoxIdentity :=
  match host.run bin with
  | some output => SoxIdentity.parse output
  | none => ⟨.unknown, none⟩

end SoxHost

/-- The SoX family by role, with sox_ng's names. -/
def soxRoles : List (Str × Str) :=
  [("sox".toList, "sox_ng".toList), ("play".toList, "play_ng".toList),
    ("rec".toList, "rec_ng".toList)]

/-- How far the search has come: the files seen, the best so far, and the binaries that have been
asked. -/
structure SoxSearch where
  seen : List Str
  best : Option (Str × SoxIdentity)
  asked : List Str

/-- One path of the search. -/
def SoxSearch.visit (host : SoxHost) (s : SoxSearch) (path : Str) : SoxSearch :=
  if host.runnable path = false ∨ host.fileOf path ∈ s.seen then s
  else
    let id := host.probe path
    { seen := host.fileOf path :: s.seen
      best :=
        match s.best with
        | none => some (path, id)
        -- strictly better only
        | some (p, b) => if b.rank < id.rank then some (path, id) else some (p, b)
      asked := s.asked ++ [path] }

/-- The search for a tool among directories. -/
def soxSearch (host : SoxHost) (tool : Str) (dirs : List Str) : SoxSearch :=
  match soxRoles.find? fun r => tool = r.1 || tool = r.2 with
  | none => ⟨[], none, []⟩
  | some (plain, ng) =>
      dirs.foldl (fun s dir => [ng, plain].foldl (fun s name => s.visit host (joinPath dir name)) s)
        ⟨[], none, []⟩

/-- The best binary for the SoX-family role of a tool. -/
def bestSoxIn (host : SoxHost) (tool : Str) (dirs : List Str) : Option (Str × SoxIdentity) :=
  (soxSearch host tool dirs).best

/-! ## What is searched -/

/-- The paths of a role, directory by directory. -/
def searchPaths (tool : Str) (dirs : List Str) : List Str :=
  match soxRoles.find? fun r => tool = r.1 || tool = r.2 with
  | none => []
  | some (plain, ng) => dirs.flatMap fun dir => [joinPath dir ng, joinPath dir plain]

/-- The binaries to choose from: the first path to each file that can be run. -/
def candidates (host : SoxHost) (tool : Str) (dirs : List Str) : List Str :=
  firsts host.fileOf [] ((searchPaths tool dirs).filter host.runnable)

/-- How a flavour stands among the three. -/
def SoxFlavor.standing : SoxFlavor → Nat
  | .soxNg => 2
  | .original => 1
  | .unknown => 0

/-- Any sox_ng before any original sox, and that before the rest; then the newer one. -/
def SoxIdentity.preference (id : SoxIdentity) : Nat ×ₗ WithBot (Nat ×ₗ Nat ×ₗ Nat) :=
  toLex (id.flavor.standing, versionKey id.version)

/-- The search asks no file twice, and takes the first of the best. -/
structure PicksBest (host : SoxHost) (tool : Str) (dirs : List Str) : Prop where
  once : ((soxSearch host tool dirs).asked.map host.fileOf).Nodup
  none : bestSoxIn host tool dirs = none ↔ candidates host tool dirs = []
  best : ∀ path id, bestSoxIn host tool dirs = some (path, id) →
    id = host.probe path ∧
      IsBest (fun p => (host.probe p).preference) (candidates host tool dirs) path

section Search

variable {host : SoxHost}

/-- The candidates are binaries of the search, in its order, and every binary of the search is the
same file as one of them. -/
theorem candidates_cover (tool : Str) (dirs : List Str) :
    (candidates host tool dirs).Sublist (searchPaths tool dirs) ∧
      ∀ p ∈ searchPaths tool dirs, host.runnable p = true →
        ∃ q ∈ candidates host tool dirs, host.fileOf q = host.fileOf p := by
  refine ⟨(firsts_sublist _ _).trans List.filter_sublist, ?_⟩
  intro p hp hrun
  exact exists_mem_firsts (List.mem_filter.2 ⟨hp, hrun⟩) List.not_mem_nil

/-- A run of the search, from the files seen and the best so far. -/
theorem foldl_visit (paths : List Str) (s : SoxSearch) (best : Option Str)
    (hbest : s.best = best.map fun p => (p, host.probe p)) :
    (paths.foldl (SoxSearch.visit host) s).asked =
        s.asked ++ firsts host.fileOf s.seen (paths.filter host.runnable) ∧
      (paths.foldl (SoxSearch.visit host) s).best =
        ((firsts host.fileOf s.seen (paths.filter host.runnable)).foldl
          (keepBetter fun p => (host.probe p).rank) best).map fun p => (p, host.probe p) := by
  induction paths generalizing s best with
  | nil => exact ⟨(List.append_nil _).symm, hbest⟩
  | cons path paths ih =>
      rw [List.foldl_cons]
      cases hrun : host.runnable path with
      | false =>
          rw [SoxSearch.visit, if_pos (Or.inl hrun), List.filter_cons_of_neg (by simp [hrun])]
          exact ih s best hbest
      | true =>
          rw [List.filter_cons_of_pos hrun, firsts]
          by_cases hseen : host.fileOf path ∈ s.seen
          · rw [SoxSearch.visit, if_pos (Or.inr hseen), if_pos hseen]
            exact ih s best hbest
          · have hvisit := SoxSearch.visit.eq_1 host s path
            rw [if_neg (by simp [hrun, hseen])] at hvisit
            have hnext : (s.visit host path).best =
                (keepBetter (fun p => (host.probe p).rank) best path).map
                  fun p => (p, host.probe p) := by
              rw [hvisit]
              show (match s.best with | none => _ | some (p, b) => _) = _
              rw [hbest]
              cases best with
              | none => rfl
              | some p =>
                  show (if _ then _ else _) = Option.map _ (if _ then _ else _)
                  split
                  · rfl
                  · rfl
            obtain ⟨hasked, hlast⟩ := ih _ _ hnext
            rw [if_neg hseen, List.foldl_cons, hasked, hlast, hvisit, List.append_assoc]
            exact ⟨rfl, rfl⟩

/-- **The search** asks the candidates, and takes the first of those that rank highest. -/
theorem soxSearch_eq (host : SoxHost) (tool : Str) (dirs : List Str) :
    (soxSearch host tool dirs).asked = candidates host tool dirs ∧
      bestSoxIn host tool dirs =
        ((candidates host tool dirs).foldl (keepBetter fun p => (host.probe p).rank) none).map
          fun p => (p, host.probe p) := by
  rw [bestSoxIn, soxSearch, candidates, searchPaths]
  split
  · exact ⟨rfl, rfl⟩
  · rename_i plain ng _
    have hfold : ∀ s : SoxSearch,
        dirs.foldl (fun s dir => [ng, plain].foldl
          (fun s name => s.visit host (joinPath dir name)) s) s =
        (dirs.flatMap fun dir => [joinPath dir ng, joinPath dir plain]).foldl
          (SoxSearch.visit host) s := by
      intro s
      rw [List.foldl_flatMap]
      rfl
    rw [hfold]
    exact foldl_visit _ ⟨[], none, []⟩ none rfl

end Search

/-! ## What is the best -/

/-- A binary of unknown flavour has no version. -/
theorem version_of_unknown {host : SoxHost} {path : Str}
    (h : (host.probe path).flavor = .unknown) : (host.probe path).version = none := by
  rw [SoxHost.probe] at h ⊢
  split at h
  · rw [SoxIdentity.parse] at h ⊢
    split at h
    · cases h
    · split at h
      · cases h
      · rfl
  · rfl

/-- The binary ranks lowest, as one that is not sox_ng and names no version. -/
def SoxIdentity.Bare (id : SoxIdentity) : Prop := id.flavor ≠ .soxNg ∧ id.version = none

instance (id : SoxIdentity) : Decidable id.Bare := inferInstanceAs (Decidable (_ ∧ _))

namespace SoxIdentity

variable {a b : SoxIdentity}

theorem rank_lt_iff : b.rank < a.rank ↔
    (b.flavor ≠ .soxNg ∧ a.flavor = .soxNg) ∨
      (b.flavor = .soxNg ↔ a.flavor = .soxNg) ∧ versionKey b.version < versionKey a.version := by
  rw [rank, rank, Prod.Lex.toLex_lt_toLex, Bool.lt_iff]
  simp [decide_eq_decide]

theorem preference_lt_iff : b.preference < a.preference ↔
    b.flavor.standing < a.flavor.standing ∨
      b.flavor.standing = a.flavor.standing ∧ versionKey b.version < versionKey a.version :=
  Prod.Lex.toLex_lt_toLex

/-- What ranks higher is preferred. -/
theorem preference_lt_of_rank_lt (ha : a.flavor = .unknown → a.version = none)
    (h : b.rank < a.rank) : b.preference < a.preference := by
  rw [preference_lt_iff]
  rcases rank_lt_iff.1 h with ⟨hb, hng⟩ | ⟨hsame, hversion⟩
  · left
    rw [hng]
    cases hflavor : b.flavor with
    | soxNg => exact absurd hflavor hb
    | original => decide
    | unknown => decide
  · cases hflavor : a.flavor with
    | soxNg => exact Or.inr ⟨by rw [hsame.2 hflavor], hversion⟩
    | original =>
        cases hb : b.flavor with
        | soxNg => exact absurd (hflavor.symm.trans (hsame.1 hb)) (by decide)
        | original => exact Or.inr ⟨rfl, hversion⟩
        | unknown => exact Or.inl (by decide)
    | unknown =>
        -- nothing is below a version that is not known
        rw [ha hflavor] at hversion
        exact absurd hversion (not_lt_bot)

theorem versionKey_eq_bot_iff {version : Option (Nat × Nat × Nat)} :
    versionKey version = ⊥ ↔ version = none := by
  rcases version with _ | ⟨a, b, c⟩
  · simp [versionKey]
  · simp [versionKey]

/-- The one case in which what is preferred does not rank higher. -/
theorem bare_of_preference_lt (hb : b.flavor = .unknown → b.version = none)
    (hrank : ¬ b.rank < a.rank) (h : b.preference < a.preference) :
    b.flavor = .unknown ∧ a.flavor = .original ∧ b.Bare ∧ a.Bare := by
  rw [rank_lt_iff, not_or] at hrank
  obtain ⟨hng, hversion⟩ := hrank
  rcases preference_lt_iff.1 h with hstanding | ⟨hstanding, hlt⟩
  · cases hflavor : b.flavor with
    | soxNg =>
        rw [hflavor] at hstanding
        cases ha : a.flavor <;> rw [ha] at hstanding <;> exact absurd hstanding (by decide)
    | original =>
        cases ha : a.flavor with
        | soxNg => exact absurd ⟨by simp [hflavor], ha⟩ hng
        | original =>
            rw [hflavor, ha] at hstanding
            exact absurd hstanding (by decide)
        | unknown =>
            rw [hflavor, ha] at hstanding
            exact absurd hstanding (by decide)
    | unknown =>
        cases ha : a.flavor with
        | soxNg => exact absurd ⟨by simp [hflavor], ha⟩ hng
        | original =>
            have hnone := hb hflavor
            have hbot : versionKey a.version = ⊥ := by
              by_contra hne
              apply hversion
              refine ⟨by simp [hflavor, ha], ?_⟩
              rw [hnone]
              exact bot_lt_iff_ne_bot.2 hne
            exact ⟨rfl, rfl, ⟨by simp [hflavor], hnone⟩, by simp [ha],
              versionKey_eq_bot_iff.1 hbot⟩
        | unknown =>
            rw [hflavor, ha] at hstanding
            exact absurd hstanding (by decide)
  · have hsame : b.flavor = a.flavor := by
      cases hflavor : b.flavor <;> cases ha : a.flavor <;> rw [hflavor, ha] at hstanding <;>
        first | rfl | exact absurd hstanding (by decide)
    exact absurd ⟨by rw [hsame], hlt⟩ hversion

/-- Nothing ranks below what is bare. -/
theorem Bare.not_rank_lt (ha : a.Bare) : ¬ b.rank < a.rank := by
  rw [rank_lt_iff]
  rintro (⟨-, hng⟩ | ⟨-, hversion⟩)
  · exact ha.1 hng
  · rw [ha.2] at hversion
    exact absurd hversion not_lt_bot

theorem Bare.of_le (ha : a.Bare) (h : b.rank ≤ a.rank) : b.Bare := by
  rw [← not_lt, rank_lt_iff, not_or] at h
  obtain ⟨hng, hversion⟩ := h
  have hb : b.flavor ≠ .soxNg := fun hb => hng ⟨ha.1, hb⟩
  refine ⟨hb, ?_⟩
  by_contra hne
  apply hversion
  refine ⟨iff_of_false ha.1 hb, ?_⟩
  rw [ha.2]
  exact bot_lt_iff_ne_bot.2 fun hbot => hne (versionKey_eq_bot_iff.1 hbot)

end SoxIdentity

/-- **Which binaries are told apart**: the one that is taken is the first of the best, unless the
first to be asked is of unknown flavour, an original sox comes later, and none of them is a sox_ng
or names a version. -/
theorem picksBest_iff (host : SoxHost) (tool : Str) (dirs : List Str) :
    PicksBest host tool dirs ↔
      ¬ ∃ first rest, candidates host tool dirs = first :: rest ∧
        (host.probe first).flavor = .unknown ∧ (∃ p ∈ rest, (host.probe p).flavor = .original) ∧
          ∀ p ∈ candidates host tool dirs, (host.probe p).Bare := by
  obtain ⟨hasked, hbest⟩ := soxSearch_eq host tool dirs
  constructor
  · rintro hpicks ⟨first, rest, hcandidates, hunknown, ⟨p, hp, horiginal⟩, hbare⟩
    -- the first one is taken
    have hfirst : bestSoxIn host tool dirs = some (first, host.probe first) := by
      rw [hbest, (foldl_keepBetter_eq_some_iff _ _ first).2]
      · rfl
      · refine ⟨[], rest, hcandidates, by simp, fun q hq => not_lt.1 ?_⟩
        exact (hbare q (hcandidates ▸ List.mem_cons_of_mem first hq)).not_rank_lt
    obtain ⟨-, hisBest⟩ := hpicks.best _ _ hfirst
    have hle := hisBest.le (hcandidates ▸ List.mem_cons_of_mem first hp)
    apply absurd hle (not_le.2 _)
    rw [SoxIdentity.preference_lt_iff, hunknown, horiginal]
    exact Or.inl (by decide)
  · intro hnot
    refine ⟨?_, ?_, ?_⟩
    · rw [hasked]
      exact (nodup_firsts [] _).1
    · rw [hbest, Option.map_eq_none_iff, foldl_keepBetter_eq_none_iff]
    · intro path id hpath
      rw [hbest] at hpath
      obtain ⟨p, hp, heq⟩ := Option.map_eq_some_iff.1 hpath
      obtain ⟨rfl, rfl⟩ := Prod.mk.inj heq
      refine ⟨rfl, ?_⟩
      have hrank := (foldl_keepBetter_eq_some_iff _ _ p).1 hp
      obtain ⟨before, behind, hcandidates, hbefore, hbehind⟩ := hrank
      refine ⟨before, behind, hcandidates, fun q hq => ?_, fun q hq => ?_⟩
      · exact SoxIdentity.preference_lt_of_rank_lt version_of_unknown (hbefore q hq)
      · by_contra hlt
        obtain ⟨hunknown, horiginal, hpbare, -⟩ := SoxIdentity.bare_of_preference_lt
          version_of_unknown (not_lt.2 (hbehind q hq)) (not_le.1 hlt)
        -- nothing can stand before it, as nothing ranks lower
        have hnil : before = [] := by
          rcases before with _ | ⟨b, before⟩
          · rfl
          · exact absurd (hbefore b List.mem_cons_self) hpbare.not_rank_lt
        subst hnil
        apply hnot
        refine ⟨p, behind, hcandidates, hunknown, ⟨q, hq, horiginal⟩, fun r hr => ?_⟩
        rw [hcandidates] at hr
        rcases List.mem_cons.1 hr with rfl | hr
        · exact hpbare
        · exact hpbare.of_le (hbehind r hr)

/-- A binary that cannot be run, before an original sox that prints no number. -/
def brokenFirst : SoxHost where
  runnable path := path = "/usr/local/bin/sox".toList || path = "/opt/homebrew/bin/sox".toList
  canonicalize path := some path
  run path := if path = "/opt/homebrew/bin/sox".toList then some "sox:      SoX v".toList else none

theorem not_picksBest_brokenFirst :
    ¬ PicksBest brokenFirst "sox".toList ["/usr/local/bin".toList, "/opt/homebrew/bin".toList] := by
  intro h
  obtain ⟨-, hbest⟩ := h.best "/usr/local/bin/sox".toList ⟨.unknown, none⟩ (by decide +kernel)
  have hle := hbest.le (b := "/opt/homebrew/bin/sox".toList) (by decide +kernel)
  apply absurd hle (not_le.2 _)
  rw [SoxIdentity.preference_lt_iff]
  exact Or.inl (by decide +kernel)

end DialF.Audio
