import Mathlib.Data.List.Basic
import Mathlib.Logic.Basic
import Mathlib.Logic.Function.Iterate

/-!
# Stages of a stream

A stage turns a stream that comes in pieces into another one, piece by piece, with a state in
between; where it never returns it has no result. A stage is seamless when it makes no difference to
it where its input is cut (`Seamless`); fed piece by piece, it then makes what it makes of the whole
(`Seamless.feed_eq`). A stage with a loop over positions in its input is a `scan`;
it ends as `Scans` says, and `Scans.append` takes it up where another one has stopped. `blocks` cuts
a stream into blocks of one length, `stepBy` takes one of every `n` elements; `blocks_append` and
`stepBy_append` say what they make of a stream that is cut.
-/

set_option autoImplicit false

namespace DialF.Lib

universe u v w x

/-- From a state and a piece of input to a state and a piece of output. -/
abbrev Pipe (σ : Type u) (α : Type v) (β : Type w) := σ → List α → Option (σ × List β)

section Pipe

variable {σ : Type u} {α : Type v} {β : Type w}

/-- A result, behind what came out before. -/
def behind (out : List β) (r : Option (σ × List β)) : Option (σ × List β) :=
  r.map fun r => (r.1, out ++ r.2)

@[simp] theorem behind_nil (r : Option (σ × List β)) : behind [] r = r := by
  cases r <;> rfl

@[simp] theorem behind_some (out : List β) (r : σ × List β) :
    behind out (some r) = some (r.1, out ++ r.2) := rfl

@[simp] theorem behind_none (out : List β) : behind out (none : Option (σ × List β)) = none := rfl

/-- In the states of an invariant, it makes no difference where the input is cut. -/
structure Seamless (I : σ → Prop) (f : Pipe σ α β) : Prop where
  nil : ∀ {s}, I s → f s [] = some (s, [])
  keeps : ∀ {s p t out}, I s → f s p = some (t, out) → I t
  append : ∀ {s} (p q), I s → f s (p ++ q) = (f s p).bind fun r => behind r.2 (f r.1 q)

/-- A stage that is fed piece by piece: the state at the end, and all that came out. -/
def feed (f : Pipe σ α β) : σ → List (List α) → Option (σ × List β)
  | s, [] => some (s, [])
  | s, p :: pieces => (f s p).bind fun r => behind r.2 (feed f r.1 pieces)

/-- Fed with more pieces, a stage goes on from where it was. -/
theorem feed_append (f : Pipe σ α β) (s : σ) (pieces more : List (List α)) :
    feed f s (pieces ++ more) =
      (feed f s pieces).bind fun r => behind r.2 (feed f r.1 more) := by
  induction pieces generalizing s with
  | nil => simp [feed]
  | cons p pieces ih =>
      rw [List.cons_append, feed, feed]
      cases f s p with
      | none => rfl
      | some r =>
          rw [Option.bind_some, Option.bind_some, ih]
          cases feed f r.1 pieces with
          | none => rfl
          | some r' =>
              rw [Option.bind_some, behind_some, Option.bind_some]
              cases feed f r'.1 more with
              | none => rfl
              | some r'' => simp

/-- A stage that has a result where another one has it too. -/
theorem feed_of_feed {f g : Pipe σ α β} (h : ∀ s p r, g s p = some r → f s p = some r)
    {s : σ} {pieces : List (List α)} {r : σ × List β} (hr : feed g s pieces = some r) :
    feed f s pieces = some r := by
  induction pieces generalizing s r with
  | nil => exact hr
  | cons p pieces ih =>
      obtain ⟨t, ht, hrest⟩ := Option.bind_eq_some_iff.1 hr
      obtain ⟨u, hu, rfl⟩ := Option.map_eq_some_iff.1 hrest
      rw [feed, h s p t ht, Option.bind_some, ih hu, behind_some]

/-- **A seamless stage** makes of pieces what it makes of them in one. -/
theorem Seamless.feed_eq {I : σ → Prop} {f : Pipe σ α β} (h : Seamless I f) (pieces : List (List α))
    {s : σ} (hs : I s) : feed f s pieces = f s pieces.flatten := by
  induction pieces generalizing s with
  | nil => exact (h.nil hs).symm
  | cons p pieces ih =>
      rw [feed, List.flatten_cons, h.append p _ hs]
      cases hp : f s p with
      | none => rfl
      | some r =>
          rw [Option.bind_some, Option.bind_some, ih (h.keeps hs hp)]

end Pipe

/-! ## Scans -/

/-- What a scan does at a position. -/
inductive Visit (β : Type w) where
  | skip
  | stop
  | emit (b : β)
  deriving DecidableEq

section Scan

variable {π : Type u} {β : Type w}

/-- Go from position to position until one says to stop: that position, and what the ones before it
gave. After `k` positions it gives up. -/
def scan (visit : π → Visit β) (next : π → π) : Nat → π → Option (π × List β)
  | 0, _ => none
  | k + 1, pos =>
      match visit pos with
      | .skip => scan visit next k (next pos)
      | .stop => some (pos, [])
      | .emit b => (scan visit next k (next pos)).map fun r => (r.1, b :: r.2)

/-- Where a scan that never gives up ends, and what it gives. -/
inductive Scans (visit : π → Visit β) (next : π → π) : π → π × List β → Prop where
  | skip {pos : π} {r : π × List β} :
      visit pos = .skip → Scans visit next (next pos) r → Scans visit next pos r
  | stop {pos : π} : visit pos = .stop → Scans visit next pos (pos, [])
  | emit {pos : π} {b : β} {r : π × List β} :
      visit pos = .emit b → Scans visit next (next pos) r → Scans visit next pos (r.1, b :: r.2)

variable {visit visit' : π → Visit β} {next : π → π} {pos : π} {r r' : π × List β}

theorem scans_of_scan {k : Nat} (h : scan visit next k pos = some r) :
    Scans visit next pos r := by
  induction k generalizing pos r with
  | zero => exact absurd h (by simp [scan])
  | succ k ih =>
      rw [scan] at h
      cases hv : visit pos with
      | skip =>
          rw [hv] at h
          exact .skip hv (ih h)
      | stop =>
          rw [hv] at h
          obtain rfl := Option.some.inj h
          exact .stop hv
      | emit b =>
          rw [hv] at h
          obtain ⟨r, hr, rfl⟩ := Option.map_eq_some_iff.1 h
          exact .emit hv (ih hr)

/-- A scan that comes to where it is told to stop ends. -/
theorem exists_scan_of_stop {k : Nat} (h : visit (next^[k] pos) = .stop) :
    ∃ r, scan visit next (k + 1) pos = some r := by
  induction k generalizing pos with
  | zero =>
      have hv : visit pos = .stop := h
      exact ⟨_, by rw [scan, hv]⟩
  | succ k ih =>
      obtain ⟨r, hr⟩ := ih h
      rw [scan]
      cases visit pos with
      | skip => exact ⟨r, hr⟩
      | stop => exact ⟨_, rfl⟩
      | emit b => exact ⟨_, by rw [hr]; rfl⟩

theorem Scans.unique (h : Scans visit next pos r) (h' : Scans visit next pos r') : r = r' := by
  induction h generalizing r' with
  | skip hv _ ih =>
      cases h' with
      | skip _ h' => exact ih h'
      | stop hv' => exact absurd (hv.symm.trans hv') (by simp)
      | emit hv' _ => exact absurd (hv.symm.trans hv') (by simp)
  | stop hv =>
      cases h' with
      | skip hv' _ => exact absurd (hv.symm.trans hv') (by simp)
      | stop _ => rfl
      | emit hv' _ => exact absurd (hv.symm.trans hv') (by simp)
  | emit hv _ ih =>
      cases h' with
      | skip hv' _ => exact absurd (hv.symm.trans hv') (by simp)
      | stop hv' => exact absurd (hv.symm.trans hv') (by simp)
      | emit hv' h' =>
          obtain rfl := Visit.emit.inj (hv.symm.trans hv')
          rw [ih h']

/-- It stops where it is told to, some positions on. -/
theorem Scans.exists_stop (h : Scans visit next pos r) :
    visit r.1 = .stop ∧ ∃ k, next^[k] pos = r.1 := by
  induction h with
  | skip _ _ ih =>
      obtain ⟨hstop, k, hk⟩ := ih
      exact ⟨hstop, k + 1, hk⟩
  | stop hv => exact ⟨hv, 0, rfl⟩
  | emit _ _ ih =>
      obtain ⟨hstop, k, hk⟩ := ih
      exact ⟨hstop, k + 1, hk⟩

/-- A scan may give up where it is told to stop by then, if ever. -/
theorem scan_eq_some_iff {k : Nat}
    (hk : (∃ i, visit (next^[i] pos) = .stop) → visit (next^[k] pos) = .stop) :
    scan visit next (k + 1) pos = some r ↔ Scans visit next pos r := by
  refine ⟨scans_of_scan, fun h => ?_⟩
  obtain ⟨hstop, i, hi⟩ := h.exists_stop
  obtain ⟨r', hr'⟩ := exists_scan_of_stop (hk ⟨i, hi ▸ hstop⟩)
  rw [hr', h.unique (scans_of_scan hr')]

/-- Two scans that do the same at the positions they come to are the same. -/
theorem Scans.congr {C : π → Prop} (h : Scans visit next pos r)
    (hnext : ∀ pos, C pos → C (next pos)) (hvisit : ∀ pos, C pos → visit pos = visit' pos)
    (hpos : C pos) : Scans visit' next pos r := by
  induction h with
  | skip hv _ ih => exact .skip ((hvisit _ hpos).symm.trans hv) (ih (hnext _ hpos))
  | stop hv => exact .stop ((hvisit _ hpos).symm.trans hv)
  | emit hv _ ih => exact .emit ((hvisit _ hpos).symm.trans hv) (ih (hnext _ hpos))

/-- **Resumption.** A scan that does the same before another one stops goes on where it stops. -/
theorem Scans.append (hvisit : ∀ pos, visit pos ≠ .stop → visit' pos = visit pos)
    (h : Scans visit next pos r) (h' : Scans visit' next r.1 r') :
    Scans visit' next pos (r'.1, r.2 ++ r'.2) := by
  induction h with
  | skip hv _ ih => exact .skip ((hvisit _ (by simp [hv])).trans hv) (ih h')
  | stop hv => exact h'
  | emit hv _ ih => exact .emit ((hvisit _ (by simp [hv])).trans hv) (ih h')

/-- Where the longer scan ends, so does the other. -/
theorem Scans.split (hvisit : ∀ pos, visit pos ≠ .stop → visit' pos = visit pos)
    (h : Scans visit' next pos r') :
    ∃ r out, Scans visit next pos r ∧ Scans visit' next r.1 (r'.1, out) ∧ r'.2 = r.2 ++ out := by
  induction h with
  | @skip pos r' hv' h ih =>
      cases hv : visit pos with
      | skip =>
          obtain ⟨r, out, hr, hout, heq⟩ := ih
          exact ⟨r, out, .skip hv hr, hout, heq⟩
      | stop => exact ⟨_, _, .stop hv, .skip hv' h, rfl⟩
      | emit b => exact absurd (hv'.symm.trans ((hvisit pos (by simp [hv])).trans hv)) (by simp)
  | @stop pos hv' =>
      cases hv : visit pos with
      | skip => exact absurd (hv'.symm.trans ((hvisit pos (by simp [hv])).trans hv)) (by simp)
      | stop => exact ⟨_, _, .stop hv, .stop hv', rfl⟩
      | emit b => exact absurd (hv'.symm.trans ((hvisit pos (by simp [hv])).trans hv)) (by simp)
  | @emit pos b r' hv' h ih =>
      cases hv : visit pos with
      | skip => exact absurd (hv'.symm.trans ((hvisit pos (by simp [hv])).trans hv)) (by simp)
      | stop => exact ⟨(pos, []), b :: r'.2, .stop hv, Scans.emit hv' h, rfl⟩
      | emit c =>
          obtain rfl := Visit.emit.inj (hv'.symm.trans ((hvisit pos (by simp [hv])).trans hv))
          obtain ⟨r, out, hr, hout, heq⟩ := ih
          exact ⟨_, out, .emit hv hr, hout, congrArg (b :: ·) heq⟩

/-- A scan that skips nothing has given one for each position before the one it stops at. -/
theorem Scans.length_eq (h : Scans visit next pos r)
    (hskip : ∀ i, visit (next^[i] pos) ≠ .skip) :
    visit (next^[r.2.length] pos) = .stop ∧ ∀ i < r.2.length, visit (next^[i] pos) ≠ .stop := by
  induction h with
  | skip hv _ _ => exact absurd hv (hskip 0)
  | stop hv => exact ⟨hv, fun i hi => absurd hi (Nat.not_lt_zero i)⟩
  | emit hv _ ih =>
      obtain ⟨hstop, hgo⟩ := ih fun i => hskip (i + 1)
      refine ⟨hstop, fun i hi => ?_⟩
      cases i with
      | zero =>
          rw [Function.iterate_zero, id, hv]
          simp
      | succ i => exact hgo i (Nat.lt_of_succ_lt_succ hi)

/-- A scan that fails at some of its positions. -/
def tryScan (tryVisit : π → Option (Visit β)) (next : π → π) : Nat → π → Option (π × List β)
  | 0, _ => none
  | k + 1, pos =>
      match tryVisit pos with
      | none => none
      | some .skip => tryScan tryVisit next k (next pos)
      | some .stop => some (pos, [])
      | some (.emit b) => (tryScan tryVisit next k (next pos)).map fun r => (r.1, b :: r.2)

variable {tryVisit : π → Option (Visit β)}

/-- One that does not fail does what a scan does. -/
theorem scan_of_tryScan (hvisit : ∀ pos v, tryVisit pos = some v → visit pos = v) {k : Nat}
    (h : tryScan tryVisit next k pos = some r) : scan visit next k pos = some r := by
  induction k generalizing pos r with
  | zero => exact absurd h (by simp [tryScan])
  | succ k ih =>
      rw [tryScan] at h
      rw [scan]
      cases hv : tryVisit pos with
      | none =>
          rw [hv] at h
          exact absurd h (by simp)
      | some v =>
          rw [hv] at h
          rw [hvisit pos v hv]
          cases v with
          | skip => exact ih h
          | stop => exact h
          | emit b =>
              obtain ⟨r', hr', rfl⟩ := Option.map_eq_some_iff.1 h
              rw [ih hr']
              rfl

/-- How many positions it may come to makes no difference, where it comes back. -/
theorem tryScan_of_scan (hvisit : ∀ pos v, tryVisit pos = some v → visit pos = v) {j k : Nat}
    (h : tryScan tryVisit next j pos = some r) (h' : scan visit next k pos = some r') :
    tryScan tryVisit next k pos = some r := by
  induction j generalizing k pos r r' with
  | zero => exact absurd h (by simp [tryScan])
  | succ j ih =>
      cases k with
      | zero => exact absurd h' (by simp [scan])
      | succ k =>
          rw [tryScan] at h ⊢
          rw [scan] at h'
          cases hv : tryVisit pos with
          | none =>
              rw [hv] at h
              exact absurd h (by simp)
          | some v =>
              rw [hv] at h
              rw [hvisit pos v hv] at h'
              cases v with
              | skip => exact ih h h'
              | stop => exact h
              | emit b =>
                  obtain ⟨s, hs, rfl⟩ := Option.map_eq_some_iff.1 h
                  obtain ⟨s', hs', -⟩ := Option.map_eq_some_iff.1 h'
                  show (tryScan tryVisit next k (next pos)).map _ = _
                  rw [ih hs hs']
                  rfl

/-- Where no position that it comes to fails, it is a scan. -/
theorem tryScan_eq_scan
    (hvisit : ∀ i, (∀ j < i, visit (next^[j] pos) ≠ .stop) →
      tryVisit (next^[i] pos) = some (visit (next^[i] pos))) (k : Nat) :
    tryScan tryVisit next k pos = scan visit next k pos := by
  induction k generalizing pos with
  | zero => rfl
  | succ k ih =>
      have hfirst : tryVisit pos = some (visit pos) :=
        hvisit 0 fun j hj => absurd hj (Nat.not_lt_zero j)
      have hrest : visit pos ≠ .stop →
          tryScan tryVisit next k (next pos) = scan visit next k (next pos) := by
        intro hgo
        apply ih
        intro i hi
        apply hvisit (i + 1)
        intro j hj
        cases j with
        | zero => exact hgo
        | succ j => exact hi j (Nat.lt_of_succ_lt_succ hj)
      rw [tryScan, scan, hfirst]
      cases hv : visit pos with
      | skip => exact hrest (by simp [hv])
      | stop => rfl
      | emit b =>
          show (tryScan tryVisit next k (next pos)).map _ = _
          rw [hrest (by simp [hv])]

end Scan

/-! ## Blocks -/

section Blocks

variable {α : Type u} {n : Nat}

/-- Cut whole blocks of `n` off a list: the blocks, and what is left. -/
def blocks (n : Nat) (l : List α) : List (List α) × List α :=
  if 0 < n ∧ n ≤ l.length then
    let (bs, rest) := blocks n (l.drop n)
    (l.take n :: bs, rest)
  else ([], l)
termination_by l.length
decreasing_by
  rw [List.length_drop]
  omega

theorem blocks_of_le (hn : 0 < n) {l : List α} (h : n ≤ l.length) :
    blocks n l = (l.take n :: (blocks n (l.drop n)).1, (blocks n (l.drop n)).2) := by
  rw [blocks, if_pos ⟨hn, h⟩]

theorem blocks_of_lt {l : List α} (h : l.length < n) : blocks n l = ([], l) := by
  rw [blocks, if_neg]
  omega

/-- The rest is no block. -/
theorem length_blocks_lt (hn : 0 < n) (l : List α) : (blocks n l).2.length < n := by
  fun_induction blocks n l with
  | case1 l h bs rest heq ih =>
      rw [heq] at ih
      exact ih
  | case2 l h => exact Nat.lt_of_not_le fun hle => h ⟨hn, hle⟩

/-- **Blocks are the same wherever the list is cut.** -/
theorem blocks_append (l m : List α) :
    blocks n (l ++ m) =
      ((blocks n l).1 ++ (blocks n ((blocks n l).2 ++ m)).1, (blocks n ((blocks n l).2 ++ m)).2) := by
  fun_induction blocks n l with
  | case1 l h bs rest heq ih =>
      have hle : n ≤ (l ++ m).length := by
        rw [List.length_append]
        omega
      rw [heq] at ih
      rw [blocks_of_le h.1 hle, List.take_append_of_le_length h.2,
        List.drop_append_of_le_length h.2, ih]
      rfl
  | case2 l h => simp

/-- Blocks that are put together are cut apart again. -/
theorem blocks_flatten (hn : 0 < n) {bs : List (List α)} (h : ∀ b ∈ bs, b.length = n) :
    blocks n bs.flatten = (bs, []) := by
  induction bs with
  | nil => exact blocks_of_lt hn
  | cons b bs ih =>
      have hb := h b List.mem_cons_self
      have hle : n ≤ (b ++ bs.flatten).length := by
        rw [List.length_append]
        omega
      rw [List.flatten_cons, blocks_of_le hn hle, ← hb, List.take_left, List.drop_left, hb,
        ih fun b hmem => h b (List.mem_cons_of_mem _ hmem)]

/-- The blocks of a prefix are the first ones. -/
theorem blocks_isPrefix {l m : List α} (h : l <+: m) : (blocks n l).1 <+: (blocks n m).1 := by
  obtain ⟨rest, rfl⟩ := h
  rw [blocks_append]
  exact List.prefix_append _ _

end Blocks

/-! ## One of every `n` -/

section StepBy

variable {α : Type u} {n : Nat}

/-- The first of every `n` elements. -/
def stepBy (n : Nat) : List α → List α
  | [] => []
  | a :: l => a :: stepBy n (l.drop (n - 1))
termination_by l => l.length
decreasing_by
  rw [List.length_drop, List.length_cons]
  omega

theorem getElem?_stepBy (hn : 0 < n) (l : List α) (i : Nat) : (stepBy n l)[i]? = l[i * n]? := by
  fun_induction stepBy n l generalizing i with
  | case1 => simp
  | case2 a l ih =>
      cases i with
      | zero => simp
      | succ i =>
          have hindex : (i + 1) * n = n - 1 + i * n + 1 := by
            rw [Nat.succ_mul]
            omega
          rw [List.getElem?_cons_succ, ih, List.getElem?_drop, hindex, List.getElem?_cons_succ]

theorem length_stepBy (hn : 0 < n) {l : List α} {k : Nat} (hl : l.length = k * n) :
    (stepBy n l).length = k := by
  apply Nat.le_antisymm
  · apply List.getElem?_eq_none_iff.1
    rw [getElem?_stepBy hn]
    exact List.getElem?_eq_none_iff.2 (Nat.le_of_eq hl)
  · cases k with
    | zero => exact Nat.zero_le _
    | succ k =>
        have hsome : k * n < l.length := by
          rw [hl, Nat.succ_mul]
          omega
        have hget := getElem?_stepBy hn l k
        rw [List.getElem?_eq_getElem hsome] at hget
        obtain ⟨hlt, -⟩ := List.getElem?_eq_some_iff.1 hget
        exact hlt

/-- **Whole steps can be cut off.** -/
theorem stepBy_append (hn : 0 < n) {l : List α} {k : Nat} (hl : l.length = k * n) (m : List α) :
    stepBy n (l ++ m) = stepBy n l ++ stepBy n m := by
  apply List.ext_getElem?
  intro i
  rw [getElem?_stepBy hn]
  by_cases hi : i < k
  · have hlt : i * n < l.length := by
      rw [hl]
      exact Nat.mul_lt_mul_of_pos_right hi hn
    rw [List.getElem?_append_left hlt, List.getElem?_append_left (by rwa [length_stepBy hn hl]),
      getElem?_stepBy hn]
  · have hge : k * n ≤ i * n := Nat.mul_le_mul_right n (Nat.le_of_not_lt hi)
    rw [List.getElem?_append_right (by rwa [hl]), List.getElem?_append_right
      (by rw [length_stepBy hn hl]; exact Nat.le_of_not_lt hi), getElem?_stepBy hn,
      length_stepBy hn hl, hl, Nat.sub_mul]

end StepBy

end DialF.Lib
