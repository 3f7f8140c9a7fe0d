import Mathlib.Logic.Relation

/-!
# Labelled machines and their runs

A machine is a set of initial states and a partial step function on labels; a label that is not
enabled has no successor. `ReachWhere ok` is reachability by steps that each meet the condition
`ok`, a condition on the state before the step and on the label, and `Reach` is reachability with no
condition. The invariant rule (`invariant`) is stated once, for conditional runs; `run` executes a
list of labels, and `reachWhere_of_run` turns an executed list into a reachable state.
`run_preserves` goes through an execution from its start, `meets_of_run` from its end, and
`length_le_of_measure` bounds its length. Where a condition on the steps is exact,
`along_iff_meets` gives the equivalence for whole executions, and `along_and_meets_iff` where the
steps have to be of a kind as well.
`run_filter` compares an execution with that of some of its labels.
-/

set_option autoImplicit false

namespace DialF.Lib

universe u v w

/-- A labelled machine: initial states and a partial step function. -/
structure Machine (σ : Type u) (α : Type v) where
  Init : σ → Prop
  step : σ → α → Option σ

namespace Machine

variable {σ : Type u} {α : Type v} (M : Machine σ α)

/-- States reached from an initial state by steps that each meet `ok`. -/
inductive ReachWhere (ok : σ → α → Prop) : σ → Prop where
  | init {s : σ} : M.Init s → ReachWhere ok s
  | step {s t : σ} (a : α) : ReachWhere ok s → ok s a → M.step s a = some t → ReachWhere ok t

/-- States reached by any steps. -/
abbrev Reach : σ → Prop := M.ReachWhere fun _ _ => True

variable {M}

/-- **The invariant rule for conditional runs.** A predicate that holds initially and is preserved
by every step that meets `ok` holds in every state such runs reach. -/
theorem invariant {ok : σ → α → Prop} {P : σ → Prop} (hinit : ∀ s, M.Init s → P s)
    (hstep : ∀ s a t, P s → ok s a → M.step s a = some t → P t) :
    ∀ s, M.ReachWhere ok s → P s := by
  intro s h
  induction h with
  | init h0 => exact hinit _ h0
  | step a _ hok hs ih => exact hstep _ a _ ih hok hs

/-- A weaker condition reaches more. -/
theorem ReachWhere.mono {ok ok' : σ → α → Prop} (himp : ∀ s a, ok s a → ok' s a) {s : σ}
    (h : M.ReachWhere ok s) : M.ReachWhere ok' s := by
  induction h with
  | init h0 => exact .init h0
  | step a _ hok hs ih => exact .step a ih (himp _ a hok) hs

variable (M)

/-- Execute a list of labels. -/
def run : σ → List α → Option σ
  | s, [] => some s
  | s, a :: as =>
      match M.step s a with
      | some t => run t as
      | none => none

/-- Every step of the execution of a list of labels meets `ok`. -/
def Meets (ok : σ → α → Prop) : σ → List α → Prop
  | _, [] => True
  | s, a :: as =>
      match M.step s a with
      | some t => ok s a ∧ Meets ok t as
      | none => True

instance decidableMeets (ok : σ → α → Prop) [∀ s a, Decidable (ok s a)] :
    ∀ (s : σ) (as : List α), Decidable (M.Meets ok s as)
  | _, [] => .isTrue trivial
  | s, a :: as =>
      match hst : M.step s a with
      | some t =>
          have := decidableMeets ok t as
          decidable_of_iff (ok s a ∧ M.Meets ok t as) (by rw [Meets, hst])
      | none => .isTrue (by rw [Meets, hst]; trivial)

/-- What an observer of the steps sees along the execution of a list of labels. -/
def collect {β : Type w} (obs : σ → α → List β) : σ → List α → List β
  | _, [] => []
  | s, a :: as =>
      match M.step s a with
      | some t => obs s a ++ collect obs t as
      | none => []

/-- `P` holds in every state that the execution of a list of labels passes through. -/
def Along (P : σ → Prop) : σ → List α → Prop
  | s, [] => P s
  | s, a :: as =>
      P s ∧
        match M.step s a with
        | some t => Along P t as
        | none => True

variable {M}

theorem meets_true (s : σ) (as : List α) : M.Meets (fun _ _ => True) s as := by
  induction as generalizing s with
  | nil => trivial
  | cons a as ih =>
      rw [Meets]
      cases M.step s a with
      | none => trivial
      | some u => exact ⟨trivial, ih u⟩

/-- A condition on the labels alone is met where all labels of the list meet it. -/
theorem meets_of_forall {ok : α → Prop} {as : List α} (h : ∀ a ∈ as, ok a) (s : σ) :
    M.Meets (fun _ a => ok a) s as := by
  induction as generalizing s with
  | nil => trivial
  | cons a as ih =>
      rw [Meets]
      cases M.step s a with
      | none => trivial
      | some u => exact ⟨h a List.mem_cons_self, ih (fun b hb => h b (List.mem_cons_of_mem a hb)) u⟩

theorem run_append (s : σ) (as bs : List α) :
    M.run s (as ++ bs) = (M.run s as).bind fun t => M.run t bs := by
  induction as generalizing s with
  | nil => rfl
  | cons a as ih =>
      rw [List.cons_append, run, run]
      cases M.step s a with
      | none => rfl
      | some u => exact ih u

/-- **The forward rule for executions.** What every step that meets `ok` preserves holds at the end
of an execution whose steps meet it. -/
theorem run_preserves {ok : σ → α → Prop} {P : σ → Prop}
    (hstep : ∀ s a t, P s → ok s a → M.step s a = some t → P t) {s t : σ} {as : List α} (hs : P s)
    (hok : M.Meets ok s as) (hrun : M.run s as = some t) : P t := by
  induction as generalizing s with
  | nil =>
      simp only [run, Option.some.injEq] at hrun
      exact hrun ▸ hs
  | cons a as ih =>
      simp only [Meets] at hok
      simp only [run] at hrun
      cases hst : M.step s a with
      | none =>
          rw [hst] at hrun
          exact absurd hrun (by simp)
      | some u =>
          rw [hst] at hrun hok
          exact ih (hstep s a u hs hok.1 hst) hok.2 hrun

/-- The unconditional case of `run_preserves`. -/
theorem run_invariant {P : σ → Prop} (hstep : ∀ s a t, P s → M.step s a = some t → P t) {s t : σ}
    {as : List α} (hs : P s) (hrun : M.run s as = some t) : P t :=
  run_preserves (fun s a t hs _ h => hstep s a t hs h) hs (meets_true s as) hrun

/-- **The measure rule.** Where every step that meets `ok` from a state of `I` takes the measure
down, an execution is no longer than what its measure has lost. -/
theorem length_le_of_measure {ok : σ → α → Prop} {I : σ → Prop} {μ : σ → Nat}
    (hstep : ∀ s a t, I s → ok s a → M.step s a = some t → I t ∧ μ t < μ s) {s t : σ}
    {as : List α} (hs : I s) (hok : M.Meets ok s as) (hrun : M.run s as = some t) :
    as.length + μ t ≤ μ s := by
  induction as generalizing s with
  | nil =>
      obtain rfl := Option.some.inj hrun
      simp
  | cons a as ih =>
      simp only [Meets] at hok
      simp only [run] at hrun
      cases hst : M.step s a with
      | none => simp [hst] at hrun
      | some u =>
          rw [hst] at hrun hok
          obtain ⟨hu, hlt⟩ := hstep s a u hs hok.1 hst
          have hrest := ih hu hok.2 hrun
          rw [List.length_cons]
          omega

/-- **The rule for what has been seen.** What relates what has been seen to the state, and is kept
by every step that meets `ok`, relates what an execution has seen to its end. -/
theorem run_collect {β : Type w} {ok : σ → α → Prop} (obs : σ → α → List β)
    {R : List β → σ → Prop}
    (hstep : ∀ seen s a t, R seen s → ok s a → M.step s a = some t → R (seen ++ obs s a) t)
    (seen : List β) {s t : σ} {as : List α} (hs : R seen s) (hok : M.Meets ok s as)
    (hrun : M.run s as = some t) : R (seen ++ M.collect obs s as) t := by
  induction as generalizing seen s with
  | nil =>
      obtain rfl := Option.some.inj hrun
      rwa [collect, List.append_nil]
  | cons a as ih =>
      simp only [run] at hrun
      simp only [Meets] at hok
      cases hst : M.step s a with
      | none => simp [hst] at hrun
      | some u =>
          rw [hst] at hrun hok
          have hu := ih _ (hstep seen s a u hs hok.1 hst) hok.2 hrun
          rwa [collect, hst, ← List.append_assoc]

/-- **The backward rule for executions.** Where no step that ends in a state with `Q` violates `ok`
or starts without `Q`, an execution that ends in such a state meets `ok`. -/
theorem meets_of_run {ok : σ → α → Prop} {Q : σ → Prop}
    (hback : ∀ s a t, M.step s a = some t → Q t → Q s ∧ ok s a) {s t : σ} {as : List α}
    (hrun : M.run s as = some t) (hQ : Q t) : Q s ∧ M.Meets ok s as := by
  induction as generalizing s with
  | nil =>
      obtain rfl := Option.some.inj hrun
      exact ⟨hQ, trivial⟩
  | cons a as ih =>
      simp only [run] at hrun
      simp only [Meets]
      cases hst : M.step s a with
      | none => simp [hst] at hrun
      | some u =>
          rw [hst] at hrun
          obtain ⟨hu, hmeets⟩ := ih hrun
          obtain ⟨hs, hok⟩ := hback s a u hst hu
          exact ⟨hs, hok, hmeets⟩

/-- An executed list of labels ends in a reachable state. -/
theorem reachWhere_of_run {ok : σ → α → Prop} {s t : σ} {as : List α} (hs : M.ReachWhere ok s)
    (hok : M.Meets ok s as) (hrun : M.run s as = some t) : M.ReachWhere ok t :=
  run_preserves (fun _ a _ hu hmeets hstep => .step a hu hmeets hstep) hs hok hrun

/-- The unconditional case of `reachWhere_of_run`. -/
theorem reach_of_run {s t : σ} {as : List α} (hs : M.Reach s) (hrun : M.run s as = some t) :
    M.Reach t :=
  reachWhere_of_run hs (meets_true s as) hrun

/-- **The exact condition for a run to keep `P`.** Where, in the states of an invariant `I`, a step
from a state with `P` leads to one with `P` exactly when it meets `ok`, an execution passes through
states with `P` only exactly when all its steps meet `ok`. -/
theorem along_iff_meets {ok : σ → α → Prop} {I P : σ → Prop}
    (hI : ∀ s a t, I s → M.step s a = some t → I t)
    (hP : ∀ s a t, I s → P s → M.step s a = some t → (P t ↔ ok s a)) {s : σ} (hs : I s)
    (hPs : P s) (as : List α) : M.Along P s as ↔ M.Meets ok s as := by
  induction as generalizing s with
  | nil => exact iff_of_true hPs trivial
  | cons a as ih =>
      rw [Along, Meets]
      cases hst : M.step s a with
      | none => exact iff_of_true ⟨hPs, trivial⟩ trivial
      | some t =>
          have hstep := hP s a t hs hPs hst
          constructor
          · rintro ⟨-, halong⟩
            have hPt : P t := by
              cases as with
              | nil => exact halong
              | cons b bs => exact halong.1
            exact ⟨hstep.1 hPt, (ih (hI s a t hs hst) hPt).1 halong⟩
          · rintro ⟨hok, hmeets⟩
            exact ⟨hPs, (ih (hI s a t hs hst) (hstep.2 hok)).2 hmeets⟩

/-- **The exact condition for a run to keep `P` and to make `seen` steps only.** Where a step from a
state with `P` leads to one with `P` and is `seen` exactly when it meets `ok`, so does an execution
exactly when all its steps meet `ok`. -/
theorem along_and_meets_iff {ok seen : σ → α → Prop} {P : σ → Prop}
    (hP : ∀ s a t, P s → M.step s a = some t → (P t ∧ seen s a ↔ ok s a)) {s : σ} (hPs : P s)
    (as : List α) : M.Along P s as ∧ M.Meets seen s as ↔ M.Meets ok s as := by
  induction as generalizing s with
  | nil => exact iff_of_true ⟨hPs, trivial⟩ trivial
  | cons a as ih =>
      rw [Along, Meets, Meets]
      cases hst : M.step s a with
      | none => exact iff_of_true ⟨⟨hPs, trivial⟩, trivial⟩ trivial
      | some t =>
          have hstep := hP s a t hPs hst
          constructor
          · rintro ⟨⟨-, halong⟩, hseen, hmeets⟩
            have hPt : P t := by
              cases as with
              | nil => exact halong
              | cons b bs => exact halong.1
            exact ⟨hstep.1 ⟨hPt, hseen⟩, (ih hPt).1 ⟨halong, hmeets⟩⟩
          · rintro ⟨hok, hmeets⟩
            obtain ⟨hPt, hseen⟩ := hstep.2 hok
            obtain ⟨halong, hseens⟩ := (ih hPt).2 hmeets
            exact ⟨⟨hPs, halong⟩, hseen, hseens⟩

/-- **A condition under which a run keeps `P`.** Where all of `I` is `P`, and steps that meet `ok`
keep `I`, an execution whose steps all do passes through states with `P` only. -/
theorem along_of_meets {ok : σ → α → Prop} {I P : σ → Prop}
    (hI : ∀ s a t, I s → ok s a → M.step s a = some t → I t) (hP : ∀ s, I s → P s) {s : σ}
    (hs : I s) {as : List α} (hok : M.Meets ok s as) : M.Along P s as := by
  induction as generalizing s with
  | nil => exact hP s hs
  | cons a as ih =>
      rw [Along]
      rw [Meets] at hok
      refine ⟨hP s hs, ?_⟩
      cases hst : M.step s a with
      | none => trivial
      | some t =>
          rw [hst] at hok
          exact ih (hI s a t hs hok.1 hst) hok.2

/-- The unconditional case of `along_of_meets`. -/
theorem along_of_invariant {I P : σ → Prop} (hI : ∀ s a t, I s → M.step s a = some t → I t)
    (hP : ∀ s, I s → P s) {s : σ} (hs : I s) (as : List α) : M.Along P s as :=
  along_of_meets (fun s a t hs _ h => hI s a t hs h) hP hs (meets_true s as)

/-- **Unwinding.** Let `R` relate states that are alike to an observer. Where a label that is the
observer's has the same effect in alike states, and any other leads to a state that is alike to the
one before it, a run is alike to the run of the observer's labels alone. -/
theorem run_filter {ok : σ → α → Prop} {R : σ → σ → Prop} {mine : α → Bool}
    (hmine : ∀ s s' a t, R s s' → mine a = true → M.step s a = some t →
      ∃ t', M.step s' a = some t' ∧ R t t')
    (hother : ∀ s s' a t, R s s' → mine a = false → ok s a → M.step s a = some t → R t s')
    {s s' t : σ} {as : List α} (hR : R s s') (hok : M.Meets ok s as) (hrun : M.run s as = some t) :
    ∃ t', M.run s' (as.filter mine) = some t' ∧ R t t' := by
  induction as generalizing s s' with
  | nil =>
      obtain rfl := Option.some.inj hrun
      exact ⟨s', rfl, hR⟩
  | cons a as ih =>
      simp only [run] at hrun
      simp only [Meets] at hok
      cases hst : M.step s a with
      | none => simp [hst] at hrun
      | some u =>
          rw [hst] at hrun hok
          cases ha : mine a with
          | true =>
              obtain ⟨u', hu', hRu⟩ := hmine s s' a u hR ha hst
              obtain ⟨t', ht', hRt⟩ := ih hRu hok.2 hrun
              refine ⟨t', ?_, hRt⟩
              rw [List.filter_cons_of_pos ha, run, hu']
              exact ht'
          | false =>
              rw [List.filter_cons_of_neg (by simp [ha])]
              exact ih (hother s s' a u hR ha hok.1 hst) hok.2 hrun

end Machine

end DialF.Lib
