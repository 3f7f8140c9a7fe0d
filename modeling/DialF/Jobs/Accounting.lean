import DialF.Jobs.Runner
import Mathlib.Data.List.Zip

/-!
# Every step is accounted for

For an io that behaves (`Behaves`: the clock does not go back, the mode does not change, no
operation fails) a run of the runner is described by `Accounts`: which outcomes it reports for the
steps that are left, and what it asks the io for. `runFrom_accounts` shows that every run is
described so, whatever the io answers; the properties of the report are inductions over the
description.
-/

set_option autoImplicit false

namespace DialF.Jobs

universe u v

/-- The outcome that says where and why a job was stopped. -/
def StepOutcome.isMarker (o : StepOutcome) : Bool :=
  o.endReason = .cancelled ∨ o.endReason = .callEnded

/-- The operations that set up a call. -/
def IoOp.setsUpCall : IoOp → Bool
  | .dial _ | .waitForAnswer _ | .answer => true
  | _ => false

/-- What a run asks for on reaching a step. -/
def Step.asks (inbound : Bool) (step : Step) : List IoOp :=
  if inbound && step.kind.setsUpCall then [] else step.effects

/-- The outcome of a step that ran, not before `lo`. -/
structure Ran (index lo : Nat) (step : Step) (o : StepOutcome) : Prop where
  index : o.index = index
  id : o.id = step.id
  stepType : o.stepType = step.kind.name
  start : lo ≤ o.tStartMs
  span : o.tStartMs ≤ o.tEndMs
  endReason : o.endReason = .completed ∨ o.endReason = .timeout

/-- The outcomes of a run from the step at `index` on, and what it asks for; `lo` is a time that has
passed. -/
inductive Accounts (inbound : Bool) :
    Nat → Nat → List Step → List StepOutcome → List IoOp → Prop where
  | done (index lo : Nat) : Accounts inbound index lo [] [] []
  | skipped {index lo : Nat} {step : Step} {rest : List Step} {outcomes : List StepOutcome}
      {ops : List IoOp} (t : Nat) (summary : String) :
      (inbound && step.kind.setsUpCall) = true → lo ≤ t →
        Accounts inbound (index + 1) t rest outcomes ops →
          Accounts inbound index lo (step :: rest)
            (.skipped index step t .skipped summary :: outcomes) ops
  | ran {index lo : Nat} {step : Step} {rest : List Step} {outcomes : List StepOutcome}
      {ops : List IoOp} {o : StepOutcome} :
      (inbound && step.kind.setsUpCall) = false → Ran index lo step o →
        Accounts inbound (index + 1) o.tEndMs rest outcomes ops →
          Accounts inbound index lo (step :: rest) (o :: outcomes) (step.effects ++ ops)
  | stopped {index lo : Nat} {step : Step} {rest : List Step} {o m : StepOutcome} :
      (inbound && step.kind.setsUpCall) = false → Ran index lo step o → m.isMarker = true →
        o.tEndMs ≤ m.tStartMs → m.tEndMs = m.tStartMs →
          Accounts inbound index lo (step :: rest)
            (o :: m :: pushSkipped (index + 1) rest m.tStartMs) step.effects

section Report

variable {inbound : Bool} {index lo : Nat} {steps : List Step} {outcomes : List StepOutcome}
  {ops : List IoOp}

/-- What an outcome says of the step it is about. -/
def StepOutcome.key (o : StepOutcome) : Nat × Option String × String := (o.index, o.id, o.stepType)

/-- The keys of the steps from `index` on. -/
def stepKeys (index : Nat) (steps : List Step) : List (Nat × Option String × String) :=
  (steps.zipIdx index).map fun p => (p.2, p.1.id, p.1.kind.name)

theorem stepKeys_cons (index : Nat) (step : Step) (rest : List Step) :
    stepKeys index (step :: rest) = (index, step.id, step.kind.name) :: stepKeys (index + 1) rest :=
  rfl

theorem Ran.not_isMarker {step : Step} {o : StepOutcome} (h : Ran index lo step o) :
    o.isMarker = false := by
  rcases h.endReason with he | he <;> simp [StepOutcome.isMarker, he]

theorem Ran.key {step : Step} {o : StepOutcome} (h : Ran index lo step o) :
    o.key = (index, step.id, step.kind.name) := by
  rw [StepOutcome.key, h.index, h.id, h.stepType]

@[simp]
theorem skipped_not_isMarker {step : Step} {t : Nat} {summary : String} :
    (StepOutcome.skipped index step t .skipped summary).isMarker = false := rfl

/-- The steps that are not run any more are all reported, as skipped, at one time. -/
theorem pushSkipped_spec (rest : List Step) (index t : Nat) :
    ((pushSkipped index rest t).map StepOutcome.key = stepKeys index rest) ∧
      ∀ o ∈ pushSkipped index rest t,
        o.endReason = .skipped ∧ o.tStartMs = t ∧ o.tEndMs = t := by
  induction rest generalizing index with
  | nil => exact ⟨rfl, fun o ho => absurd ho List.not_mem_nil⟩
  | cons step rest ih =>
      obtain ⟨hkeys, hall⟩ := ih (index + 1)
      refine ⟨?_, ?_⟩
      · rw [pushSkipped, List.map_cons, hkeys, stepKeys_cons]
        rfl
      · intro o ho
        rw [pushSkipped, List.mem_cons] at ho
        rcases ho with rfl | ho
        · exact ⟨rfl, rfl, rfl⟩
        · exact hall o ho

theorem pushSkipped_not_isMarker {rest : List Step} {t : Nat} {o : StepOutcome}
    (ho : o ∈ pushSkipped index rest t) : o.isMarker = false := by
  have hend := ((pushSkipped_spec rest index t).2 o ho).1
  simp [StepOutcome.isMarker, hend]

/-- Every step is reported once, in order, under its own id and type. -/
theorem Accounts.keys (h : Accounts inbound index lo steps outcomes ops) :
    (outcomes.filter fun o => !o.isMarker).map StepOutcome.key = stepKeys index steps := by
  induction h with
  | done index lo => rfl
  | skipped t summary hskip hlo _ ih =>
      rw [List.filter_cons_of_pos (by simp), List.map_cons, ih, stepKeys_cons]
      rfl
  | ran hrun hran _ ih =>
      rw [List.filter_cons_of_pos (by simp [hran.not_isMarker]), List.map_cons, ih, stepKeys_cons,
        hran.key]
  | @stopped index lo step rest o m hrun hran hm hle hzero =>
      have hall : ∀ o ∈ pushSkipped (index + 1) rest m.tStartMs, (!o.isMarker) = true := by
        intro o ho
        rw [pushSkipped_not_isMarker ho]
        rfl
      rw [List.filter_cons_of_pos (by simp [hran.not_isMarker]),
        List.filter_cons_of_neg (by simp [hm]), List.filter_eq_self.2 hall, List.map_cons, hran.key,
        (pushSkipped_spec rest (index + 1) m.tStartMs).1, stepKeys_cons]

/-- At most one outcome is a marker. -/
theorem Accounts.markers (h : Accounts inbound index lo steps outcomes ops) :
    (outcomes.filter StepOutcome.isMarker).length ≤ 1 := by
  induction h with
  | done index lo => exact Nat.zero_le 1
  | skipped t summary hskip hlo _ ih =>
      rw [List.filter_cons_of_neg (by simp)]
      exact ih
  | ran hrun hran _ ih =>
      rw [List.filter_cons_of_neg (by simp [hran.not_isMarker])]
      exact ih
  | @stopped index lo step rest o m hrun hran hm hle hzero =>
      have hnone : ∀ o ∈ pushSkipped (index + 1) rest m.tStartMs, ¬ o.isMarker = true := by
        intro o ho
        rw [pushSkipped_not_isMarker ho]
        exact Bool.false_ne_true
      rw [List.filter_cons_of_neg (by simp [hran.not_isMarker]), List.filter_cons_of_pos hm,
        List.filter_eq_nil_iff.2 hnone]
      exact Nat.le_refl 1

/-- Behind a marker there are skipped steps only. -/
theorem Accounts.afterMarker (h : Accounts inbound index lo steps outcomes ops) :
    ∀ pre m post, outcomes = pre ++ m :: post → m.isMarker = true →
      ∀ o ∈ post, o.endReason = .skipped := by
  induction h with
  | done index lo =>
      intro pre m post hsplit
      cases pre <;> simp at hsplit
  | skipped t summary hskip hlo _ ih =>
      intro pre m post hsplit hm
      cases pre with
      | nil =>
          obtain ⟨rfl, -⟩ := List.cons.inj hsplit
          simp at hm
      | cons p pre => exact ih pre m post (List.cons.inj hsplit).2 hm
  | ran hrun hran _ ih =>
      intro pre m post hsplit hm
      cases pre with
      | nil =>
          obtain ⟨rfl, -⟩ := List.cons.inj hsplit
          rw [hran.not_isMarker] at hm
          exact absurd hm Bool.false_ne_true
      | cons p pre => exact ih pre m post (List.cons.inj hsplit).2 hm
  | @stopped index lo step rest o' m' hrun hran hm' hle hzero =>
      intro pre m post hsplit hm
      cases pre with
      | nil =>
          obtain ⟨rfl, -⟩ := List.cons.inj hsplit
          rw [hran.not_isMarker] at hm
          exact absurd hm Bool.false_ne_true
      | cons p pre =>
          have htail := (List.cons.inj hsplit).2
          cases pre with
          | nil =>
              obtain ⟨-, rfl⟩ := List.cons.inj htail
              intro o ho
              exact ((pushSkipped_spec rest (index + 1) m'.tStartMs).2 o ho).1
          | cons q pre =>
              -- a second marker would stand among the skipped steps
              have hmem : m ∈ pushSkipped (index + 1) rest m'.tStartMs := by
                rw [(List.cons.inj htail).2]
                exact List.mem_append_right _ List.mem_cons_self
              rw [pushSkipped_not_isMarker hmem] at hm
              exact absurd hm Bool.false_ne_true

/-- What is asked for is what the steps before the marker ask for. -/
theorem Accounts.effects (h : Accounts inbound index lo steps outcomes ops) :
    ops = (steps.take (outcomes.takeWhile fun o => !o.isMarker).length).flatMap
      (Step.asks inbound) := by
  induction h with
  | done index lo => rfl
  | skipped t summary hskip hlo _ ih =>
      rw [List.takeWhile_cons_of_pos (by simp), List.length_cons, List.take_succ_cons,
        List.flatMap_cons, ← ih, Step.asks, if_pos hskip, List.nil_append]
  | ran hrun hran _ ih =>
      rw [List.takeWhile_cons_of_pos (by simp [hran.not_isMarker]), List.length_cons,
        List.take_succ_cons, List.flatMap_cons, ← ih, Step.asks, if_neg (by simp [hrun])]
  | stopped hrun hran hm hle hzero =>
      rw [List.takeWhile_cons_of_pos (by simp [hran.not_isMarker]),
        List.takeWhile_cons_of_neg (by simp [hm]), List.length_cons, List.take_succ_cons,
        List.flatMap_cons, Step.asks, if_neg (by simp [hrun])]
      simp

/-- A step that sets up no call asks for no operation that does. -/
theorem effects_not_setsUpCall {step : Step} (h : step.kind.setsUpCall = false) :
    ∀ op ∈ step.effects, op.setsUpCall = false := by
  intro op hop
  rw [Step.effects, List.mem_append, List.mem_singleton, Option.mem_toList, Option.map_eq_some_iff]
    at hop
  rcases hop with ⟨d, -, rfl⟩ | rfl
  · rfl
  · obtain ⟨kind, description, id⟩ := step
    cases kind <;> first | rfl | exact absurd h (by simp [StepKind.setsUpCall])

theorem asks_not_setsUpCall (step : Step) :
    ∀ op ∈ step.asks true, op.setsUpCall = false := by
  intro op hop
  rw [Step.asks, Bool.true_and] at hop
  by_cases hsetup : step.kind.setsUpCall = true
  · simp [hsetup] at hop
  · rw [if_neg hsetup] at hop
    exact effects_not_setsUpCall (Bool.eq_false_iff.2 hsetup) op hop

/-- Nothing starts before a time that has passed, and nothing ends before it starts. -/
theorem Accounts.spans (h : Accounts inbound index lo steps outcomes ops) :
    ∀ o ∈ outcomes, lo ≤ o.tStartMs ∧ o.tStartMs ≤ o.tEndMs := by
  induction h with
  | done index lo => exact fun o ho => absurd ho List.not_mem_nil
  | skipped t summary hskip hlo _ ih =>
      intro o ho
      rcases List.mem_cons.1 ho with rfl | ho
      · exact ⟨hlo, Nat.le_refl _⟩
      · obtain ⟨hstart, hspan⟩ := ih o ho
        exact ⟨by omega, hspan⟩
  | ran hrun hran _ ih =>
      intro o ho
      have hstart := hran.start
      have hspan := hran.span
      rcases List.mem_cons.1 ho with rfl | ho
      · exact ⟨hstart, hspan⟩
      · obtain ⟨hle, hspan'⟩ := ih o ho
        exact ⟨by omega, hspan'⟩
  | @stopped index lo step rest o' m' hrun hran hm hle hzero =>
      intro o ho
      have hstart := hran.start
      have hspan := hran.span
      rcases List.mem_cons.1 ho with rfl | ho
      · exact ⟨hstart, hspan⟩
      · rcases List.mem_cons.1 ho with rfl | ho
        · exact ⟨by omega, by omega⟩
        · obtain ⟨-, hs, he⟩ := (pushSkipped_spec rest (index + 1) m'.tStartMs).2 o ho
          exact ⟨by omega, by omega⟩

/-- The times of start do not go back. -/
theorem Accounts.starts (h : Accounts inbound index lo steps outcomes ops) :
    outcomes.Pairwise fun a b => a.tStartMs ≤ b.tStartMs := by
  induction h with
  | done index lo => exact List.Pairwise.nil
  | skipped t summary hskip hlo hrest ih =>
      exact List.pairwise_cons.2 ⟨fun b hb => (hrest.spans b hb).1, ih⟩
  | ran hrun hran hrest ih =>
      refine List.pairwise_cons.2 ⟨fun b hb => ?_, ih⟩
      have hspan := hran.span
      have hb := (hrest.spans b hb).1
      omega
  | @stopped index lo step rest o' m' hrun hran hm hle hzero =>
      have hskipped : ∀ b ∈ pushSkipped (index + 1) rest m'.tStartMs, b.tStartMs = m'.tStartMs :=
        fun b hb => ((pushSkipped_spec rest (index + 1) m'.tStartMs).2 b hb).2.1
      have hspan := hran.span
      refine List.pairwise_cons.2 ⟨?_, List.pairwise_cons.2 ⟨?_, ?_⟩⟩
      · intro b hb
        rcases List.mem_cons.1 hb with rfl | hb
        · omega
        · rw [hskipped b hb]
          omega
      · intro b hb
        exact Nat.le_of_eq (hskipped b hb).symm
      · apply List.pairwise_of_forall_mem_list
        intro a ha b hb
        exact Nat.le_of_eq ((hskipped a ha).trans (hskipped b hb).symm)

end Report

/-! ## Runs -/

/-- What the io is promised to do in a run: readings of its clock do not decrease, the mode is
`inbound` whenever the run reads it, and no operation that the run asks for fails. -/
structure JobIo.Behaves {ε : Type u} {σ : Type v} (io : JobIo ε σ) (steps : List Step) (s₀ : σ)
    (inbound : Bool) : Prop where
  clock : ∀ s t, io.Reaches s₀ s → io.Reaches (io.nowMs s).2 t → (io.nowMs s).1 ≤ (io.nowMs t).1
  mode : ∀ index step rest s, Arrives io steps s₀ index (step :: rest) s →
    (io.inboundMode (io.nowMs s).2).1 = inbound
  ok : ∀ index step rest s, Arrives io steps s₀ index (step :: rest) s → ¬ skips io step s = true →
    (io.perform step.kind.op (logDescription io step (io.inboundMode (io.nowMs s).2).2)).1 = .ok ()

section Runs

variable {ε : Type u} {σ : Type v} {io : JobIo ε σ} {job : List Step} {s₀ : σ} {inbound : Bool}

theorem reaches_logDescription (io : JobIo ε σ) (step : Step) (s : σ) :
    io.Reaches s (logDescription io step s) := by
  obtain ⟨kind, description, id⟩ := step
  cases description with
  | none => exact Relation.ReflTransGen.refl
  | some d => exact Relation.ReflTransGen.single (.perform (.log d) s)

/-- The checks go on, or end the job with a marker that is stamped then. -/
theorem checks_spec (io : JobIo ε σ) (index : Nat) (rest : List Step) (o : StepOutcome) (s : σ) :
    ∃ t, io.Reaches s t ∧
      (checks io index rest o s = (.next [o], t) ∨
        ∃ (m : StepOutcome) (u : σ), io.Reaches s u ∧ m.isMarker = true ∧
          m.tStartMs = (io.nowMs u).1 ∧ m.tEndMs = m.tStartMs ∧
            checks io index rest o s =
              (.stop (o :: m :: pushSkipped (index + 1) rest m.tStartMs), t)) := by
  have hcancelled : io.Reaches s (io.cancelled s).2 := Relation.ReflTransGen.single (.cancelled s)
  have hended : io.Reaches s (io.callEnded (io.cancelled s).2).2 :=
    hcancelled.tail (.callEnded _)
  cases hc : (io.cancelled s).1 with
  | true =>
      refine ⟨(io.nowMs (io.cancelled s).2).2, hcancelled.tail (.nowMs _), Or.inr ?_⟩
      exact ⟨cancelledMarker (index + 1) (io.nowMs (io.cancelled s).2).1, _, hcancelled, rfl, rfl,
        rfl, checks_of_cancelled hc⟩
  | false =>
      cases he : (io.callEnded (io.cancelled s).2).1 with
      | true =>
          refine ⟨(io.nowMs (io.callEnded (io.cancelled s).2).2).2, hended.tail (.nowMs _), ?_⟩
          exact Or.inr ⟨callEndedMarker (index + 1) (io.nowMs (io.callEnded (io.cancelled s).2).2).1,
            _, hended, rfl, rfl, rfl, checks_of_callEnded hc he⟩
      | false => exact ⟨_, hended, Or.inl (checks_of_neither hc he)⟩

/-- What a step that is not skipped comes to. -/
inductive Executed (io : JobIo ε σ) (index lo : Nat) (step : Step) (rest : List Step) (s : σ) :
    Except ε Round × σ → Prop where
  | next {o : StepOutcome} {t : σ} : Ran index lo step o → io.Reaches s t →
      (∀ u, io.Reaches t u → o.tEndMs ≤ (io.nowMs u).1) →
        Executed io index lo step rest s (.ok (.next [o]), t)
  | stop {o m : StepOutcome} {t : σ} : Ran index lo step o → m.isMarker = true →
      o.tEndMs ≤ m.tStartMs → m.tEndMs = m.tStartMs →
        Executed io index lo step rest s
          (.ok (.stop (o :: m :: pushSkipped (index + 1) rest m.tStartMs)), t)

/-- A step that runs is reported, and the checks behind it end the job or not. -/
theorem execute_spec (h : io.Behaves job s₀ inbound) (index : Nat) (step : Step)
    (rest : List Step) {lo tStart : Nat} {s : σ} (hs : io.Reaches s₀ s)
    (hok : (io.perform step.kind.op (logDescription io step s)).1 = .ok ()) (hstart : lo ≤ tStart)
    (hlo : ∀ u, io.Reaches s u → tStart ≤ (io.nowMs u).1) :
    Executed io index lo step rest s (execute io index step rest tStart s) := by
  have hlog := reaches_logDescription io step s
  obtain ⟨summary, endReason, hend, hrun⟩ := runStep_of_perform_ok hok
  rcases hran : runStep io step.kind (logDescription io step s) with ⟨result, t⟩
  obtain rfl : result = .ok (summary, endReason) := by
    rw [hran] at hrun
    exact hrun
  have ht : io.Reaches s t := by
    refine hlog.tail ?_
    have hstate := runStep_state io step.kind (logDescription io step s)
    rw [hran] at hstate
    rw [show t = _ from hstate]
    exact .perform step.kind.op _
  have hnow : io.Reaches s (io.nowMs t).2 := ht.tail (.nowMs t)
  let o : StepOutcome :=
    ⟨index, step.id, step.kind.name, step.description, tStart, (io.nowMs t).1, endReason, summary⟩
  have ho : Ran index lo step o := ⟨rfl, rfl, rfl, hstart, hlo t ht, hend⟩
  have hlater : ∀ u, io.Reaches (io.nowMs t).2 u → o.tEndMs ≤ (io.nowMs u).1 :=
    fun u hu => h.clock t u (hs.trans ht) hu
  have hexec : execute io index step rest tStart s =
      (.ok (checks io index rest o (io.nowMs t).2).1, (checks io index rest o (io.nowMs t).2).2) := by
    rw [execute, hran]
  rw [hexec]
  obtain ⟨u, hu, hnext | ⟨m, n, hn, hm, hat, hzero, hstop⟩⟩ :=
    checks_spec io index rest o (io.nowMs t).2
  · rw [hnext]
    exact .next ho (hnow.trans hu) fun v hv => hlater v (hu.trans hv)
  · rw [hstop]
    exact .stop ho hm (hat ▸ hlater n hn) hzero

/-- **Every run is accounted for.** -/
theorem runFrom_accounts (h : io.Behaves job s₀ inbound) {steps : List Step} {index lo : Nat}
    (outcomes : List StepOutcome) {s : σ} (asked : List IoOp)
    (harrives : Arrives io job s₀ index steps s) (hs : io.Reaches s₀ s)
    (hlo : ∀ u, io.Reaches s u → lo ≤ (io.nowMs u).1) :
    ∃ new ops t, runFrom io index steps outcomes s = (.ok (outcomes ++ new), t) ∧
      runFrom io.traced index steps outcomes (s, asked) = (.ok (outcomes ++ new), t, asked ++ ops) ∧
        Accounts inbound index lo steps new ops := by
  induction steps generalizing index lo outcomes s asked with
  | nil => exact ⟨[], [], s, by simp [runFrom], by simp [runFrom], .done index lo⟩
  | cons step rest ih =>
      have hstart : io.Reaches s (io.nowMs s).2 := Relation.ReflTransGen.single (.nowMs s)
      have hto : io.Reaches s (io.inboundMode (io.nowMs s).2).2 := hstart.tail (.inboundMode _)
      have hlater : ∀ u, io.Reaches (io.inboundMode (io.nowMs s).2).2 u →
          (io.nowMs s).1 ≤ (io.nowMs u).1 := by
        intro u hu
        exact h.clock s u hs ((Relation.ReflTransGen.single (.inboundMode _)).trans hu)
      have hmode : skips io step s = (inbound && step.kind.setsUpCall) := by
        rw [skips, h.mode index step rest s harrives]
      by_cases hskip : skips io step s = true
      · have hround := round_of_skips index rest hskip
        have htraced := traced_round io index step rest (s, asked)
        rw [hround, performed, if_pos hskip, List.append_nil] at htraced
        obtain ⟨new, ops, t, hrun, hrun', hacc⟩ := ih _ _ (harrives.next hround) (hs.trans hto) hlater
        refine ⟨_, ops, t, ?_, ?_, .skipped (io.nowMs s).1
          (step.kind.name ++ " skipped (auto-answer mode)") (hmode ▸ hskip) (hlo s .refl) hacc⟩
        · rw [runFrom_of_next hround, hrun, List.append_assoc]
          rfl
        · rw [runFrom_of_next htraced, hrun', List.append_assoc]
          rfl
      · have htraced := traced_round io index step rest (s, asked)
        rw [performed, if_neg hskip] at htraced
        have hnot : (inbound && step.kind.setsUpCall) = false := by
          rw [← hmode]
          exact Bool.eq_false_iff.2 hskip
        have hexec := execute_spec h index step rest (hs.trans hto)
          (h.ok index step rest s harrives hskip) (hlo s .refl) hlater
        rw [← round_of_not_skips hskip] at hexec
        generalize hround : round io index step rest s = result at htraced hexec
        cases hexec with
        | next hran ht hafter =>
            obtain ⟨new, ops, t', hrun, hrun', hacc⟩ :=
              ih _ _ (harrives.next hround) (hs.trans (hto.trans ht)) hafter
            refine ⟨_, _, t', ?_, ?_, .ran hnot hran hacc⟩
            · rw [runFrom_of_next hround, hrun, List.append_assoc]
              rfl
            · rw [runFrom_of_next htraced, hrun', List.append_assoc, List.append_assoc]
              rfl
        | stop hran hm hle hzero =>
            exact ⟨_, _, _, runFrom_of_stop hround, runFrom_of_stop htraced,
              .stopped hnot hran hm hle hzero⟩

/-- What the report of a job says, beside what its io was asked for. -/
structure JobAccount (inbound : Bool) (steps : List Step) (outcomes : List StepOutcome)
    (ops : List IoOp) : Prop where
  /-- The outcomes that are no markers are those of the steps, each once and in order. -/
  keys : (outcomes.filter fun o => !o.isMarker).map StepOutcome.key = stepKeys 0 steps
  markers : (outcomes.filter StepOutcome.isMarker).length ≤ 1
  afterMarker : ∀ pre m post, outcomes = pre ++ m :: post → m.isMarker = true →
    ∀ o ∈ post, o.endReason = .skipped
  /-- Only the steps reported before the marker have asked for anything. -/
  effects : ops = (steps.take (outcomes.takeWhile fun o => !o.isMarker).length).flatMap
    (Step.asks inbound)
  noSetup : inbound = true → ∀ op ∈ ops, op.setsUpCall = false
  spans : ∀ o ∈ outcomes, o.tStartMs ≤ o.tEndMs
  starts : outcomes.Pairwise fun a b => a.tStartMs ≤ b.tStartMs

theorem Accounts.jobAccount {lo : Nat} {steps : List Step} {outcomes : List StepOutcome}
    {ops : List IoOp} (h : Accounts inbound 0 lo steps outcomes ops) :
    JobAccount inbound steps outcomes ops where
  keys := h.keys
  markers := h.markers
  afterMarker := h.afterMarker
  effects := h.effects
  noSetup := by
    rintro rfl op hop
    rw [h.effects] at hop
    obtain ⟨step, -, hmem⟩ := List.mem_flatMap.1 hop
    exact asks_not_setsUpCall step op hmem
  spans o ho := (h.spans o ho).2
  starts := h.starts

/-- **Job accounting.** For an io that behaves, a run reports every step once, in order, under its
own id and type; it reports at most one marker, behind which every step is skipped and none has
asked for anything; an auto-answered job never sets up a call; and the times are ordered. -/
theorem runJob_accounts (h : io.Behaves job s₀ inbound) :
    ∃ outcomes ops t, runJob io job s₀ = (.ok outcomes, t) ∧
      runJob io.traced job (s₀, []) = (.ok outcomes, t, ops) ∧
        JobAccount inbound job outcomes ops := by
  obtain ⟨outcomes, ops, t, hrun, htraced, hacc⟩ :=
    runFrom_accounts h [] [] .start .refl fun u _ => Nat.zero_le _
  exact ⟨outcomes, ops, t, hrun, htraced, hacc.jobAccount⟩

end Runs

/-! ## An io that behaves -/

/-- An io whose state is its clock: every operation takes ten milliseconds and hears speech. -/
def tickingIo (inbound : Bool) : JobIo String Nat where
  play _ s := (.ok (), s + 10)
  waitForSpeech _ s := (.ok .silence, s + 10)
  waitForSpeechStart _ _ _ s := (.ok true, s + 10)
  dial _ s := (.ok (), s + 10)
  waitForAnswer _ s := (.ok (), s + 10)
  answer s := (.ok (), s + 10)
  hangup s := (.ok (), s + 10)
  sendSms _ _ s := (.ok (), s + 10)
  sleep ms s := (.ok (), s + ms)
  log _ s := s
  callEnded s := (false, s)
  inboundMode s := (inbound, s)
  cancelled s := (decide (20 ≤ s), s)
  nowMs s := (s, s)

theorem tickingIo_reaches {inbound : Bool} {s t : Nat} (h : (tickingIo inbound).Reaches s t) :
    s ≤ t := by
  induction h with
  | refl => exact Nat.le_refl s
  | tail _ hmove ih =>
      apply Nat.le_trans ih
      cases hmove with
      | perform op =>
          cases op <;>
            first
              | exact Nat.le_add_right _ _
              | exact Nat.le_refl _
      | _ => exact Nat.le_refl _

theorem tickingIo_behaves (inbound : Bool) (job : List Step) :
    (tickingIo inbound).Behaves job 0 inbound where
  clock _ _ _ h := tickingIo_reaches h
  mode _ _ _ _ _ := rfl
  ok _ step _ _ _ _ := by cases step.kind <;> rfl

/-- An auto-answered job that is cancelled after its second prompt. -/
theorem runJob_accounts_ticking :
    ∃ outcomes ops t,
      runJob (tickingIo true)
          [⟨.callAnswer, none, none⟩, ⟨.audioPlay "a.wav", none, some "a"⟩,
            ⟨.audioPlay "b.wav", some "ask", none⟩, ⟨.callHangup, none, none⟩] 0 =
        (.ok outcomes, t) ∧
      runJob (tickingIo true).traced
          [⟨.callAnswer, none, none⟩, ⟨.audioPlay "a.wav", none, some "a"⟩,
            ⟨.audioPlay "b.wav", some "ask", none⟩, ⟨.callHangup, none, none⟩] (0, []) =
        (.ok outcomes, t, ops) ∧
        JobAccount true
          [⟨.callAnswer, none, none⟩, ⟨.audioPlay "a.wav", none, some "a"⟩,
            ⟨.audioPlay "b.wav", some "ask", none⟩, ⟨.callHangup, none, none⟩] outcomes ops :=
  runJob_accounts (tickingIo_behaves true _)

end DialF.Jobs
