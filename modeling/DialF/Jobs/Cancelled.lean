import DialF.Jobs.Runner
import DialF.Daemon.JobFlags

/-!
# Steps of a cancelled job

The runner asks `cancelled()` behind a step that has run, and nowhere else: not before the first
step, and not behind a step that the auto-answer mode skips. What it asks the io for on reaching a
step does not depend on the answer (`asked_eq`), so a step that is reached by a cancelled job is
performed unless it is one of those the mode skips (`noStepOnceCancelled_iff`).

For an io whose flag does not change behind the runner's back (`Steady`) that leaves one place, the
first step that is not skipped (`noStepOnceCancelled_iff_of_steady`).
-/

set_option autoImplicit false

namespace DialF.Jobs

open DialF.Daemon

universe u v

section Cancelled

variable {ε : Type u} {σ : Type v}

/-- What a round asks the io for. -/
def asked (io : JobIo ε σ) (index : Nat) (step : Step) (rest : List Step) (s : σ) : List IoOp :=
  (round io.traced index step rest (s, [])).2.2

/-- No step that a run reaches with `cancelled()` true has its side effect performed. -/
def NoStepOnceCancelled (io : JobIo ε σ) (steps : List Step) (s₀ : σ) : Prop :=
  ∀ index step rest s, Arrives io steps s₀ index (step :: rest) s → (io.cancelled s).1 = true →
    step.kind.op ∉ asked io index step rest s

variable {io : JobIo ε σ} {steps : List Step} {s₀ : σ}

theorem asked_eq (index : Nat) (step : Step) (rest : List Step) (s : σ) :
    asked io index step rest s = performed io step s := by
  rw [asked, traced_round, List.nil_append]

/-- A round performs the step unless the mode skips it. -/
theorem op_mem_asked {index : Nat} {step : Step} {rest : List Step} {s : σ} :
    step.kind.op ∈ asked io index step rest s ↔ ¬ skips io step s = true := by
  rw [asked_eq, performed]
  by_cases hskip : skips io step s = true
  · simp [hskip]
  · simp [hskip, Step.effects]

/-- **No step starts once cancelled** exactly where every step that is reached by the cancelled job
is a call-setup step of an auto-answered one. -/
theorem noStepOnceCancelled_iff (io : JobIo ε σ) (steps : List Step) (s₀ : σ) :
    NoStepOnceCancelled io steps s₀ ↔
      ∀ index step rest s, Arrives io steps s₀ index (step :: rest) s →
        (io.cancelled s).1 = true →
          (io.inboundMode (io.nowMs s).2).1 = true ∧ step.kind.setsUpCall = true := by
  have hskips : ∀ step s, skips io step s = true ↔
      (io.inboundMode (io.nowMs s).2).1 = true ∧ step.kind.setsUpCall = true := by
    intro step s
    rw [skips, Bool.and_eq_true]
  constructor
  · intro h index step rest s harrives hcancelled
    have hnot := h index step rest s harrives hcancelled
    rw [op_mem_asked] at hnot
    exact (hskips step s).1 (Decidable.not_not.1 hnot)
  · intro h index step rest s harrives hcancelled hmem
    exact op_mem_asked.1 hmem ((hskips step s).2 (h index step rest s harrives hcancelled))

/-- The flag changes in the operations of the steps only, and the mode not at all. -/
structure JobIo.Steady (io : JobIo ε σ) (inbound : Bool) : Prop where
  mode : ∀ s, (io.inboundMode s).1 = inbound
  nowMs : ∀ s, (io.cancelled (io.nowMs s).2).1 = (io.cancelled s).1
  inboundMode : ∀ s, (io.cancelled (io.inboundMode s).2).1 = (io.cancelled s).1
  callEnded : ∀ s, (io.cancelled (io.callEnded s).2).1 = (io.cancelled s).1
  cancelled : ∀ s, (io.cancelled (io.cancelled s).2).1 = (io.cancelled s).1

variable {inbound : Bool}

/-- A run that goes on behind a step that ran is not cancelled there. -/
theorem not_cancelled_of_execute (h : io.Steady inbound) {index tStart : Nat} {step : Step}
    {rest : List Step} {new : List StepOutcome} {s t : σ}
    (hexec : execute io index step rest tStart s = (.ok (.next new), t)) :
    (io.cancelled t).1 = false := by
  rw [execute] at hexec
  rcases hrun : runStep io step.kind (logDescription io step s) with ⟨result, u⟩
  rw [hrun] at hexec
  cases result with
  | error e => simp at hexec
  | ok report =>
      simp only [Prod.mk.injEq, Except.ok.injEq] at hexec
      obtain ⟨hfalse, -, -, hstate⟩ := checks_eq_next (Prod.ext hexec.1 hexec.2)
      rw [hstate, h.callEnded, h.cancelled]
      exact hfalse

/-- A run whose job is cancelled on reaching a step was cancelled when it started: behind every step
that ran it was not. -/
theorem Arrives.cancelled_at_start (h : io.Steady inbound) {index : Nat} {rest : List Step} {s : σ}
    (harrives : Arrives io steps s₀ index rest s) (hcancelled : (io.cancelled s).1 = true) :
    (io.cancelled s₀).1 = true := by
  induction harrives with
  | start => exact hcancelled
  | @next index step rest new s t _ hround ih =>
      by_cases hskip : skips io step s = true
      · rw [round_of_skips _ _ hskip] at hround
        obtain rfl : (io.inboundMode (io.nowMs s).2).2 = t := congrArg Prod.snd hround
        rw [h.inboundMode, h.nowMs] at hcancelled
        exact ih hcancelled
      · rw [round_of_not_skips hskip] at hround
        rw [not_cancelled_of_execute h hround] at hcancelled
        exact absurd hcancelled Bool.false_ne_true

/-- A cancelled job gets past the steps that are skipped. -/
theorem Arrives.past_skipped (h : io.Steady inbound) {done rest : List Step} {index : Nat} {s : σ}
    (harrives : Arrives io steps s₀ index (done ++ rest) s)
    (hdone : ∀ step ∈ done, (inbound && step.kind.setsUpCall) = true)
    (hcancelled : (io.cancelled s).1 = true) :
    ∃ index' t, Arrives io steps s₀ index' rest t ∧ (io.cancelled t).1 = true := by
  induction done generalizing index s with
  | nil => exact ⟨index, s, harrives, hcancelled⟩
  | cons step done ih =>
      have hskip : skips io step s = true := by
        rw [skips, h.mode]
        exact hdone step List.mem_cons_self
      apply ih (harrives.next (round_of_skips _ _ hskip))
      · intro step' hstep'
        exact hdone step' (List.mem_cons_of_mem step hstep')
      · rw [h.inboundMode, h.nowMs]
        exact hcancelled

/-- **Steady flags.** Nothing is performed once cancelled exactly where the job is not cancelled
when it starts, or has no step but those that are skipped. -/
theorem noStepOnceCancelled_iff_of_steady (h : io.Steady inbound) :
    NoStepOnceCancelled io steps s₀ ↔
      (io.cancelled s₀).1 = false ∨ ∀ step ∈ steps, (inbound && step.kind.setsUpCall) = true := by
  rw [noStepOnceCancelled_iff]
  constructor
  · intro hall
    cases hstart : (io.cancelled s₀).1 with
    | false => exact Or.inl rfl
    | true =>
        right
        cases hfind : steps.find? fun step => !(inbound && step.kind.setsUpCall) with
        | none =>
            intro step hstep
            simpa using List.find?_eq_none.1 hfind step hstep
        | some step =>
            -- the first step that is not skipped is reached with the flag still set
            obtain ⟨hstep, done, rest, hsteps, hdone⟩ := List.find?_eq_some_iff_append.1 hfind
            have harrives : Arrives io steps s₀ 0 (done ++ step :: rest) s₀ := hsteps ▸ .start
            obtain ⟨index, t, harrives', ht⟩ :=
              harrives.past_skipped h (fun x hx => by simpa using hdone x hx) hstart
            obtain ⟨hmode, hsetup⟩ := hall _ _ _ _ harrives' ht
            rw [h.mode] at hmode
            simp [hmode, hsetup] at hstep
  · rintro hcond index step rest s harrives hcancelled
    have hstart := harrives.cancelled_at_start h hcancelled
    rcases hcond with hfalse | hskip
    · rw [hstart] at hfalse
      exact absurd hfalse.symm Bool.false_ne_true
    · have hmem : step ∈ steps := by
        rw [← List.take_append_drop index steps, harrives.drop_eq]
        exact List.mem_append_right _ List.mem_cons_self
      rw [h.mode, ← Bool.and_eq_true]
      exact hskip step hmem

end Cancelled

/-! ## A job cancelled while its recording starts -/

/-- The flags of a job as an io: its operations succeed and leave the flags alone. -/
def flagsIo (kind : JobKind) : JobIo String JobFlags where
  play _ s := (.ok (), s)
  waitForSpeech _ s := (.ok .silence, s)
  waitForSpeechStart _ _ _ s := (.ok true, s)
  dial _ s := (.ok (), s)
  waitForAnswer _ s := (.ok (), s)
  answer s := (.ok (), s)
  hangup s := (.ok (), s)
  sendSms _ _ s := (.ok (), s)
  sleep _ s := (.ok (), s)
  log _ s := s
  callEnded s := (false, s)
  inboundMode s := (decide (kind = .autoAnswer), s)
  cancelled s := (s.cancelled kind, s)
  nowMs s := (0, s)

/-- A cancel that comes once the job has cleared its flags, while its recording starts. -/
def cancelledAtStart : List FlagLabel :=
  [.acquire .run, .clearCancel, .clearForce, .clearAbort, .cancel false]

/-- The job still dials. -/
theorem dials_once_cancelled :
    ∃ s, JobFlags.machine.run JobFlags.start cancelledAtStart = some s ∧
      ¬ NoStepOnceCancelled (flagsIo .run) [⟨.callDial "15551234", none, none⟩] s := by
  refine ⟨_, rfl, ?_⟩
  intro h
  have hnot := h 0 ⟨.callDial "15551234", none, none⟩ [] _ .start rfl
  exact hnot (by decide)

/-- An auto-answered job that is aborted before its first step skips `call.answer` and plays. -/
example :
    (runJob (flagsIo .autoAnswer).traced
      [⟨.callAnswer, none, none⟩, ⟨.audioPlay "a.wav", none, none⟩]
      ({ JobFlags.start with jobAbort := true }, [])).2.2 = [.play "a.wav"] := by
  decide

end DialF.Jobs
