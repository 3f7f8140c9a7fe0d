import Mathlib.Logic.Relation

/-!
# The job runner

`run_job` walks a list of steps and hands every side effect to a `JobIo`. An io is a record of
state-passing operations on a state of its own, which holds whatever the operations look at: phone,
sound card, flags that other threads set. Nothing is assumed of the answers.

`JobIo.traced` keeps, beside the state of an io, the operations asked for so far. The readings that
decide the course of a run (`call_ended`, `inbound_mode`, `cancelled`, `now_ms`) are not side
effects and are not kept.
-/

set_option autoImplicit false

namespace DialF.Jobs

universe u v

/-- Configuration of one `audio.wait_for_speech` turn. -/
structure TurnConfig where
  hopSize : Nat := 256
  silenceDurationMs : Nat := 3000
  endTimeoutMs : Nat := 45000
  onsetDurationMs : Nat := 100
  threshold : Rat := 1 / 2
  deriving DecidableEq

/-- Why a turn ended. -/
inductive EndReason where
  | silence
  | timeout
  | endOfStream
  deriving DecidableEq

/-- The name that `{reason:?}` prints. -/
def EndReason.debug : EndReason → String
  | .silence => "Silence"
  | .timeout => "Timeout"
  | .endOfStream => "EndOfStream"

/-- `StepKind`: what a step of a job does. -/
inductive StepKind where
  | audioPlay (file : String)
  | audioWaitForSpeech (endTimeoutMs silenceDurationMs onsetDurationMs : Nat)
  | audioWaitForSpeechStart (timeoutMs waitAfterStartMs onsetDurationMs : Nat)
  | callDial (number : String)
  | callWaitAnswered (timeoutMs : Nat)
  | callAnswer
  | callHangup
  | smsSend («to» body : String)
  | wait (ms : Nat)
  | log (message : String)
  deriving DecidableEq

/-- The step's wire name. -/
def StepKind.name : StepKind → String
  | .audioPlay _ => "audio.play"
  | .audioWaitForSpeech _ _ _ => "audio.wait_for_speech"
  | .audioWaitForSpeechStart _ _ _ => "audio.wait_for_speech_start"
  | .callDial _ => "call.dial"
  | .callWaitAnswered _ => "call.wait_answered"
  | .callAnswer => "call.answer"
  | .callHangup => "call.hangup"
  | .smsSend _ _ => "sms.send"
  | .wait _ => "wait"
  | .log _ => "log"

/-- The steps that set up a call, which an auto-answered job has no use for. -/
def StepKind.setsUpCall : StepKind → Bool
  | .callDial _ | .callWaitAnswered _ | .callAnswer => true
  | _ => false

/-- `Step`: what it does, and what it is called. -/
structure Step where
  kind : StepKind
  description : Option String
  id : Option String
  deriving DecidableEq

/-- Side-effecting operations that a job step can request. -/
structure JobIo (ε : Type u) (σ : Type v) where
  play : String → σ → Except ε Unit × σ
  waitForSpeech : TurnConfig → σ → Except ε EndReason × σ
  waitForSpeechStart : Nat → Nat → Nat → σ → Except ε Bool × σ
  dial : String → σ → Except ε Unit × σ
  waitForAnswer : Nat → σ → Except ε Unit × σ
  answer : σ → Except ε Unit × σ
  hangup : σ → Except ε Unit × σ
  sendSms : String → String → σ → Except ε Unit × σ
  sleep : Nat → σ → Except ε Unit × σ
  log : String → σ → σ
  callEnded : σ → Bool × σ
  inboundMode : σ → Bool × σ
  cancelled : σ → Bool × σ
  nowMs : σ → Nat × σ

/-- `StepEnd`: how a step came to its end. -/
inductive StepEnd where
  | completed
  | timeout
  | skipped
  | cancelled
  | callEnded
  deriving DecidableEq

/-- What is reported of a step. -/
structure StepOutcome where
  index : Nat
  id : Option String
  stepType : String
  description : Option String
  tStartMs : Nat
  tEndMs : Nat
  endReason : StepEnd
  summary : String
  deriving DecidableEq

/-- `StepOutcome::skipped`, for a step that never ran. -/
def StepOutcome.skipped (index : Nat) (step : Step) (at_ms : Nat) (endReason : StepEnd)
    (summary : String) : StepOutcome where
  index := index
  id := step.id
  stepType := step.kind.name
  description := step.description
  tStartMs := at_ms
  tEndMs := at_ms
  endReason := endReason
  summary := summary

/-- The summary of the marker of a call that has ended. -/
def callEndedSummary : String := "caller hung up — remaining steps skipped"

/-- The summary of the marker of a cancelled job. -/
def cancelledSummary : String := "cancelled — remaining steps skipped"

section Run

variable {ε : Type u} {σ : Type v}

/-- The answer of an operation, turned into what is reported of the step. -/
def reported {α : Type} (answer : Except ε α × σ) (report : α → String × StepEnd) :
    Except ε (String × StepEnd) × σ :=
  (answer.1.map report, answer.2)

variable (io : JobIo ε σ)

/-- `run_step`: one step through the io, with its summary and its end. -/
def runStep (kind : StepKind) (s : σ) : Except ε (String × StepEnd) × σ :=
  match kind with
  | .audioPlay file => reported (io.play file s) fun _ => ("played " ++ file, .completed)
  | .audioWaitForSpeech endTimeoutMs silenceDurationMs onsetDurationMs =>
      let turn : TurnConfig :=
        { silenceDurationMs := silenceDurationMs
          endTimeoutMs := endTimeoutMs
          onsetDurationMs := onsetDurationMs }
      reported (io.waitForSpeech turn s) fun reason =>
        ("turn ended: " ++ reason.debug, if reason = .timeout then .timeout else .completed)
  | .audioWaitForSpeechStart timeoutMs waitAfterStartMs onsetDurationMs =>
      reported (io.waitForSpeechStart timeoutMs waitAfterStartMs onsetDurationMs s) fun started =>
        if started then
          ("speech started, waited " ++ toString waitAfterStartMs ++ "ms", .completed)
        else ("no speech within " ++ toString timeoutMs ++ "ms", .timeout)
  | .callDial number => reported (io.dial number s) fun _ => ("dialed " ++ number, .completed)
  | .callWaitAnswered timeoutMs =>
      reported (io.waitForAnswer timeoutMs s) fun _ => ("call answered", .completed)
  | .callAnswer => reported (io.answer s) fun _ => ("answered", .completed)
  | .callHangup => reported (io.hangup s) fun _ => ("hung up", .completed)
  | .smsSend «to» body =>
      reported (io.sendSms «to» body s) fun _ =>
        ("sms -> " ++ «to» ++ " (" ++ toString body.utf8ByteSize ++ " chars)", .completed)
  | .wait ms => reported (io.sleep ms s) fun _ => ("waited " ++ toString ms ++ "ms", .completed)
  | .log message => (.ok ("log: " ++ message, .completed), io.log message s)

/-- What a round of the loop pushes, and whether the loop goes on. -/
inductive Round where
  | next (outcomes : List StepOutcome)
  | stop (outcomes : List StepOutcome)
  deriving DecidableEq

/-- `push_skipped`: every step from `index` on, as not run. -/
def pushSkipped : Nat → List Step → Nat → List StepOutcome
  | _, [], _ => []
  | index, step :: rest, at_ms =>
      .skipped index step at_ms .skipped (step.kind.name ++ " skipped") ::
        pushSkipped (index + 1) rest at_ms

/-- The outcome that marks where a job was stopped. -/
def marker (index at_ms : Nat) (description : String) (endReason : StepEnd) (summary : String) :
    StepOutcome where
  index := index
  id := none
  stepType := "control.log"
  description := some description
  tStartMs := at_ms
  tEndMs := at_ms
  endReason := endReason
  summary := summary

/-- The marker of a job that was cancelled before the step. -/
def cancelledMarker (index at_ms : Nat) : StepOutcome :=
  marker index at_ms "cancelled" .cancelled cancelledSummary

/-- The marker of a job whose call ended before the step. -/
def callEndedMarker (index at_ms : Nat) : StepOutcome :=
  marker index at_ms "call ended" .callEnded callEndedSummary

/-- `if let Some(d) = &step.description { io.log(d) }`. -/
def logDescription (step : Step) (s : σ) : σ :=
  match step.description with
  | some d => io.log d s
  | none => s

/-- What follows a step that has run: the two checks, and the end of the job if one says so. -/
def checks (index : Nat) (rest : List Step) (outcome : StepOutcome) (s : σ) : Round × σ :=
  let cancelled := io.cancelled s
  if cancelled.1 then
    let now := io.nowMs cancelled.2
    (.stop (outcome :: cancelledMarker (index + 1) now.1 :: pushSkipped (index + 1) rest now.1),
      now.2)
  else
    let ended := io.callEnded cancelled.2
    if ended.1 then
      let now := io.nowMs ended.2
      (.stop (outcome :: callEndedMarker (index + 1) now.1 :: pushSkipped (index + 1) rest now.1),
        now.2)
    else (.next [outcome], ended.2)

/-- A step that is not skipped, begun at `tStart`. -/
def execute (index : Nat) (step : Step) (rest : List Step) (tStart : Nat) (s : σ) :
    Except ε Round × σ :=
  match runStep io step.kind (logDescription io step s) with
  | (.error e, s) => (.error e, s)
  | (.ok (summary, endReason), s) =>
      let now := io.nowMs s
      let outcome : StepOutcome :=
        { index := index
          id := step.id
          stepType := step.kind.name
          description := step.description
          tStartMs := tStart
          tEndMs := now.1
          endReason := endReason
          summary := summary }
      let checked := checks io index rest outcome now.2
      (.ok checked.1, checked.2)

/-- One round of the loop of `run_job`. -/
def round (index : Nat) (step : Step) (rest : List Step) (s : σ) : Except ε Round × σ :=
  let start := io.nowMs s
  let inbound := io.inboundMode start.2
  if inbound.1 && step.kind.setsUpCall then
    -- `continue`: neither check is made
    (.ok (.next [.skipped index step start.1 .skipped
      (step.kind.name ++ " skipped (auto-answer mode)")]), inbound.2)
  else execute io index step rest start.1 inbound.2

/-- The loop of `run_job` from the step at `index` on. -/
def runFrom : Nat → List Step → List StepOutcome → σ → Except ε (List StepOutcome) × σ
  | _, [], outcomes, s => (.ok outcomes, s)
  | index, step :: rest, outcomes, s =>
      match round io index step rest s with
      | (.error e, s) => (.error e, s)
      | (.ok (.next new), s) => runFrom (index + 1) rest (outcomes ++ new) s
      | (.ok (.stop new), s) => (.ok (outcomes ++ new), s)

/-- `run_job`: the outcomes of the steps, from the first. -/
def runJob (steps : List Step) (s : σ) : Except ε (List StepOutcome) × σ :=
  runFrom io 0 steps [] s

end Run

/-! ## The operations that are side effects -/

/-- A request for a side effect. -/
inductive IoOp where
  | play (file : String)
  | waitForSpeech (turn : TurnConfig)
  | waitForSpeechStart (timeoutMs waitAfterStartMs onsetDurationMs : Nat)
  | dial (number : String)
  | waitForAnswer (timeoutMs : Nat)
  | answer
  | hangup
  | sendSms («to» body : String)
  | sleep (ms : Nat)
  | log (message : String)
  deriving DecidableEq

/-- The operation that a step of this kind requests. -/
def StepKind.op : StepKind → IoOp
  | .audioPlay file => .play file
  | .audioWaitForSpeech endTimeoutMs silenceDurationMs onsetDurationMs =>
      .waitForSpeech
        { silenceDurationMs := silenceDurationMs
          endTimeoutMs := endTimeoutMs
          onsetDurationMs := onsetDurationMs }
  | .audioWaitForSpeechStart timeoutMs waitAfterStartMs onsetDurationMs =>
      .waitForSpeechStart timeoutMs waitAfterStartMs onsetDurationMs
  | .callDial number => .dial number
  | .callWaitAnswered timeoutMs => .waitForAnswer timeoutMs
  | .callAnswer => .answer
  | .callHangup => .hangup
  | .smsSend «to» body => .sendSms «to» body
  | .wait ms => .sleep ms
  | .log message => .log message

/-- Everything that a step which runs asks for: its description is logged first. -/
def Step.effects (step : Step) : List IoOp :=
  (step.description.map IoOp.log).toList ++ [step.kind.op]

namespace JobIo

variable {ε : Type u} {σ : Type v} (io : JobIo ε σ)

/-- Perform an operation, and keep of its answer only whether it failed. -/
def perform (op : IoOp) (s : σ) : Except ε Unit × σ :=
  match op with
  | .play file => io.play file s
  | .waitForSpeech turn => ((io.waitForSpeech turn s).1.map fun _ => (), (io.waitForSpeech turn s).2)
  | .waitForSpeechStart timeoutMs waitAfterStartMs onsetDurationMs =>
      ((io.waitForSpeechStart timeoutMs waitAfterStartMs onsetDurationMs s).1.map fun _ => (),
        (io.waitForSpeechStart timeoutMs waitAfterStartMs onsetDurationMs s).2)
  | .dial number => io.dial number s
  | .waitForAnswer timeoutMs => io.waitForAnswer timeoutMs s
  | .answer => io.answer s
  | .hangup => io.hangup s
  | .sendSms «to» body => io.sendSms «to» body s
  | .sleep ms => io.sleep ms s
  | .log message => (.ok (), io.log message s)

/-- The io that also keeps what it has been asked to do. -/
def traced : JobIo ε (σ × List IoOp) where
  play file s := ((io.play file s.1).1, (io.play file s.1).2, s.2 ++ [.play file])
  waitForSpeech turn s :=
    ((io.waitForSpeech turn s.1).1, (io.waitForSpeech turn s.1).2, s.2 ++ [.waitForSpeech turn])
  waitForSpeechStart timeoutMs waitAfterStartMs onsetDurationMs s :=
    ((io.waitForSpeechStart timeoutMs waitAfterStartMs onsetDurationMs s.1).1,
      (io.waitForSpeechStart timeoutMs waitAfterStartMs onsetDurationMs s.1).2,
      s.2 ++ [.waitForSpeechStart timeoutMs waitAfterStartMs onsetDurationMs])
  dial number s := ((io.dial number s.1).1, (io.dial number s.1).2, s.2 ++ [.dial number])
  waitForAnswer timeoutMs s :=
    ((io.waitForAnswer timeoutMs s.1).1, (io.waitForAnswer timeoutMs s.1).2,
      s.2 ++ [.waitForAnswer timeoutMs])
  answer s := ((io.answer s.1).1, (io.answer s.1).2, s.2 ++ [.answer])
  hangup s := ((io.hangup s.1).1, (io.hangup s.1).2, s.2 ++ [.hangup])
  sendSms «to» body s :=
    ((io.sendSms «to» body s.1).1, (io.sendSms «to» body s.1).2, s.2 ++ [.sendSms «to» body])
  sleep ms s := ((io.sleep ms s.1).1, (io.sleep ms s.1).2, s.2 ++ [.sleep ms])
  log message s := (io.log message s.1, s.2 ++ [.log message])
  callEnded s := ((io.callEnded s.1).1, (io.callEnded s.1).2, s.2)
  inboundMode s := ((io.inboundMode s.1).1, (io.inboundMode s.1).2, s.2)
  cancelled s := ((io.cancelled s.1).1, (io.cancelled s.1).2, s.2)
  nowMs s := ((io.nowMs s.1).1, (io.nowMs s.1).2, s.2)

/-- One call of a method of an io takes `s` to `t`. -/
inductive Moves : σ → σ → Prop where
  | perform (op : IoOp) (s : σ) : Moves s (io.perform op s).2
  | callEnded (s : σ) : Moves s (io.callEnded s).2
  | inboundMode (s : σ) : Moves s (io.inboundMode s).2
  | cancelled (s : σ) : Moves s (io.cancelled s).2
  | nowMs (s : σ) : Moves s (io.nowMs s).2

/-- The states after any calls of the methods, in any order. -/
abbrev Reaches : σ → σ → Prop := Relation.ReflTransGen io.Moves

end JobIo

/-! ## What a step and a round do -/

section Spec

variable {ε : Type u} {σ : Type v} {io : JobIo ε σ}

/-- A step moves the io as its operation does. -/
theorem runStep_state (io : JobIo ε σ) (kind : StepKind) (s : σ) :
    (runStep io kind s).2 = (io.perform kind.op s).2 := by
  cases kind <;> rfl

/-- It fails only where its operation does. -/
theorem runStep_of_perform_ok {kind : StepKind} {s : σ} (h : (io.perform kind.op s).1 = .ok ()) :
    ∃ summary endReason, (endReason = .completed ∨ endReason = .timeout) ∧
      (runStep io kind s).1 = .ok (summary, endReason) := by
  cases kind with
  | audioWaitForSpeech endTimeoutMs silenceDurationMs onsetDurationMs =>
      simp only [StepKind.op, JobIo.perform] at h
      simp only [runStep, reported]
      generalize io.waitForSpeech _ s = answer at h ⊢
      obtain ⟨result, t⟩ := answer
      cases result with
      | error e => simp [Except.map] at h
      | ok reason =>
          refine ⟨_, _, ?_, rfl⟩
          cases reason <;> simp
  | audioWaitForSpeechStart timeoutMs waitAfterStartMs onsetDurationMs =>
      simp only [StepKind.op, JobIo.perform] at h
      simp only [runStep, reported]
      generalize io.waitForSpeechStart _ _ _ s = answer at h ⊢
      obtain ⟨result, t⟩ := answer
      cases result with
      | error e => simp [Except.map] at h
      | ok started =>
          cases started with
          | true => exact ⟨_, _, Or.inl rfl, rfl⟩
          | false => exact ⟨_, _, Or.inr rfl, rfl⟩
  | log message => exact ⟨_, _, Or.inl rfl, rfl⟩
  | _ =>
      simp only [StepKind.op, JobIo.perform] at h
      simp only [runStep, reported, h]
      exact ⟨_, _, Or.inl rfl, rfl⟩

theorem traced_runStep (kind : StepKind) (s : σ × List IoOp) :
    runStep io.traced kind s =
      ((runStep io kind s.1).1, (runStep io kind s.1).2, s.2 ++ [kind.op]) := by
  cases kind <;> rfl

theorem traced_logDescription (step : Step) (s : σ × List IoOp) :
    logDescription io.traced step s =
      (logDescription io step s.1, s.2 ++ (step.description.map IoOp.log).toList) := by
  obtain ⟨kind, description, id⟩ := step
  cases description with
  | none => simp [logDescription]
  | some d => rfl

section Checks

variable {index : Nat} {rest : List Step} {o : StepOutcome} {s : σ}

theorem checks_of_cancelled (h : (io.cancelled s).1 = true) :
    checks io index rest o s =
      (.stop (o :: cancelledMarker (index + 1) (io.nowMs (io.cancelled s).2).1 ::
        pushSkipped (index + 1) rest (io.nowMs (io.cancelled s).2).1),
        (io.nowMs (io.cancelled s).2).2) :=
  if_pos h

theorem checks_of_callEnded (h : (io.cancelled s).1 = false)
    (hended : (io.callEnded (io.cancelled s).2).1 = true) :
    checks io index rest o s =
      (.stop (o :: callEndedMarker (index + 1) (io.nowMs (io.callEnded (io.cancelled s).2).2).1 ::
        pushSkipped (index + 1) rest (io.nowMs (io.callEnded (io.cancelled s).2).2).1),
        (io.nowMs (io.callEnded (io.cancelled s).2).2).2) := by
  rw [checks, if_neg (Bool.eq_false_iff.1 h)]
  exact if_pos hended

theorem checks_of_neither (h : (io.cancelled s).1 = false)
    (hended : (io.callEnded (io.cancelled s).2).1 = false) :
    checks io index rest o s = (.next [o], (io.callEnded (io.cancelled s).2).2) := by
  rw [checks, if_neg (Bool.eq_false_iff.1 h)]
  exact if_neg (Bool.eq_false_iff.1 hended)

/-- The job goes on where both checks say no. -/
theorem checks_eq_next {new : List StepOutcome} {t : σ}
    (h : checks io index rest o s = (.next new, t)) :
    (io.cancelled s).1 = false ∧ (io.callEnded (io.cancelled s).2).1 = false ∧ new = [o] ∧
      t = (io.callEnded (io.cancelled s).2).2 := by
  cases hcancelled : (io.cancelled s).1 with
  | true =>
      rw [checks_of_cancelled hcancelled] at h
      simp at h
  | false =>
      cases hended : (io.callEnded (io.cancelled s).2).1 with
      | true =>
          rw [checks_of_callEnded hcancelled hended] at h
          simp at h
      | false =>
          rw [checks_of_neither hcancelled hended] at h
          simp only [Prod.mk.injEq, Round.next.injEq] at h
          exact ⟨rfl, rfl, h.1.symm, h.2.symm⟩

end Checks

theorem traced_checks (index : Nat) (rest : List Step) (o : StepOutcome) (s : σ × List IoOp) :
    checks io.traced index rest o s =
      ((checks io index rest o s.1).1, (checks io index rest o s.1).2, s.2) := by
  cases hcancelled : (io.cancelled s.1).1 with
  | true =>
      have htraced : (io.traced.cancelled s).1 = true := hcancelled
      rw [checks_of_cancelled hcancelled, checks_of_cancelled htraced]
      rfl
  | false =>
      have htraced : (io.traced.cancelled s).1 = false := hcancelled
      cases hended : (io.callEnded (io.cancelled s.1).2).1 with
      | true =>
          have htraced' : (io.traced.callEnded (io.traced.cancelled s).2).1 = true := hended
          rw [checks_of_callEnded hcancelled hended, checks_of_callEnded htraced htraced']
          rfl
      | false =>
          have htraced' : (io.traced.callEnded (io.traced.cancelled s).2).1 = false := hended
          rw [checks_of_neither hcancelled hended, checks_of_neither htraced htraced']
          rfl

theorem traced_execute (index : Nat) (step : Step) (rest : List Step) (tStart : Nat)
    (s : σ × List IoOp) :
    execute io.traced index step rest tStart s =
      ((execute io index step rest tStart s.1).1, (execute io index step rest tStart s.1).2,
        s.2 ++ step.effects) := by
  have hrun : runStep io.traced step.kind (logDescription io.traced step s) =
      ((runStep io step.kind (logDescription io step s.1)).1,
        (runStep io step.kind (logDescription io step s.1)).2, s.2 ++ step.effects) := by
    rw [traced_logDescription, traced_runStep, List.append_assoc]
    rfl
  simp only [execute, hrun]
  rcases runStep io step.kind (logDescription io step s.1) with ⟨result, t⟩
  cases result with
  | error e => rfl
  | ok report => simp only [traced_checks]; rfl

/-- The auto-answer mode skips the step. -/
def skips (io : JobIo ε σ) (step : Step) (s : σ) : Bool :=
  (io.inboundMode (io.nowMs s).2).1 && step.kind.setsUpCall

theorem round_of_skips (index : Nat) {step : Step} (rest : List Step) {s : σ}
    (h : skips io step s = true) :
    round io index step rest s =
      (.ok (.next [.skipped index step (io.nowMs s).1 .skipped
        (step.kind.name ++ " skipped (auto-answer mode)")]), (io.inboundMode (io.nowMs s).2).2) :=
  if_pos h

theorem round_of_not_skips {index : Nat} {step : Step} {rest : List Step} {s : σ}
    (h : ¬ skips io step s = true) :
    round io index step rest s =
      execute io index step rest (io.nowMs s).1 (io.inboundMode (io.nowMs s).2).2 :=
  if_neg h

/-- What a round asks for: nothing where the step is skipped, else the effects of the step. -/
def performed (io : JobIo ε σ) (step : Step) (s : σ) : List IoOp :=
  if skips io step s then [] else step.effects

/-- **A round of the traced io** is the round of the io, beside what it has asked for. -/
theorem traced_round (io : JobIo ε σ) (index : Nat) (step : Step) (rest : List Step)
    (s : σ × List IoOp) :
    round io.traced index step rest s =
      ((round io index step rest s.1).1, (round io index step rest s.1).2,
        s.2 ++ performed io step s.1) := by
  by_cases hskip : skips io step s.1 = true
  · have htraced : skips io.traced step s = true := hskip
    rw [round_of_skips index rest htraced, round_of_skips index rest hskip, performed, if_pos hskip,
      List.append_nil]
    rfl
  · have htraced : ¬ skips io.traced step s = true := hskip
    rw [round_of_not_skips htraced, round_of_not_skips hskip, performed, if_neg hskip,
      traced_execute]
    rfl

theorem runFrom_of_next {index : Nat} {step : Step} {rest : List Step}
    {outcomes new : List StepOutcome} {s t : σ}
    (h : round io index step rest s = (.ok (.next new), t)) :
    runFrom io index (step :: rest) outcomes s = runFrom io (index + 1) rest (outcomes ++ new) t := by
  rw [runFrom, h]

theorem runFrom_of_stop {index : Nat} {step : Step} {rest : List Step}
    {outcomes new : List StepOutcome} {s t : σ}
    (h : round io index step rest s = (.ok (.stop new), t)) :
    runFrom io index (step :: rest) outcomes s = (.ok (outcomes ++ new), t) := by
  rw [runFrom, h]

/-- A run of `run_job` on `steps` that starts in `s₀` reaches the step at `index`, with the steps
`rest` left, in the state `s`. -/
inductive Arrives (io : JobIo ε σ) (steps : List Step) (s₀ : σ) : Nat → List Step → σ → Prop where
  | start : Arrives io steps s₀ 0 steps s₀
  | next {index : Nat} {step : Step} {rest : List Step} {new : List StepOutcome} {s t : σ} :
      Arrives io steps s₀ index (step :: rest) s →
        round io index step rest s = (.ok (.next new), t) →
          Arrives io steps s₀ (index + 1) rest t

/-- What is left to a run that has reached a step is the loop from there. -/
theorem Arrives.runJob_eq {steps rest : List Step} {s₀ s : σ} {index : Nat}
    (h : Arrives io steps s₀ index rest s) :
    ∃ outcomes, runJob io steps s₀ = runFrom io index rest outcomes s := by
  induction h with
  | start => exact ⟨[], rfl⟩
  | next _ hround ih =>
      obtain ⟨outcomes, hrun⟩ := ih
      exact ⟨_, hrun.trans (runFrom_of_next hround)⟩

/-- The steps are reached in their order. -/
theorem Arrives.drop_eq {steps rest : List Step} {s₀ s : σ} {index : Nat}
    (h : Arrives io steps s₀ index rest s) : steps.drop index = rest := by
  induction h with
  | start => rfl
  | next _ _ ih => rw [← List.drop_drop, ih, List.drop_one, List.tail_cons]

end Spec

end DialF.Jobs
