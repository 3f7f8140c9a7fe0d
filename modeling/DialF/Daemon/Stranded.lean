import DialF.Daemon.Commands

/-!
# Answered calls and the tasks that answered them

An auto-answer task sends an Answer command and awaits its ack, loads its job, records and runs it,
and hangs up where the load or the run fails. What the phone does with the Answer is its own matter:
it may act on a command whose ack comes too late or is failed by a new connection.

The machine puts the tasks over the hub, whose steps are those of all its users. `executed` has the
commands that a phone has acted on, and `hungUp` says that a Hangup was put into the send queue of
the task's device while the task was underway, by whomever.

`notStranded_along_iff` gives the runs in which no answered caller is left without a job and without
a hangup. A task whose Answer is reported failed ends without one, and a hangup for a device that is
not connected is not sent.
-/

set_option autoImplicit false

namespace DialF.Daemon

open DialF.Lib

/-- Where the steps of an auto-answer job come from: a job file, or the override itself. -/
inductive JobSource where
  | path (path : String)
  | steps
  deriving DecidableEq

/-- How far a task has come; `ranOk` says that `run_job` has completed without an error. -/
inductive AutoPhase where
  | answering
  | loading
  | starting
  | running
  | finishing (ranOk : Bool)
  | hangingUp (ranOk : Bool)
  | ended (ranOk : Bool)
  deriving DecidableEq

/-- The task has ended. -/
def AutoPhase.isEnded : AutoPhase → Bool
  | .ended _ => true
  | _ => false

/-- An auto-answer task, and its Answer among the commands. -/
structure AutoTask where
  device : String
  callId : String
  source : JobSource
  answer : Nat
  phase : AutoPhase
  hungUp : Bool
  deriving DecidableEq

namespace CommandHub

/-- The device for which the step puts a Hangup into a send queue. -/
def issuesHangup (s : CommandHub) : CommandLabel → Option String
  | .fire device (.hangup _) =>
      match s.conns.lookup device with
      | some gen => if gen ∈ s.closed then none else some device
      | none => none
  | .send i =>
      match s.commands[i]? with
      | some c =>
          -- a frame for a closed channel is put into no queue
          match c.phase, c.action with
          | .pending gen _, .hangup _ => if gen ∈ s.closed then none else some c.device
          | _, _ => none
      | none => none
  | _ => none

end CommandHub

/-- The hub, the tasks in the order of their calls, and the commands that phones have acted on. -/
structure AutoAnswers where
  hub : CommandHub
  tasks : List AutoTask
  executed : List String

/-- What can happen to the jobs that answer calls. -/
inductive AutoLabel where
  | hub (a : CommandLabel)
  | execute (cmdId : String)
  | start (device callId : String) (source : JobSource)
  | answered (i : Nat)
  | load (i : Nat) (loaded : Bool)
  | record (i : Nat) (recorded : Bool)
  | run (i : Nat) (ranOk : Bool)
  | finish (i : Nat) (finished : Bool)
  | hangup (i : Nat)

namespace AutoAnswers

/-- No connection, and no job. -/
def new : AutoAnswers := ⟨.new, [], []⟩

/-- The task with another phase. -/
def goTo (s : AutoAnswers) (i : Nat) (phase : AutoPhase) : AutoAnswers :=
  { s with tasks := s.tasks.modify i fun task => { task with phase := phase } }

/-- The task, after a Hangup for the device. -/
def note (hangup : Option String) (task : AutoTask) : AutoTask :=
  { task with
    hungUp := task.hungUp || (!task.phase.isEnded && decide (hangup = some task.device)) }

/-- A step of the hub. -/
def hubStep (s : AutoAnswers) (a : CommandLabel) : Option AutoAnswers :=
  (s.hub.step a).map fun hub =>
    { s with hub := hub, tasks := s.tasks.map (note (s.hub.issuesHangup a)) }

/-- The next part of the task `i`. -/
def advance (s : AutoAnswers) (i : Nat) (task : AutoTask) : AutoLabel → Option AutoAnswers
  | .answered _ =>
      match task.phase, s.hub.outcome task.answer with
      | .answering, some .ok => some (s.goTo i .loading)
      -- reported as failed: the task is given up
      | .answering, some _ => some (s.goTo i (.ended false))
      | _, _ => none
  | .load _ loaded =>
      match task.phase, task.source with
      -- inline steps always load
      | .loading, .steps => if loaded then some (s.goTo i .starting) else none
      | .loading, .path _ =>
          if loaded then some (s.goTo i .starting) else some (s.goTo i (.hangingUp false))
      | _, _ => none
  | .record _ recorded =>
      match task.phase with
      | .starting =>
          if recorded then some (s.goTo i .running) else some (s.goTo i (.hangingUp false))
      | _ => none
  | .run _ ranOk =>
      match task.phase with
      | .running => some (s.goTo i (.finishing ranOk))
      | _ => none
  -- the recording is finished before an error of the run is passed on
  | .finish _ finished =>
      match task.phase with
      | .finishing ranOk =>
          if finished && ranOk then some (s.goTo i (.ended ranOk))
          else some (s.goTo i (.hangingUp ranOk))
      | _ => none
  | .hangup _ =>
      match task.phase with
      | .hangingUp ranOk =>
          (s.hubStep (.fire task.device (.hangup none))).map fun t => t.goTo i (.ended ranOk)
      | _ => none
  | _ => none

/-- The step of a label that belongs to the task `i`. -/
def stepTask (s : AutoAnswers) (i : Nat) (a : AutoLabel) : Option AutoAnswers :=
  match s.tasks[i]? with
  | some task => s.advance i task a
  | none => none

/-- One step. -/
def step (s : AutoAnswers) : AutoLabel → Option AutoAnswers
  | .hub a => s.hubStep a
  | .execute k =>
      -- a phone acts on a command once, whether or not its ack gets through
      if k ∈ s.hub.frames.map CmdFrame.cmdId ∧ k ∉ s.executed then
        some { s with executed := s.executed ++ [k] }
      else none
  | .start device callId source =>
      (s.hub.step (.command device (.answer (some callId)))).map fun hub =>
        { s with
          hub := hub
          tasks := s.tasks ++
            [⟨device, callId, source, s.hub.commands.length, .answering, false⟩] }
  | .answered i => s.stepTask i (.answered i)
  | .load i loaded => s.stepTask i (.load i loaded)
  | .record i recorded => s.stepTask i (.record i recorded)
  | .run i ranOk => s.stepTask i (.run i ranOk)
  | .finish i finished => s.stepTask i (.finish i finished)
  | .hangup i => s.stepTask i (.hangup i)

/-- All runs of the jobs that answer calls. -/
def machine : Machine AutoAnswers AutoLabel where
  Init s := s = new
  step := step

/-- The phone has acted on the Answer of the task. -/
def ActedOn (s : AutoAnswers) (task : AutoTask) : Prop :=
  ∃ k ∈ s.executed, s.hub.commandId task.answer = some k

/-- **No stranded caller.** Where the phone has acted on the Answer of a task that has ended, the
job was run without an error or a Hangup was issued to the device. -/
def NotStranded (s : AutoAnswers) : Prop :=
  ∀ task ∈ s.tasks, ∀ ranOk, task.phase = .ended ranOk → s.ActedOn task →
    ranOk = true ∨ task.hungUp = true

/-- The task's device is connected, by a channel that is open. -/
def Connected (s : AutoAnswers) (task : AutoTask) : Prop :=
  ∃ gen, s.hub.conns.lookup task.device = some gen ∧ gen ∉ s.hub.closed

/-- A task whose Answer is reported as failed ends while the phone has not acted on it or after a
Hangup, and the phone does not act on it later; a hangup after a failure finds the device connected,
or another has been issued. -/
def Compensated (s : AutoAnswers) : AutoLabel → Prop
  | .answered i =>
      ∀ task outcome, s.tasks[i]? = some task → s.hub.outcome task.answer = some outcome →
        outcome ≠ .ok → s.ActedOn task → task.hungUp = true
  | .execute k =>
      ∀ task ∈ s.tasks, task.phase = .ended false → s.hub.commandId task.answer = some k →
        task.hungUp = true
  | .hangup i =>
      ∀ task, s.tasks[i]? = some task → task.phase = .hangingUp false → s.ActedOn task →
        task.hungUp = true ∨ s.Connected task
  | _ => True

/-- A task that has heard of its Answer goes on from what that has returned. -/
def Heard (s : AutoAnswers) : Prop :=
  ∀ task ∈ s.tasks, task.phase ≠ .answering →
    ∃ c, s.hub.commands[task.answer]? = some c ∧ c.phase.isOutstanding = false

section Step

variable {s t : AutoAnswers} {i : Nat} {task : AutoTask}

@[simp]
theorem note_phase (hangup : Option String) (task : AutoTask) :
    (note hangup task).phase = task.phase := rfl

@[simp]
theorem note_answer (hangup : Option String) (task : AutoTask) :
    (note hangup task).answer = task.answer := rfl

theorem note_hungUp {hangup : Option String} (h : task.hungUp = true) :
    (note hangup task).hungUp = true := by
  simp [note, h]

/-! ## Tasks that go on -/

/-- The tasks after one has gone on: that one, and others. -/
theorem mem_goTo {phase : AutoPhase} {x : AutoTask} (hi : s.tasks[i]? = some task)
    (hx : x ∈ (s.goTo i phase).tasks) : x = { task with phase := phase } ∨ x ∈ s.tasks := by
  obtain ⟨j, hj⟩ := List.getElem?_of_mem hx
  simp only [goTo, List.getElem?_modify] at hj
  obtain ⟨y, hy, rfl⟩ := Option.map_eq_some_iff.1 hj
  by_cases hij : i = j
  · subst hij
    obtain rfl := Option.some.inj (hi.symm.trans hy)
    exact .inl (by simp)
  · exact .inr (by simpa [hij] using List.mem_of_getElem? hy)

theorem mem_goTo_self {phase : AutoPhase} (hi : s.tasks[i]? = some task) :
    { task with phase := phase } ∈ (s.goTo i phase).tasks := by
  apply List.mem_of_getElem? (i := i)
  simp [goTo, hi]

/-- A task that goes on leaves nobody stranded unless it ends so itself. -/
theorem notStranded_goTo {phase : AutoPhase} (hs : NotStranded s) (hi : s.tasks[i]? = some task) :
    NotStranded (s.goTo i phase) ↔
      ∀ ranOk, phase = .ended ranOk → s.ActedOn task → ranOk = true ∨ task.hungUp = true := by
  constructor
  · intro h ranOk hphase hacted
    exact h _ (mem_goTo_self hi) ranOk hphase hacted
  · intro h x hx ranOk hphase hacted
    rcases mem_goTo hi hx with rfl | hold
    · exact h ranOk hphase hacted
    · exact hs x hold ranOk hphase hacted

theorem heard_goTo {phase : AutoPhase} (hs : Heard s) (hi : s.tasks[i]? = some task)
    (hheard : ∃ c, s.hub.commands[task.answer]? = some c ∧ c.phase.isOutstanding = false) :
    Heard (s.goTo i phase) := by
  intro x hx hphase
  rcases mem_goTo hi hx with rfl | hold
  · exact hheard
  · exact hs x hold hphase

/-! ## The hub goes on -/

/-- A command that has returned keeps its id. -/
theorem commandId_step {a : CommandLabel} {hub : CommandHub} (h : s.hub.step a = some hub)
    (hheard : ∃ c, s.hub.commands[task.answer]? = some c ∧ c.phase.isOutstanding = false) :
    hub.commandId task.answer = s.hub.commandId task.answer := by
  obtain ⟨c, hc, hret⟩ := hheard
  obtain ⟨d, hd, hphase⟩ := CommandHub.step_returned h hc hret
  simp only [CommandHub.commandId, hc, hd, Option.bind_some, hphase]

theorem heard_step {a : CommandLabel} {hub : CommandHub} (h : s.hub.step a = some hub)
    (hheard : ∃ c, s.hub.commands[task.answer]? = some c ∧ c.phase.isOutstanding = false) :
    ∃ c, hub.commands[task.answer]? = some c ∧ c.phase.isOutstanding = false := by
  obtain ⟨c, hc, hret⟩ := hheard
  obtain ⟨d, hd, hphase⟩ := CommandHub.step_returned h hc hret
  exact ⟨d, hd, hphase ▸ hret⟩

theorem hubStep_eq_some {a : CommandLabel} (h : s.hubStep a = some t) :
    ∃ hub, s.hub.step a = some hub ∧
      t = { s with hub := hub, tasks := s.tasks.map (note (s.hub.issuesHangup a)) } := by
  obtain ⟨hub, hstep, rfl⟩ := Option.map_eq_some_iff.1 h
  exact ⟨hub, hstep, rfl⟩

theorem heard_hubStep {a : CommandLabel} (hs : Heard s) (h : s.hubStep a = some t) : Heard t := by
  obtain ⟨hub, hstep, rfl⟩ := hubStep_eq_some h
  intro x hx hphase
  obtain ⟨task, htask, rfl⟩ := List.mem_map.1 hx
  exact heard_step hstep (hs task htask hphase)

/-- The hub leaves nobody stranded: what was returned stays, and hangups only come in addition. -/
theorem notStranded_hubStep {a : CommandLabel} (hheard : Heard s) (hs : NotStranded s)
    (h : s.hubStep a = some t) : NotStranded t := by
  obtain ⟨hub, hstep, rfl⟩ := hubStep_eq_some h
  intro x hx ranOk hphase hacted
  obtain ⟨task, htask, rfl⟩ := List.mem_map.1 hx
  rw [note_phase] at hphase
  -- an id that the hub has returned is not given to another command
  have hacted' : s.ActedOn task := by
    obtain ⟨k, hk, hid⟩ := hacted
    exact ⟨k, hk, (commandId_step hstep (hheard task htask (by simp [hphase]))).symm.trans hid⟩
  rcases hs task htask ranOk hphase hacted' with hran | hhung
  · exact .inl hran
  · exact .inr (note_hungUp hhung)

/-! ## One step -/

/-- What a step does, with the branch that it takes. A part of a task that neither hears of its
Answer nor ends is one branch: nothing is asked of it. -/
inductive Does (s : AutoAnswers) : AutoLabel → AutoAnswers → Prop where
  | hub {a : CommandLabel} {t : AutoAnswers} (hhub : s.hubStep a = some t) : Does s (.hub a) t
  | execute (k : String) : Does s (.execute k) { s with executed := s.executed ++ [k] }
  | start {device callId : String} {hub : CommandHub} (source : JobSource)
      (hstep : s.hub.step (.command device (.answer (some callId))) = some hub) :
      Does s (.start device callId source) { s with
        hub := hub
        tasks := s.tasks ++
          [⟨device, callId, source, s.hub.commands.length, .answering, false⟩] }
  | answered {i : Nat} {task : AutoTask} (hi : s.tasks[i]? = some task)
      (hout : s.hub.outcome task.answer = some .ok) : Does s (.answered i) (s.goTo i .loading)
  | failed {i : Nat} {task : AutoTask} {o : Outcome} (hi : s.tasks[i]? = some task)
      (hout : s.hub.outcome task.answer = some o) (hne : o ≠ .ok) :
      Does s (.answered i) (s.goTo i (.ended false))
  | goesOn {i : Nat} {task : AutoTask} {a : AutoLabel} {phase : AutoPhase}
      (hi : s.tasks[i]? = some task) (hpast : task.phase ≠ .answering)
      (hopen : phase.isEnded = false) (hfree : s.Compensated a) : Does s a (s.goTo i phase)
  | finished {i : Nat} {task : AutoTask} (hi : s.tasks[i]? = some task)
      (hpast : task.phase ≠ .answering) : Does s (.finish i true) (s.goTo i (.ended true))
  | hungUp {i : Nat} {task : AutoTask} {ranOk : Bool} {u : AutoAnswers}
      (hi : s.tasks[i]? = some task) (hphase : task.phase = .hangingUp ranOk)
      (hfire : s.hubStep (.fire task.device (.hangup none)) = some u) :
      Does s (.hangup i) (u.goTo i (.ended ranOk))

theorem stepTask_eq_some {a : AutoLabel} (h : s.stepTask i a = some t) :
    ∃ task, s.tasks[i]? = some task ∧ s.advance i task a = some t := by
  unfold stepTask at h
  split at h
  · rename_i task hi
    exact ⟨task, hi, h⟩
  · simp at h

theorem does_of_step {a : AutoLabel} (h : s.step a = some t) : Does s a t := by
  cases a with
  | hub a => exact .hub h
  | execute k =>
      simp only [step] at h
      split at h
      · obtain rfl := Option.some.inj h
        exact .execute k
      · simp at h
  | start device callId source =>
      simp only [step] at h
      obtain ⟨hub, hstep, rfl⟩ := Option.map_eq_some_iff.1 h
      exact .start source hstep
  | answered i =>
      obtain ⟨task, hi, h⟩ := stepTask_eq_some h
      simp only [advance] at h
      split at h
      · rename_i hout
        obtain rfl := Option.some.inj h
        exact .answered hi hout
      · rename_i o hne _ hout
        obtain rfl := Option.some.inj h
        exact .failed hi hout fun hok => hne (hok ▸ rfl)
      · simp at h
  | load i loaded =>
      obtain ⟨task, hi, h⟩ := stepTask_eq_some h
      simp only [advance] at h
      split at h
      · rename_i hphase _
        split at h
        · obtain rfl := Option.some.inj h
          exact .goesOn hi (by simp [hphase]) rfl trivial
        · simp at h
      · rename_i hphase _
        split at h
        all_goals
          obtain rfl := Option.some.inj h
          exact .goesOn hi (by simp [hphase]) rfl trivial
      · simp at h
  | record i recorded =>
      obtain ⟨task, hi, h⟩ := stepTask_eq_some h
      simp only [advance] at h
      split at h
      · rename_i hphase
        split at h
        all_goals
          obtain rfl := Option.some.inj h
          exact .goesOn hi (by simp [hphase]) rfl trivial
      · simp at h
  | run i ranOk =>
      obtain ⟨task, hi, h⟩ := stepTask_eq_some h
      simp only [advance] at h
      split at h
      · rename_i hphase
        obtain rfl := Option.some.inj h
        exact .goesOn hi (by simp [hphase]) rfl trivial
      · simp at h
  | finish i finished =>
      obtain ⟨task, hi, h⟩ := stepTask_eq_some h
      simp only [advance] at h
      split at h
      · rename_i ranOk hphase
        split at h
        · rename_i hok
          obtain ⟨rfl, rfl⟩ := Bool.and_eq_true_iff.1 hok
          obtain rfl := Option.some.inj h
          exact .finished hi (by simp [hphase])
        · obtain rfl := Option.some.inj h
          exact .goesOn hi (by simp [hphase]) rfl trivial
      · simp at h
  | hangup i =>
      obtain ⟨task, hi, h⟩ := stepTask_eq_some h
      simp only [advance] at h
      split at h
      · rename_i ranOk hphase
        obtain ⟨u, hu, rfl⟩ := Option.map_eq_some_iff.1 h
        exact .hungUp hi hphase hu
      · simp at h

/-- A hangup is issued exactly where the device is connected. -/
theorem issuesHangup_fire :
    s.hub.issuesHangup (.fire task.device (.hangup none)) = some task.device ↔
      s.Connected task := by
  unfold CommandHub.issuesHangup Connected
  cases hconn : s.hub.conns.lookup task.device with
  | none => simp [hconn]
  | some gen => simp [hconn]

/-- The task stands where it stood when its hangup is fired. -/
theorem getElem?_of_hubStep {a : CommandLabel} (hi : s.tasks[i]? = some task)
    (h : s.hubStep a = some t) : t.tasks[i]? = some (note (s.hub.issuesHangup a) task) := by
  obtain ⟨hub, -, rfl⟩ := hubStep_eq_some h
  show (s.tasks.map _)[i]? = _
  rw [List.getElem?_map, hi]
  rfl

/-- **A step keeps what the tasks have heard.** -/
theorem heard_of_step {a : AutoLabel} (hs : Heard s) (h : s.step a = some t) : Heard t := by
  -- past `answering`, a task's command has returned
  have hpast : ∀ {i : Nat} {task : AutoTask}, s.tasks[i]? = some task → task.phase ≠ .answering →
      ∃ c, s.hub.commands[task.answer]? = some c ∧ c.phase.isOutstanding = false :=
    fun hi hphase => hs _ (List.mem_of_getElem? hi) hphase
  cases does_of_step h with
  | hub hhub => exact heard_hubStep hs hhub
  | execute k => exact hs
  | start source hstep =>
      intro x hx hphase
      rcases List.mem_append.1 hx with hold | hnew
      · exact heard_step hstep (hs x hold hphase)
      · rw [List.mem_singleton.1 hnew] at hphase
        exact absurd rfl hphase
  | answered hi hout => exact heard_goTo hs hi (CommandHub.outcome_eq_some hout)
  | failed hi hout hne => exact heard_goTo hs hi (CommandHub.outcome_eq_some hout)
  | goesOn hi hphase hopen hfree => exact heard_goTo hs hi (hpast hi hphase)
  | finished hi hphase => exact heard_goTo hs hi (hpast hi hphase)
  | hungUp hi hphase hfire =>
      have hreturned := hpast hi (by simp [hphase])
      have hi' := getElem?_of_hubStep hi hfire
      have hheard := heard_hubStep hs hfire
      obtain ⟨hub, hstep, rfl⟩ := hubStep_eq_some hfire
      exact heard_goTo hheard hi' (heard_step hstep hreturned)

/-- A task goes on without ending. -/
theorem notStranded_goTo_of_not_ended {phase : AutoPhase} (hs : NotStranded s)
    (hi : s.tasks[i]? = some task) (hphase : phase.isEnded = false) :
    NotStranded (s.goTo i phase) := by
  refine (notStranded_goTo hs hi).2 fun ranOk heq => ?_
  rw [heq] at hphase
  exact absurd hphase (by simp [AutoPhase.isEnded])

/-- The hangup after a failure. -/
theorem notStranded_hangup {ranOk : Bool} (hheard : Heard s) (hs : NotStranded s)
    (hi : s.tasks[i]? = some task) (hphase : task.phase = .hangingUp ranOk)
    (hfire : s.hubStep (.fire task.device (.hangup none)) = some t) :
    NotStranded (t.goTo i (.ended ranOk)) ↔ s.Compensated (.hangup i) := by
  have hmem : task ∈ s.tasks := List.mem_of_getElem? hi
  have hi' := getElem?_of_hubStep hi hfire
  rw [notStranded_goTo (notStranded_hubStep hheard hs hfire) hi']
  obtain ⟨hub, hstep, rfl⟩ := hubStep_eq_some hfire
  have hsame := commandId_step hstep (hheard task hmem (by simp [hphase]))
  -- the task's own fire counts as a hangup where the device is connected
  have hnote : (note (s.hub.issuesHangup (.fire task.device (.hangup none))) task).hungUp = true ↔
      task.hungUp = true ∨ s.Connected task := by
    simp [note, hphase, AutoPhase.isEnded, issuesHangup_fire]
  rw [hnote]
  constructor
  · intro h x hx hphase' ⟨k, hk, hid⟩
    obtain rfl := Option.some.inj (hi.symm.trans hx)
    rw [hphase, AutoPhase.hangingUp.injEq] at hphase'
    subst hphase'
    rcases h false rfl ⟨k, hk, hsame.trans hid⟩ with hfalse | hdone
    · exact absurd hfalse (by simp)
    · exact hdone
  · rintro hok ranOk' heq ⟨k, hk, hid⟩
    obtain rfl := AutoPhase.ended.inj heq
    cases ranOk with
    | true => exact .inl rfl
    | false => exact .inr (hok task hi hphase ⟨k, hk, hsame.symm.trans hid⟩)

/-- The task is given up after its Answer has failed. -/
theorem notStranded_failed {o : Outcome} (hs : NotStranded s) (hi : s.tasks[i]? = some task)
    (hout : s.hub.outcome task.answer = some o) (hne : o ≠ .ok) :
    NotStranded (s.goTo i (.ended false)) ↔ s.Compensated (.answered i) := by
  rw [notStranded_goTo hs hi]
  constructor
  · intro hended x outcome hx houtcome _ hacted
    obtain rfl := Option.some.inj (hi.symm.trans hx)
    rcases hended false rfl hacted with hfalse | hhung
    · exact absurd hfalse (by simp)
    · exact hhung
  · intro hok ranOk _ hacted
    exact .inr (hok task o hi hout hne hacted)

/-- A phone acts on a command. -/
theorem notStranded_execute {k : String} (hs : NotStranded s) :
    NotStranded { s with executed := s.executed ++ [k] } ↔ s.Compensated (.execute k) := by
  constructor
  · intro hok task htask hphase hid
    have hacted : k ∈ s.executed ++ [k] := List.mem_append_right _ (List.mem_singleton.2 rfl)
    rcases hok task htask false hphase ⟨k, hacted, hid⟩ with hfalse | hhung
    · exact absurd hfalse (by simp)
    · exact hhung
  · rintro hok task htask ranOk hphase ⟨k', hk', hid⟩
    rcases List.mem_append.1 hk' with hold | hnew
    · exact hs task htask ranOk hphase ⟨k', hold, hid⟩
    · rw [List.mem_singleton.1 hnew] at hid
      cases ranOk with
      | true => exact .inl rfl
      | false => exact .inr (hok task htask hphase hid)

/-- **A step leaves nobody stranded exactly when it is compensated.** -/
theorem notStranded_step {a : AutoLabel} (hheard : Heard s) (hs : NotStranded s)
    (h : s.step a = some t) : NotStranded t ↔ s.Compensated a := by
  cases does_of_step h with
  | hub hhub => exact iff_of_true (notStranded_hubStep hheard hs hhub) trivial
  | execute k => exact notStranded_execute hs
  | start source hstep =>
      refine iff_of_true ?_ trivial
      rintro x hx ranOk hphase ⟨k, hk, hid⟩
      rcases List.mem_append.1 hx with hold | hnew
      · refine hs x hold ranOk hphase ⟨k, hk, ?_⟩
        exact (commandId_step hstep (hheard x hold (by simp [hphase]))).symm.trans hid
      · rw [List.mem_singleton.1 hnew] at hphase
        simp at hphase
  | answered hi hout =>
      refine iff_of_true (notStranded_goTo_of_not_ended hs hi rfl) ?_
      intro x outcome hx houtcome hne
      obtain rfl := Option.some.inj (hi.symm.trans hx)
      exact absurd (Option.some.inj (houtcome.symm.trans hout)) hne
  | failed hi hout hne => exact notStranded_failed hs hi hout hne
  | goesOn hi hpast hopen hfree =>
      exact iff_of_true (notStranded_goTo_of_not_ended hs hi hopen) hfree
  | finished hi hpast =>
      refine iff_of_true ((notStranded_goTo hs hi).2 fun ranOk heq _ => .inl ?_) trivial
      exact (AutoPhase.ended.inj heq).symm
  | hungUp hi hphase hfire => exact notStranded_hangup hheard hs hi hphase hfire

end Step

/-- **When no answered caller is stranded.** In every order of acks, timeouts, errors, reconnects
and parts of the tasks, a run strands nobody exactly when all its steps are compensated. -/
theorem notStranded_along_iff (run : List AutoLabel) :
    machine.Along NotStranded new run ↔ machine.Meets Compensated new run := by
  apply Machine.along_iff_meets (I := Heard)
  · intro s a t hs h
    exact heard_of_step hs h
  · intro s a t hheard hs h
    exact notStranded_step hheard hs h
  · intro task hmem
    simp [new] at hmem
  · intro task hmem
    simp [new] at hmem

/-- The phone answers the call, and its ack does not come in time. -/
def lateAck : List AutoLabel :=
  [.hub (.register "dev"), .start "dev" "a" (.path "job.yaml"), .hub (.lookup 0), .hub (.number 0),
    .hub (.insert 0), .hub (.send 0), .execute "c-1", .hub (.timeout 0), .hub (.cleanup 0),
    .answered 0]

theorem lateAck_task : ((machine.run new lateAck).map
    fun s => (s.tasks, s.executed, s.hub.commandId 0)) =
      some ([⟨"dev", "a", .path "job.yaml", 0, .ended false, false⟩], ["c-1"], some "c-1") := by
  rfl

theorem exists_stranded : ∃ s, machine.Reach s ∧ ¬ NotStranded s := by
  obtain ⟨s, hrun, hend⟩ := Option.map_eq_some_iff.1 lateAck_task
  simp only [Prod.mk.injEq] at hend
  obtain ⟨htasks, hexecuted, hid⟩ := hend
  refine ⟨s, Machine.reach_of_run (.init rfl) hrun, fun hs => ?_⟩
  have hmem : (⟨"dev", "a", .path "job.yaml", 0, .ended false, false⟩ : AutoTask) ∈ s.tasks := by
    rw [htasks]
    exact List.mem_singleton.2 rfl
  rcases hs _ hmem false rfl ⟨"c-1", by rw [hexecuted]; exact List.mem_singleton.2 rfl, hid⟩ with
    hran | hhung
  · exact absurd hran (by simp)
  · exact absurd hhung (by simp)

end AutoAnswers

end DialF.Daemon
