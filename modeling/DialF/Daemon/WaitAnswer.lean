import DialF.Daemon.Reconnect
import DialF.Lib.Table

/-!
# Waiting for an answer

`wait_for_answer` polls the slot of the job's device until a call in it is active. The loop looks at
the state in the slot and never at the call: it starts from whatever the slot holds when the job
dials, and connections and frames of any call overwrite the slot while it polls.

The machine adds to the daemon, its connections and the job what none of them records: the id that
the phone gave the call that the job dialled (`own`), the reports of the device since the dial, and
where the contents of the slot come from (`origin`), which a reconnect carries over with the call.

`hearsOwn_along_iff` gives the runs in which the wait ends by its own call.
-/

set_option autoImplicit false

namespace DialF.Daemon

open DialF.Lib

/-- How a turn of the loop of `wait_for_answer` ends. -/
inductive WaitVerdict where
  | waiting (seen : Bool)
  | answered
  | cancelled
  | endedUnanswered
  | notAnswered
  deriving DecidableEq

namespace PhoneJobIo

variable (io : PhoneJobIo)

/-- The call has not been answered. -/
def noAnswer (now : Nat) : PhoneJobIo :=
  { io with call := { io.call with ended := some now, endReason := some .noAnswer } }

/-- The end of a turn that decides nothing by the slot. -/
def waitDeadline (now deadline : Nat) (seen : Bool) : PhoneJobIo × WaitVerdict :=
  if deadline ≤ now then (io.noAnswer now, .notAnswered) else (io, .waiting seen)

/-- One turn of the loop of `wait_for_answer`. -/
def waitTurn (now deadline : Nat) (seen cancelled : Bool) (reg : Registry) :
    PhoneJobIo × WaitVerdict :=
  -- hung up explicitly, as the runner skips the job's own hangup once it is cancelled
  if cancelled then ((io.hangup now).1, .cancelled)
  else
    match reg.callState io.deviceId with
    | some .active =>
        ({ io with call := { io.call with answered := some (io.call.answered.getD now) } },
          .answered)
    | some _ => io.waitDeadline now deadline true
    | none => if seen then (io.noAnswer now, .endedUnanswered) else io.waitDeadline now deadline false

variable {io} {now deadline : Nat} {seen cancelled : Bool} {reg : Registry}

@[simp]
theorem waitTurn_deviceId :
    (io.waitTurn now deadline seen cancelled reg).1.deviceId = io.deviceId := by
  unfold waitTurn waitDeadline
  split
  · rfl
  · split
    · rfl
    · split <;> rfl
    · split
      · rfl
      · split <;> rfl

/-- A turn that is not cancelled succeeds by an active call in the slot. -/
theorem waitTurn_eq_answered :
    (io.waitTurn now deadline seen false reg).2 = .answered ↔
      reg.callState io.deviceId = some .active := by
  unfold waitTurn waitDeadline
  cases reg.callState io.deviceId with
  | none => cases seen <;> by_cases hnow : deadline ≤ now <;> simp [hnow]
  | some state => cases state <;> by_cases hnow : deadline ≤ now <;> simp [hnow]

/-- It takes an empty slot for the end of the call once it has seen one. -/
theorem waitTurn_eq_endedUnanswered :
    (io.waitTurn now deadline seen false reg).2 = .endedUnanswered ↔
      reg.callState io.deviceId = none ∧ seen = true := by
  unfold waitTurn waitDeadline
  cases reg.callState io.deviceId with
  | none => cases seen <;> by_cases hnow : deadline ≤ now <;> simp [hnow]
  | some state => cases state <;> by_cases hnow : deadline ≤ now <;> simp [hnow]

/-- It gives up at its deadline where the slot decides nothing. -/
theorem waitTurn_eq_notAnswered :
    (io.waitTurn now deadline seen false reg).2 = .notAnswered ↔
      deadline ≤ now ∧ reg.callState io.deviceId ≠ some .active ∧
        (reg.callState io.deviceId = none → seen = false) := by
  unfold waitTurn waitDeadline
  cases reg.callState io.deviceId with
  | none => cases seen <;> by_cases hnow : deadline ≤ now <;> simp [hnow]
  | some state => cases state <;> by_cases hnow : deadline ≤ now <;> simp [hnow]

theorem waitTurn_cancelled : (io.waitTurn now deadline seen true reg).2 = .cancelled := rfl

end PhoneJobIo

/-- Where the contents of the slot come from: they were there before the dial, a report put them
there, or the record was taken away or written without a call. -/
inductive SlotOrigin where
  | initial
  | report (report : CallReport)
  | blank
  deriving DecidableEq

/-- Whether the job waits. A finished wait keeps what its last turn found: the origin of the slot,
and whether its own call was up by the reports. -/
inductive WaitPhase where
  | idle
  | waiting (seen : Bool) (deadline : Nat)
  | finished (verdict : WaitVerdict) (origin : SlotOrigin) (ownUp : Bool)
  deriving DecidableEq

/-- A daemon and a job that dials; `carried` has the origin of what each handler has read. -/
structure AnswerWait where
  net : Reconnect
  own : Option String
  reports : List CallReport
  origin : SlotOrigin
  carried : List SlotOrigin
  wait : WaitPhase

/-- A step of the daemon, its phones and its reaper. -/
def ReconnectLabel.isDaemon : ReconnectLabel → Bool
  | .dial _ _ | .answer | .hangup _ | .callEnded _ => false
  | _ => true

/-- What can happen while a job waits for its call to be answered. -/
inductive WaitLabel where
  | daemon (a : ReconnectLabel)
  | dial (now : Nat) (number own : String)
  | wait (now timeoutMs : Nat)
  | poll (now : Nat) (cancel : Bool)

namespace AnswerWait

/-- A job that has not dialled, whatever the daemon and its registry are like. -/
def start (net : Reconnect) : AnswerWait :=
  ⟨net, none, [], .initial, net.handlers.map fun _ => .initial, .idle⟩

/-- The device of the job. -/
def device (s : AnswerWait) : String := s.net.job.deviceId

/-- The origin of the slot, and of what the handlers carry, after a step of the daemon. -/
def originAfter (s : AnswerWait) : ReconnectLabel → SlotOrigin × List SlotOrigin
  | .hello _ => (s.origin, s.carried ++ [.blank])
  | .advance i _ =>
      match s.net.handlers[i]? with
      | some h =>
          if h.hello.deviceId = s.device then
            match h.phase with
            -- read here, and written back by `registered`, whatever the slot holds by then
            | .judged relaunched _ =>
                (s.origin, s.carried.set i (if relaunched then .blank else s.origin))
            | .registered _ _ _ => (s.carried.getD i .blank, s.carried)
            | .removing => (.blank, s.carried)
            | _ => (s.origin, s.carried)
          else (s.origin, s.carried)
      | none => (s.origin, s.carried)
  | .callState i _ report =>
      match s.net.handlers[i]? with
      | some h =>
          if h.hello.deviceId = s.device ∧ (s.net.daemon.registry.get s.device).isSome then
            (.report report, s.carried)
          else (s.origin, s.carried)
      | none => (s.origin, s.carried)
  -- a device that reconnects later starts without a call
  | .reap nowMs =>
      if s.device ∈ s.net.daemon.registry.stale (nowMs - staleAfterMs) then (.blank, s.carried)
      else (s.origin, s.carried)
  | _ => (s.origin, s.carried)

/-- The reports of the device after a step of the daemon. -/
def reportsAfter (s : AnswerWait) : ReconnectLabel → List CallReport
  | .callState i _ report =>
      match s.net.handlers[i]? with
      | some h =>
          if h.hello.deviceId = s.device then s.reports ++ [report] else s.reports
      | none => s.reports
  | _ => s.reports

/-- By the last report about it, the call that the job dialled is active. -/
def ownUp (s : AnswerWait) : Bool :=
  match (s.reports.filter fun r => s.own = some r.callId).getLast? with
  | some r => decide (r.state = .active)
  | none => false

/-- One step. -/
def step (s : AnswerWait) : WaitLabel → Option AnswerWait
  | .daemon a =>
      if a.isDaemon then
        match s.net.next a with
        | some net =>
            some { s with
              net := net
              reports := s.reportsAfter a
              origin := (s.originAfter a).1
              carried := (s.originAfter a).2 }
        | none => none
      else none
  | .dial now number own =>
      match s.wait with
      | .waiting _ _ => none
      | _ =>
          some {
            net := { s.net with job := (s.net.job.dial now number).1 }
            own := some own
            -- what the slot and the handlers hold at the dial is from before it
            reports := []
            origin := .initial
            carried := s.carried.map fun _ => .initial
            wait := .idle }
  | .wait now timeoutMs =>
      match s.wait, s.own with
      | .waiting _ _, _ => none
      | _, none => none
      | _, some _ => some { s with wait := .waiting false (now + timeoutMs) }
  | .poll now cancel =>
      match s.wait with
      | .waiting seen deadline =>
          let turn := s.net.job.waitTurn now deadline seen (cancel || s.net.daemon.jobAbort)
            s.net.daemon.registry
          some { s with
            net := { s.net with job := turn.1 }
            wait :=
              match turn.2 with
              | .waiting seen => .waiting seen deadline
              | verdict => .finished verdict s.origin s.ownUp }
      | _ => none

/-- All runs of the wait, over any start of the daemon. -/
def machine : Machine AnswerWait WaitLabel where
  Init s := ∃ net, s = start net
  step := step

/-- **A wait ends by its own call.** It succeeds by a report, made since the dial, that the call
which the job dialled is active. It is not failed by the end of another call: neither because the
slot is empty after that, nor because it stays empty while the job's own call is up. -/
def HearsOwn (s : AnswerWait) : Prop :=
  match s.wait with
  | .finished .answered origin _ =>
      ∃ r ∈ s.reports, origin = .report r ∧ s.own = some r.callId ∧ r.state = .active
  | .finished .endedUnanswered origin _ => ∀ r, origin = .report r → s.own = some r.callId
  | .finished .notAnswered origin ownUp =>
      ∀ r, origin = .report r → r.state = .ended → s.own ≠ some r.callId → ownUp = false
  | _ => True

/-- What a turn must not find: a call that was active before the dial; a report that another call is
active; and the end of another call, where the job has seen a call or gives up on one that is up. -/
def FindsOwn (s : AnswerWait) : WaitLabel → Prop
  | .poll now cancel =>
      match s.wait with
      | .waiting seen deadline =>
          (cancel || s.net.daemon.jobAbort) = false →
            match s.origin with
            | .initial => s.net.daemon.registry.callState s.device ≠ some .active
            | .report r =>
                s.own ≠ some r.callId →
                  r.state ≠ .active ∧
                    (r.state = .ended → seen = false ∧ (deadline ≤ now → s.ownUp = false))
            | .blank => True
      | _ => True
  | _ => True

/-! ## Origins and contents -/

/-- What a slot of this origin holds. -/
def Holds (reports : List CallReport) (slot : Option CallInfo) : SlotOrigin → Prop
  | .initial => True
  | .report r => r ∈ reports ∧ slot = r.slot
  | .blank => slot = none

theorem Holds.mono {reports reports' : List CallReport} (hsub : ∀ r ∈ reports, r ∈ reports')
    {slot : Option CallInfo} {origin : SlotOrigin} (h : Holds reports slot origin) :
    Holds reports' slot origin := by
  cases origin with
  | initial => trivial
  | report r => exact ⟨hsub r h.1, h.2⟩
  | blank => exact h

end AnswerWait

/-- What the handler has read and will write to its record. -/
def HandlerPhase.carries : HandlerPhase → Option (Option CallInfo)
  | .looked _ prior => some prior
  | .registered _ prior _ => some prior
  | _ => none

namespace Handler

variable {h h' : Handler} {d d' : DaemonState} {nowMs : Int}

/-- What a handler's section leaves in the slot of its device. -/
theorem advance_currentCall_self (hadv : h.advance nowMs d = some (h', d')) :
    d'.registry.currentCall h.hello.deviceId =
      match h.phase with
      | .registered _ prior _ => prior
      | .removing => none
      | _ => d.registry.currentCall h.hello.deviceId := by
  rw [advance_registry hadv]
  cases hphase : h.phase with
  | registered aborting prior gen =>
      exact @Registry.currentCall_upsert d.registry (h.hello.record nowMs prior)
  | removing => exact Registry.currentCall_remove
  | _ => rfl

theorem advance_currentCall_of_ne (hadv : h.advance nowMs d = some (h', d')) {id : String}
    (hid : id ≠ h.hello.deviceId) :
    d'.registry.currentCall id = d.registry.currentCall id := by
  rw [advance_registry hadv]
  cases hphase : h.phase with
  | registered aborting prior gen =>
      exact @Registry.currentCall_upsert_of_ne d.registry id (h.hello.record nowMs prior) hid
  | removing => exact Registry.currentCall_remove_of_ne hid
  | _ => rfl

/-- A section that does not read the slot carries nothing new. -/
theorem advance_carries (hadv : h.advance nowMs d = some (h', d'))
    (hnot : ∀ relaunched aborting, h.phase ≠ .judged relaunched aborting)
    {prior : Option CallInfo} (hcarries : h'.phase.carries = some prior) :
    h.phase.carries = some prior := by
  cases advance_section hadv with
  | judged hello relaunched aborting => exact absurd rfl (hnot relaunched aborting)
  | looked hello aborting prior' => exact hcarries
  | _ => simp [HandlerPhase.carries] at hcarries

/-- The section that reads the slot carries what it holds, or nothing after a relaunch. -/
theorem advance_carries_judged {hello : Hello} {relaunched aborting : Bool}
    {prior : Option CallInfo} (hadv : advance ⟨hello, .judged relaunched aborting⟩ nowMs d =
      some (h', d')) (hcarries : h'.phase.carries = some prior) :
    prior = if relaunched then none else d.registry.currentCall hello.deviceId := by
  cases advance_section hadv
  exact (Option.some.inj hcarries).symm

end Handler

namespace AnswerWait

/-- The origins are those of what is in the slot and of what the handlers carry. -/
structure Inv (s : AnswerWait) : Prop where
  slot : Holds s.reports (s.net.daemon.registry.currentCall s.device) s.origin
  length : s.carried.length = s.net.handlers.length
  carried : ∀ (i : Nat) (h : Handler) (prior : Option CallInfo), s.net.handlers[i]? = some h →
    h.hello.deviceId = s.device → h.phase.carries = some prior →
      ∃ origin, s.carried[i]? = some origin ∧ Holds s.reports prior origin

theorem inv_start (net : Reconnect) : Inv (start net) where
  slot := trivial
  length := by simp [start]
  carried := by
    intro i h prior hi _ _
    refine ⟨.initial, ?_, trivial⟩
    change (net.handlers.map _)[i]? = _
    rw [List.getElem?_map, show net.handlers[i]? = some h from hi]
    rfl

section Step

variable {s t : AnswerWait} {net : Reconnect}

/-- A step of the daemon that leaves the slot and writes no origin. -/
theorem Inv.of_same (hs : Inv s) (hdevice : t.device = s.device)
    (hslot : t.net.daemon.registry.currentCall s.device =
      s.net.daemon.registry.currentCall s.device)
    (hhandlers : t.net.handlers = s.net.handlers) (hreports : t.reports = s.reports)
    (horigin : t.origin = s.origin) (hcarried : t.carried = s.carried) : Inv t where
  slot := by
    rw [hdevice, hslot, hreports, horigin]
    exact hs.slot
  length := by
    rw [hcarried, hhandlers]
    exact hs.length
  carried := by
    rw [hdevice, hhandlers, hreports, hcarried]
    exact hs.carried

/-- What the handlers carry when one of them reads the slot. -/
theorem Inv.carried_set (hs : Inv s) {i : Nat} {h h' : Handler} {origin : SlotOrigin}
    (hi : s.net.handlers[i]? = some h) (hhello : h'.hello = h.hello)
    (hnew : ∀ prior, h.hello.deviceId = s.device → h'.phase.carries = some prior →
      Holds s.reports prior origin) :
    ∀ (j : Nat) (x : Handler) (prior : Option CallInfo), (s.net.handlers.set i h')[j]? = some x →
      x.hello.deviceId = s.device → x.phase.carries = some prior →
        ∃ origin', (s.carried.set i origin)[j]? = some origin' ∧
          Holds s.reports prior origin' := by
  intro j x prior hj hdev hcarries
  have hlt : i < s.net.handlers.length := (List.getElem?_eq_some_iff.1 hi).1
  rcases getElem?_set_cases hj with ⟨rfl, rfl⟩ | ⟨hne, hold⟩
  · rw [hhello] at hdev
    exact ⟨origin, List.getElem?_set_self (hs.length ▸ hlt), hnew prior hdev hcarries⟩
  · rw [List.getElem?_set_ne (Ne.symm hne)]
    exact hs.carried j x prior hold hdev hcarries

/-- What the handlers carry when one of them goes on with what it has read, or without. -/
theorem Inv.carried_keep (hs : Inv s) {i : Nat} {h h' : Handler}
    (hi : s.net.handlers[i]? = some h) (hhello : h'.hello = h.hello)
    (hkeep : ∀ prior, h.hello.deviceId = s.device → h'.phase.carries = some prior →
      h.phase.carries = some prior) :
    ∀ (j : Nat) (x : Handler) (prior : Option CallInfo), (s.net.handlers.set i h')[j]? = some x →
      x.hello.deviceId = s.device → x.phase.carries = some prior →
        ∃ origin, s.carried[j]? = some origin ∧ Holds s.reports prior origin := by
  intro j x prior hj hdev hcarries
  rcases getElem?_set_cases hj with ⟨rfl, rfl⟩ | ⟨-, hold⟩
  · rw [hhello] at hdev
    exact hs.carried j h prior hi hdev (hkeep prior hdev hcarries)
  · exact hs.carried j x prior hold hdev hcarries

/-- The state after a step of the daemon. -/
def after (s : AnswerWait) (a : ReconnectLabel) (net : Reconnect) : AnswerWait :=
  { s with
    net := net
    reports := s.reportsAfter a
    origin := (s.originAfter a).1
    carried := (s.originAfter a).2 }

/-- The invariant after a handler's section, from what the section leaves. -/
theorem Inv.of_advance {i : Nat} {nowMs : Int} {h' : Handler} {daemon : DaemonState}
    {origin : SlotOrigin} {carried : List SlotOrigin}
    (hafter : s.originAfter (.advance i nowMs) = (origin, carried))
    (hslot : Holds s.reports (daemon.registry.currentCall s.device) origin)
    (hlength : carried.length = s.net.handlers.length)
    (hcarried : ∀ (j : Nat) (x : Handler) (prior : Option CallInfo),
      (s.net.handlers.set i h')[j]? = some x → x.hello.deviceId = s.device →
        x.phase.carries = some prior →
          ∃ origin, carried[j]? = some origin ∧ Holds s.reports prior origin) :
    Inv (s.after (.advance i nowMs)
      { s.net with daemon := daemon, handlers := s.net.handlers.set i h' }) where
  slot := by
    show Holds s.reports (daemon.registry.currentCall s.device) (s.originAfter _).1
    rw [hafter]
    exact hslot
  length := by
    show (s.originAfter _).2.length = (s.net.handlers.set i h').length
    rw [hafter, List.length_set]
    exact hlength
  carried := by
    intro j x prior hj hself hcarries
    show ∃ origin, (s.originAfter _).2[j]? = some origin ∧ Holds s.reports prior origin
    rw [hafter]
    exact hcarried j x prior hj hself hcarries

/-- A handler's section keeps the origins right. -/
theorem Inv.advance (hs : Inv s) {i : Nat} {nowMs : Int}
    (h : s.net.next (.advance i nowMs) = some net) : Inv (s.after (.advance i nowMs) net) := by
  obtain ⟨handler, handler', daemon, hi, hadv, rfl⟩ := Reconnect.next_advance_eq_some h
  have hhello := Handler.advance_hello hadv
  by_cases hdev : handler.hello.deviceId = s.device
  · have hslot := Handler.advance_currentCall_self hadv
    rw [hdev] at hslot
    have hafter : s.originAfter (.advance i nowMs) =
        match handler.phase with
        | .judged relaunched _ =>
            (s.origin, s.carried.set i (if relaunched then .blank else s.origin))
        | .registered _ _ _ => (s.carried.getD i .blank, s.carried)
        | .removing => (.blank, s.carried)
        | _ => (s.origin, s.carried) := by
      simp only [originAfter, hi, if_pos hdev]
    obtain ⟨hello, phase⟩ := handler
    cases phase with
    | judged relaunched aborting =>
        refine .of_advance hafter ?_ ?_ ?_
        · rw [hslot]
          exact hs.slot
        · rw [List.length_set]
          exact hs.length
        · refine hs.carried_set hi hhello fun prior _ hcarries => ?_
          obtain rfl := Handler.advance_carries_judged hadv hcarries
          cases relaunched with
          | true => rfl
          -- the carried call is the slot's, of the slot's origin
          | false =>
              rw [hdev]
              exact hs.slot
    | registered aborting prior gen =>
        obtain ⟨origin, horigin, hholds⟩ := hs.carried i _ prior hi hdev rfl
        refine .of_advance hafter ?_ hs.length (hs.carried_keep hi hhello ?_)
        -- what was carried goes back into the slot, with its origin
        · rw [hslot, List.getD_eq_getElem?_getD, horigin]
          exact hholds
        · intro prior' _
          exact Handler.advance_carries hadv (by simp)
    | removing =>
        refine .of_advance hafter hslot hs.length (hs.carried_keep hi hhello ?_)
        intro prior' _
        exact Handler.advance_carries hadv (by simp)
    -- the other sections leave the slot as it is
    | _ =>
        refine .of_advance hafter ?_ hs.length (hs.carried_keep hi hhello ?_)
        · rw [hslot]
          exact hs.slot
        · intro prior' _
          exact Handler.advance_carries hadv (by simp)
  · have hafter : s.originAfter (.advance i nowMs) = (s.origin, s.carried) := by
      simp only [originAfter, hi, if_neg hdev]
    refine .of_advance hafter ?_ hs.length (hs.carried_keep hi hhello ?_)
    · rw [Handler.advance_currentCall_of_ne hadv (Ne.symm hdev)]
      exact hs.slot
    · intro prior hself
      exact absurd hself hdev

/-- A frame about a call keeps the origins right. -/
theorem Inv.callState (hs : Inv s) {i : Nat} {nowMs : Int} {report : CallReport}
    (h : s.net.next (.callState i nowMs report) = some net) :
    Inv (s.after (.callState i nowMs report) net) := by
  simp only [Reconnect.next] at h
  obtain ⟨handler, hi, -, rfl⟩ := Reconnect.read_eq_some h
  have hafter : s.originAfter (.callState i nowMs report) =
      if handler.hello.deviceId = s.device ∧ (s.net.daemon.registry.get s.device).isSome then
        (.report report, s.carried)
      else (s.origin, s.carried) := by
    simp only [originAfter, hi]
  have hreports : s.reportsAfter (.callState i nowMs report) =
      if handler.hello.deviceId = s.device then s.reports ++ [report] else s.reports := by
    simp only [reportsAfter, hi]
  have hsub : ∀ r ∈ s.reports, r ∈ s.reportsAfter (.callState i nowMs report) := by
    intro r hr
    rw [hreports]
    split
    · exact List.mem_append_left _ hr
    · exact hr
  constructor
  · show Holds (s.reportsAfter (.callState i nowMs report))
      ((s.net.daemon.registry.onCallState handler.hello.deviceId nowMs report).currentCall s.device)
      (s.originAfter (.callState i nowMs report)).1
    rw [hafter]
    by_cases hdev : handler.hello.deviceId = s.device
    · rw [hdev]
      by_cases hrecord : s.net.daemon.registry.get s.device = none
      · -- without a record the frame is lost, and the slot stays empty
        rw [if_neg (by simp [hrecord])]
        have hnone : (s.net.daemon.registry.onCallState s.device nowMs report).currentCall s.device =
            s.net.daemon.registry.currentCall s.device := by
          simp [Registry.currentCall, hrecord, Registry.get_onCallState_eq_none.2 hrecord]
        rw [hnone]
        exact hs.slot.mono hsub
      · rw [if_pos ⟨rfl, Option.isSome_iff_ne_none.2 hrecord⟩,
          Registry.currentCall_onCallState hrecord]
        refine ⟨?_, rfl⟩
        rw [hreports, if_pos hdev]
        exact List.mem_append_right _ (List.mem_singleton.2 rfl)
    · rw [if_neg fun hself => hdev hself.1,
        Registry.currentCall_onCallState_of_ne (Ne.symm hdev)]
      exact hs.slot.mono hsub
  · show (s.originAfter _).2.length = _
    rw [hafter]
    split <;> exact hs.length
  · intro j x prior hj hself hcarries
    obtain ⟨origin, horigin, hholds⟩ := hs.carried j x prior hj hself hcarries
    refine ⟨origin, ?_, hholds.mono hsub⟩
    show (s.originAfter _).2[j]? = _
    rw [hafter]
    split <;> exact horigin

/-- The reaper keeps the origins right. -/
theorem Inv.reap (hs : Inv s) {nowMs : Int} (h : s.net.next (.reap nowMs) = some net) :
    Inv (s.after (.reap nowMs) net) := by
  simp only [Reconnect.next] at h
  split at h
  · obtain rfl := Option.some.inj h
    have hslot : Holds s.reports ((s.net.daemon.registry.reapOlderThan
        (nowMs - staleAfterMs)).1.currentCall s.device) (s.originAfter (.reap nowMs)).1 := by
      simp only [originAfter]
      by_cases hstale : s.device ∈ s.net.daemon.registry.stale (nowMs - staleAfterMs)
      -- the record is gone, and the call with it
      · obtain ⟨dev, hdev, hold⟩ := Registry.mem_stale.1 hstale
        rw [if_pos hstale, Registry.currentCall, Registry.get_reapOlderThan_of_stale hdev hold]
        rfl
      · rw [if_neg hstale]
        have hsame : (s.net.daemon.registry.reapOlderThan (nowMs - staleAfterMs)).1.get s.device =
            s.net.daemon.registry.get s.device := by
          cases hdev : s.net.daemon.registry.get s.device with
          | none => exact Registry.get_reapOlderThan_of_none hdev
          | some dev =>
              refine Registry.get_reapOlderThan_of_seen hdev fun hold => hstale ?_
              exact Registry.mem_stale.2 ⟨dev, hdev, hold⟩
        rw [Registry.currentCall, hsame]
        exact hs.slot
    have hcarried : (s.originAfter (.reap nowMs)).2 = s.carried := by
      simp only [originAfter]
      split <;> rfl
    constructor
    · exact hslot
    · show (s.originAfter _).2.length = _
      rw [hcarried]
      exact hs.length
    · intro j x prior hj hself hcarries
      show ∃ origin, (s.originAfter _).2[j]? = some origin ∧ Holds s.reports prior origin
      rw [hcarried]
      exact hs.carried j x prior hj hself hcarries
  · simp at h

/-- **The daemon's steps keep the origins right.** -/
theorem Inv.daemon (hs : Inv s) {a : ReconnectLabel} (hdaemon : a.isDaemon = true)
    (h : s.net.next a = some net) : Inv (s.after a net) := by
  cases a with
  | hello hello =>
      obtain rfl := Option.some.inj h
      constructor
      · exact hs.slot
      · show (s.carried ++ [_]).length = (s.net.handlers ++ [_]).length
        rw [List.length_append, List.length_append, hs.length]
        rfl
      · intro j x prior hj hself hcarries
        show ∃ origin, (s.carried ++ [_])[j]? = some origin ∧ Holds s.reports prior origin
        rcases getElem?_concat_cases hj with hold | ⟨-, rfl⟩
        · obtain ⟨origin, horigin, hholds⟩ := hs.carried j x prior hold hself hcarries
          exact ⟨origin, getElem?_concat_of_some horigin, hholds⟩
        · simp [HandlerPhase.carries] at hcarries
  | advance i nowMs => exact hs.advance h
  | callState i nowMs report => exact hs.callState h
  | reap nowMs => exact hs.reap h
  | heartbeat i nowMs =>
      simp only [Reconnect.next] at h
      obtain ⟨handler, -, -, rfl⟩ := Reconnect.read_eq_some h
      exact hs.of_same rfl (Registry.currentCall_onHeartbeat nowMs) rfl rfl rfl rfl
  | stop i =>
      obtain ⟨hello, gen, hi, rfl⟩ := Reconnect.next_stop_eq_some h
      constructor
      · exact hs.slot
      · exact hs.length.trans List.length_set.symm
      · refine hs.carried_keep hi rfl fun prior _ hcarries => ?_
        simp [HandlerPhase.carries] at hcarries
  | dropReaped =>
      simp only [Reconnect.next] at h
      split at h
      · obtain rfl := Option.some.inj h
        exact hs.of_same rfl rfl rfl rfl rfl rfl
      · simp at h
  | setBusy busy =>
      obtain rfl := Option.some.inj h
      exact hs.of_same rfl rfl rfl rfl rfl rfl
  | dial now number | answer | hangup now | callEnded now => simp [ReconnectLabel.isDaemon] at hdaemon

theorem inv_step {a : WaitLabel} (hs : Inv s) (h : step s a = some t) : Inv t := by
  cases a with
  | daemon a =>
      simp only [step] at h
      split at h
      · rename_i hdaemon
        split at h
        · rename_i net hnext
          obtain rfl := Option.some.inj h
          exact hs.daemon hdaemon hnext
        · simp at h
      · simp at h
  | dial now number own =>
      simp only [step] at h
      split at h
      · simp at h
      · obtain rfl := Option.some.inj h
        constructor
        · trivial
        · exact (List.length_map _).trans hs.length
        · intro j x prior hj hself hcarries
          have hlt : j < s.carried.length :=
            hs.length.symm ▸ (List.getElem?_eq_some_iff.1 hj).1
          refine ⟨.initial, ?_, trivial⟩
          show (s.carried.map _)[j]? = _
          rw [List.getElem?_map, List.getElem?_eq_getElem hlt]
          rfl
  | wait now timeoutMs =>
      simp only [step] at h
      split at h
      · simp at h
      · simp at h
      · obtain rfl := Option.some.inj h
        exact hs.of_same rfl rfl rfl rfl rfl rfl
  | poll now cancel =>
      simp only [step] at h
      split at h
      · obtain rfl := Option.some.inj h
        exact hs.of_same PhoneJobIo.waitTurn_deviceId rfl rfl rfl rfl rfl
      · simp at h

/-- Reports only come in addition. -/
theorem HearsOwn.daemon (hown : HearsOwn s) (a : ReconnectLabel) (net : Reconnect) :
    HearsOwn (s.after a net) := by
  have hsub : ∀ r ∈ s.reports, r ∈ s.reportsAfter a := by
    intro r hr
    unfold reportsAfter
    split
    · split
      · split
        · exact List.mem_append_left _ hr
        · exact hr
      · exact hr
    · exact hr
  have hwait : (s.after a net).wait = s.wait := rfl
  unfold HearsOwn at hown ⊢
  rw [hwait]
  split at hown
  · obtain ⟨r, hr, hrest⟩ := hown
    exact ⟨r, hsub r hr, hrest⟩
  · exact hown
  · exact hown
  · trivial

theorem callState_of_report {r : CallReport} (hs : Inv s) (horigin : s.origin = .report r) :
    s.net.daemon.registry.callState s.device =
      if r.state = .ended then none else some r.state := by
  have hslot := hs.slot
  rw [horigin] at hslot
  rw [Registry.callState, hslot.2, CallReport.slot]
  split <;> rfl

theorem callState_of_blank (hs : Inv s) (horigin : s.origin = .blank) :
    s.net.daemon.registry.callState s.device = none := by
  have hslot := hs.slot
  rw [horigin] at hslot
  exact Registry.callState_eq_none.2 hslot

/-- What `HearsOwn` says of a wait that ends now. -/
def Judges (s : AnswerWait) : WaitVerdict → Prop
  | .answered => ∃ r ∈ s.reports, s.origin = .report r ∧ s.own = some r.callId ∧ r.state = .active
  | .endedUnanswered => ∀ r, s.origin = .report r → s.own = some r.callId
  | .notAnswered =>
      ∀ r, s.origin = .report r → r.state = .ended → s.own ≠ some r.callId → s.ownUp = false
  | _ => True

theorem hearsOwn_turn {deadline : Nat} (verdict : WaitVerdict) :
    HearsOwn { s with
        net := net
        wait :=
          match verdict with
          | .waiting seen => .waiting seen deadline
          | verdict => .finished verdict s.origin s.ownUp } ↔ Judges s verdict := by
  cases verdict <;> exact Iff.rfl

/-- Where no report is the origin of the slot, only an active call is wrong. -/
theorem judges_of_no_report {verdict : WaitVerdict} (hno : ∀ r, s.origin ≠ .report r) :
    Judges s verdict ↔ verdict ≠ .answered := by
  cases verdict with
  | answered =>
      refine iff_of_false ?_ fun h => h rfl
      rintro ⟨r, -, horigin, -⟩
      exact hno r horigin
  | endedUnanswered => exact iff_of_true (fun r horigin => absurd horigin (hno r)) (by simp)
  | notAnswered => exact iff_of_true (fun r horigin => absurd horigin (hno r)) (by simp)
  | waiting seen | cancelled => exact iff_of_true trivial (by simp)

/-- A report of another call is wrong for every verdict that is taken by it. -/
theorem judges_of_other {r : CallReport} {verdict : WaitVerdict} (horigin : s.origin = .report r)
    (hother : s.own ≠ some r.callId) :
    Judges s verdict ↔
      verdict ≠ .answered ∧ verdict ≠ .endedUnanswered ∧
        (verdict = .notAnswered → r.state = .ended → s.ownUp = false) := by
  cases verdict with
  | answered =>
      refine iff_of_false ?_ fun h => h.1 rfl
      rintro ⟨r', -, heq, hself, -⟩
      rw [horigin] at heq
      cases heq
      exact hother hself
  | endedUnanswered => exact iff_of_false (fun h => hother (h r horigin)) fun h => h.2.1 rfl
  | notAnswered =>
      constructor
      · intro h
        exact ⟨by simp, by simp, fun _ hended => h r horigin hended hother⟩
      · rintro ⟨-, -, h⟩ r' heq hended -
        rw [horigin] at heq
        cases heq
        exact h rfl hended
  | waiting seen | cancelled => exact iff_of_true trivial (by simp)

/-- The job's own report is right for every verdict. -/
theorem judges_of_own {r : CallReport} {verdict : WaitVerdict} (hmem : r ∈ s.reports)
    (horigin : s.origin = .report r) (hown : s.own = some r.callId)
    (hactive : verdict = .answered → r.state = .active) : Judges s verdict := by
  cases verdict with
  | answered => exact ⟨r, hmem, horigin, hown, hactive rfl⟩
  | endedUnanswered =>
      intro r' heq
      rw [horigin] at heq
      cases heq
      exact hown
  | notAnswered =>
      intro r' heq _ hother
      rw [horigin] at heq
      cases heq
      exact absurd hown hother
  | waiting seen | cancelled => trivial

/-- **A turn keeps the wait to its own call exactly when it finds that.** -/
theorem hearsOwn_poll {now : Nat} {cancel : Bool} (hs : Inv s)
    (h : step s (.poll now cancel) = some t) : HearsOwn t ↔ FindsOwn s (.poll now cancel) := by
  simp only [step] at h
  split at h
  · rename_i seen deadline hwait
    obtain rfl := Option.some.inj h
    rw [hearsOwn_turn]
    simp only [FindsOwn, hwait]
    cases hcancel : cancel || s.net.daemon.jobAbort with
    | true =>
        rw [PhoneJobIo.waitTurn_cancelled]
        exact iff_of_true trivial fun hfalse => absurd hfalse (by simp)
    | false =>
        -- where no report put it there, only an active call decides wrongly
        cases horigin : s.origin with
        | initial =>
            rw [judges_of_no_report (by simp [horigin]), ne_eq, PhoneJobIo.waitTurn_eq_answered]
            exact ⟨fun hnot _ => hnot, fun hnot => hnot rfl⟩
        | blank =>
            rw [judges_of_no_report (by simp [horigin]), ne_eq, PhoneJobIo.waitTurn_eq_answered]
            refine iff_of_true ?_ fun _ => trivial
            have hnone : s.net.daemon.registry.callState s.net.job.deviceId = none :=
              callState_of_blank hs horigin
            simp [hnone]
        | report r =>
            have hstate : s.net.daemon.registry.callState s.net.job.deviceId =
                if r.state = .ended then none else some r.state := callState_of_report hs horigin
            by_cases hown : s.own = some r.callId
            · have hmem : r ∈ s.reports := by
                have hslot := hs.slot
                rw [horigin] at hslot
                exact hslot.1
              refine iff_of_true ?_ fun _ hother => absurd hown hother
              refine judges_of_own hmem horigin hown fun hanswered => ?_
              rw [PhoneJobIo.waitTurn_eq_answered, hstate] at hanswered
              split at hanswered
              · simp at hanswered
              · exact Option.some.inj hanswered
            · rw [judges_of_other horigin hown, ne_eq, ne_eq, PhoneJobIo.waitTurn_eq_answered,
                PhoneJobIo.waitTurn_eq_endedUnanswered, PhoneJobIo.waitTurn_eq_notAnswered, hstate]
              cases hr : r.state with
              | active | dialing | ringing => simp [hown, hr]
              | ended => cases seen <;> simp [hown, hr]
  · simp at h

/-- **A step keeps the wait to its own call exactly when a turn finds that.** -/
theorem hearsOwn_step {a : WaitLabel} (hs : Inv s) (hown : HearsOwn s) (h : step s a = some t) :
    HearsOwn t ↔ FindsOwn s a := by
  cases a with
  | daemon a =>
      refine iff_of_true ?_ trivial
      simp only [step] at h
      split at h
      · split at h
        · rename_i net hnext
          obtain rfl := Option.some.inj h
          exact hown.daemon a net
        · simp at h
      · simp at h
  | dial now number own =>
      refine iff_of_true ?_ trivial
      simp only [step] at h
      split at h
      · simp at h
      · obtain rfl := Option.some.inj h
        trivial
  | wait now timeoutMs =>
      refine iff_of_true ?_ trivial
      simp only [step] at h
      split at h
      · simp at h
      · simp at h
      · obtain rfl := Option.some.inj h
        trivial
  | poll now cancel => exact hearsOwn_poll hs h

end Step

/-- **When a wait ends by its own call.** From any daemon, registry and connections: in a run every
wait ends by the call that the job dialled exactly when every turn of its loop that is not cancelled
finds that call's report in the slot, or one that decides nothing. -/
theorem hearsOwn_along_iff (net : Reconnect) (run : List WaitLabel) :
    machine.Along HearsOwn (start net) run ↔ machine.Meets FindsOwn (start net) run := by
  apply Machine.along_iff_meets (I := Inv)
  · intro s a t hs h
    exact inv_step hs h
  · intro s a t hs hown h
    exact hearsOwn_step hs hown h
  · exact inv_start net
  · trivial

/-- A call of the user's is up when the job dials. -/
def otherCall : List WaitLabel :=
  [.daemon (.hello ⟨"dev", "phone", "i1", "10.0.0.2"⟩)] ++
    List.replicate 6 (.daemon (.advance 0 0)) ++
    [.daemon (.callState 0 0 ⟨"b", .active, some "200", .outgoing⟩), .dial 1 "100" "a",
      .wait 2 60000, .poll 3 false]

theorem otherCall_wait : ((machine.run (start (.start "dev" false 0)) otherCall).map
    fun s => (s.wait, s.reports)) = some (.finished .answered .initial false, []) := rfl

theorem exists_not_hearsOwn : ∃ s, machine.Reach s ∧ ¬ HearsOwn s := by
  obtain ⟨s, hrun, hwait⟩ := Option.map_eq_some_iff.1 otherCall_wait
  refine ⟨s, Machine.reach_of_run (.init ⟨_, rfl⟩) hrun, ?_⟩
  have hfinished : s.wait = .finished .answered .initial false := congrArg Prod.fst hwait
  unfold HearsOwn
  rw [hfinished]
  rintro ⟨r, -, horigin, -⟩
  cases horigin

end AnswerWait

end DialF.Daemon
