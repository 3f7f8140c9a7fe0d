import DialF.Daemon.WaitAnswer

/-!
# The summary of a job's call

`call_summary` reads what the operations of a job have noted of its call, one by one and in the
order in which the job lists them. The machine adds to the registry and the job the history of the
job's call: whether it has had one at all, when it dialled, when the call was first reported active,
and who ended it. A `Faithful` summary says that and nothing else.

`dial` notes a call before it asks for one, `answer` notes nothing, and polls look at the slot of
the device, not at the call. `Clean` are the steps that nothing goes wrong by; `clean_iff` says so
in terms of the notes, and `summaries_faithful_of_clean` in terms of the summaries that a run
takes.
-/

set_option autoImplicit false

namespace DialF.Daemon

open DialF.Lib

/-- `as_millis`, of nanoseconds. -/
def millis (duration : Nat) : Nat := duration / 1000000

/-- Call disposition reported alongside the step outcomes. -/
structure CallSummary where
  answerLatencyMs : Option Nat
  durationMs : Option Nat
  endReason : CallEnd
  remoteNumber : Option String
  sim : Option String
  deriving DecidableEq

/-- `call_summary`. -/
def PhoneJobIo.callSummary (io : PhoneJobIo) (now : Nat) : Option CallSummary :=
  io.call.began.map fun began =>
    { -- inbound calls were already up
      answerLatencyMs :=
        if io.inbound then none else io.call.answered.map fun a => millis (a - began)
      durationMs := io.call.answered.map fun a => millis (io.call.ended.getD now - a)
      endReason := io.call.endReason.getD .completed
      remoteNumber := io.call.remoteNumber
      sim := io.call.sim }

/-- Who ended a call. -/
inductive CallEnder where
  | farEnd
  | job
  deriving DecidableEq

/-- What has become of the calls of a job; the times are those of the last one. A call that a job
starts on counts as active from the start. -/
structure CallHistory where
  had : Bool
  own : Option String
  dialled : Option Nat
  active : Option Nat
  ender : Option CallEnder
  deriving DecidableEq

/-- The registry, a job, and the history of its calls. -/
structure JobCall where
  registry : Registry
  job : PhoneJobIo
  history : CallHistory

/-- A frame about a call, any other change to the registry, or an operation of the job. `own` is the
call that a command has placed or answered, none where the command comes to nothing. -/
inductive JobCallLabel where
  | frame (device : String) (nowMs : Int) (now : Nat) (report : CallReport)
  | registry (reg : Registry)
  | dial (now : Nat) (number : String) (own : Option String)
  | answer (own : Option String)
  | waitTurn (now deadline : Nat) (seen cancelled : Bool)
  | hangup (now : Nat)
  | callEnded (now : Nat)
  | callSummary (now : Nat)

/-- A report about the job's own call. -/
def CallHistory.report (h : CallHistory) (now : Nat) (state : CallState) : CallHistory :=
  match state with
  | .active => { h with active := h.active.or (some now) }
  | .ended => { h with ender := h.ender.or (some .farEnd) }
  | _ => h

/-- The job dials. -/
def CallHistory.dial (h : CallHistory) (now : Nat) (own : Option String) : CallHistory :=
  match own with
  | some own => ⟨true, some own, some now, none, none⟩
  | none => h

/-- The job answers a call. -/
def CallHistory.answer (h : CallHistory) (own : Option String) : CallHistory :=
  match own with
  | some own => ⟨true, some own, none, none, none⟩
  | none => h

/-- The job hangs up; its attempt is the end of the call for it. -/
def CallHistory.hangup (h : CallHistory) : CallHistory :=
  { h with ender := h.ender.or (some .job) }

/-- A report takes nothing back. -/
theorem CallHistory.report_kept (h : CallHistory) (now : Nat) (state : CallState) :
    (h.report now state).had = h.had ∧ (h.report now state).dialled = h.dialled ∧
      (h.ender = some .farEnd → (h.report now state).ender = some .farEnd) ∧
        ∀ a, h.active = some a → (h.report now state).active = some a := by
  cases state with
  | active => exact ⟨rfl, rfl, id, fun a ha => by simp [report, ha]⟩
  | ended => exact ⟨rfl, rfl, fun hend => by simp [report, hend], fun a => id⟩
  | _ => exact ⟨rfl, rfl, id, fun a => id⟩

theorem CallHistory.ender_hangup (h : CallHistory) :
    h.hangup.ender = some .farEnd ↔ h.ender = some .farEnd := by
  rw [hangup]
  cases h.ender <;> simp

namespace JobCall

/-- A job that starts on a device, an inbound one with the call that has been answered for it. -/
def start (registry : Registry) (device : String) (call : Option String) (now : Nat) : JobCall where
  registry := registry
  job := .new device call.isSome now
  history := ⟨call.isSome, call, none, if call.isSome then some now else none, none⟩

/-- What one step does, to the job and to the history of its call. -/
def step (s : JobCall) : JobCallLabel → Option JobCall
  | .frame device nowMs now report =>
      some { s with
        registry := s.registry.onCallState device nowMs report
        history :=
          if device = s.job.deviceId ∧ s.history.own = some report.callId then
            s.history.report now report.state
          else s.history }
  | .registry reg => some { s with registry := reg }
  | .dial now number own =>
      some { s with job := (s.job.dial now number).1, history := s.history.dial now own }
  | .answer own => some { s with job := s.job.answer.1, history := s.history.answer own }
  | .waitTurn now deadline seen cancelled =>
      some { s with
        job := (s.job.waitTurn now deadline seen cancelled s.registry).1
        history := if cancelled then s.history.hangup else s.history }
  | .hangup now => some { s with job := (s.job.hangup now).1, history := s.history.hangup }
  | .callEnded now => some { s with job := (s.job.callEnded now s.registry).1 }
  | .callSummary _ => some s

/-- All runs of a job's calls, from any registry. -/
def machine : Machine JobCall JobCallLabel where
  Init s := ∃ registry device call now, s = start registry device call now
  step := step

/-- **A faithful summary.** There is one where the job has had a call; that the far end hung up it
says only where the far end ended the call before the job did; its answer latency is the time from
the dial to the first report that the call was active, and its duration the time from then on. -/
structure Faithful (s : JobCall) (now : Nat) : Prop where
  none_iff : s.job.callSummary now = none ↔ s.history.had = false
  farEnd : ∀ c, s.job.callSummary now = some c → c.endReason = .farEndHangup →
    s.history.ender = some .farEnd
  latency : ∀ c, s.job.callSummary now = some c →
    c.answerLatencyMs =
      s.history.dialled.bind fun d => s.history.active.map fun a => millis (a - d)
  duration : ∀ c, s.job.callSummary now = some c →
    c.durationMs = s.history.active.map fun a => millis (s.job.call.ended.getD now - a)

/-- A summary that is taken is faithful. -/
def TakesFaithful (s : JobCall) : JobCallLabel → Prop
  | .callSummary now => s.Faithful now
  | _ => True

/-- A poll that notes the answer of the job's call does so as the call is first reported active, and
no job dials that an answered call has started. -/
def SightsOwn (s : JobCall) (now : Nat) : Prop :=
  s.job.call.began ≠ none → s.registry.callState s.job.deviceId = some .active →
    s.job.call.answered = none →
      s.history.active = some now ∧ (s.job.inbound = true ↔ s.history.dialled = none)

/-- A step that goes wrong in nothing: a dial places a call, unless the job has had one that it did
not dial; a call is answered only where the job has noted nothing but a beginning; a poll that notes
an answer does so as the call is first reported active; one that notes the end of a call comes
behind the far end's; and a summary is taken of an active call only where its answer is noted. -/
def Clean (s : JobCall) : JobCallLabel → Prop
  | .dial now _ own =>
      own = none → s.history.had = true ∧ ∀ d, s.history.dialled = some d → d = now
  | .answer own =>
      own ≠ none → s.job.call.began ≠ none ∧ s.job.call.answered = none ∧
        s.job.call.endReason ≠ some .farEndHangup
  | .waitTurn now _ _ cancelled => cancelled = false → s.SightsOwn now
  | .callEnded now =>
      s.SightsOwn now ∧
        (s.job.call.began ≠ none → (s.job.callEnded now s.registry).2 = true →
          s.job.call.ended = none → s.history.ender = some .farEnd)
  | .callSummary _ =>
      s.job.call.began ≠ none → s.history.active ≠ none → s.job.call.answered ≠ none
  | _ => True

/-- The notes of a job are those of its history. -/
structure Tracked (s : JobCall) : Prop where
  began : s.job.call.began = none ↔ s.history.had = false
  dialled : ∀ d, s.history.dialled = some d → s.job.call.began = some d
  farEnd : s.job.call.began ≠ none → s.job.call.endReason = some .farEndHangup →
    s.history.ender = some .farEnd
  answered : s.job.call.began ≠ none → ∀ a, s.job.call.answered = some a →
    s.history.active = some a ∧ (s.job.inbound = true ↔ s.history.dialled = none)

variable {s t : JobCall}

/-- **What is tracked is summarized faithfully** exactly where the answer of an active call is
noted. -/
theorem faithful_iff {now : Nat} (h : Tracked s) :
    Faithful s now ↔
      (s.job.call.began ≠ none → s.history.active ≠ none → s.job.call.answered ≠ none) := by
  have hsummary : ∀ c, s.job.callSummary now = some c → ∃ began, s.job.call.began = some began ∧
      c.answerLatencyMs =
        (if s.job.inbound then none else s.job.call.answered.map fun a => millis (a - began)) ∧
      c.durationMs = (s.job.call.answered.map fun a => millis (s.job.call.ended.getD now - a)) ∧
      c.endReason = s.job.call.endReason.getD .completed := by
    intro c hc
    obtain ⟨began, hbegan, rfl⟩ := Option.map_eq_some_iff.1 hc
    exact ⟨began, hbegan, rfl, rfl, rfl⟩
  constructor
  · intro hfaithful hbegan hactive hanswered
    obtain ⟨began, hb⟩ := Option.ne_none_iff_exists'.1 hbegan
    have hduration := hfaithful.duration _ (congrArg (Option.map _) hb)
    rw [hanswered, Option.map_none] at hduration
    exact hactive (Option.map_eq_none_iff.1 hduration.symm)
  intro hnoted
  have hactive : s.job.call.began ≠ none → s.history.active = s.job.call.answered := by
    intro hbegan
    cases hanswered : s.job.call.answered with
    | none => exact of_not_not fun hne => hnoted hbegan hne hanswered
    | some a => exact (h.answered hbegan a hanswered).1
  refine ⟨?_, fun c hc hend => ?_, fun c hc => ?_, fun c hc => ?_⟩
  · rw [← h.began]
    exact Option.map_eq_none_iff
  · obtain ⟨began, hbegan, -, -, hreason⟩ := hsummary c hc
    apply h.farEnd (by simp [hbegan])
    cases hnote : s.job.call.endReason with
    | none =>
        rw [hreason, hnote] at hend
        exact absurd hend (by decide)
    | some reason =>
        rw [hreason, hnote] at hend
        exact congrArg some hend
  · obtain ⟨began, hbegan, hlatency, -, -⟩ := hsummary c hc
    have hb : s.job.call.began ≠ none := by simp [hbegan]
    rw [hlatency, hactive hb]
    cases hanswered : s.job.call.answered with
    | none => simp
    | some a =>
        obtain ⟨-, hinbound⟩ := h.answered hb a hanswered
        cases hdialled : s.history.dialled with
        | none => simp [hinbound.2 hdialled]
        | some d =>
            have hout : s.job.inbound = false := by simpa [hdialled] using hinbound
            obtain rfl : began = d := Option.some.inj (hbegan.symm.trans (h.dialled d hdialled))
            simp [hout]
  · obtain ⟨began, hbegan, -, hduration, -⟩ := hsummary c hc
    rw [hduration, hactive (by simp [hbegan])]

/-! ## What one step notes -/

section Notes

variable {io : PhoneJobIo} {reg : Registry} {now deadline : Nat} {seen cancelled : Bool}

theorem callEnded_began : (io.callEnded now reg).1.call.began = io.call.began := by
  simp only [PhoneJobIo.callEnded]
  split <;> split <;> rfl

theorem callEnded_answered :
    (io.callEnded now reg).1.call.answered =
      if reg.callState io.deviceId = some .active then some (io.call.answered.getD now)
      else io.call.answered := by
  simp only [PhoneJobIo.callEnded]
  split <;> split <;> rfl

theorem callEnded_endReason :
    (io.callEnded now reg).1.call.endReason =
      if (io.callEnded now reg).2 = true ∧ io.call.ended = none then some .farEndHangup
      else io.call.endReason := by
  simp only [PhoneJobIo.callEnded]
  split <;> simp only [apply_ite CallTrack.endReason]

theorem waitTurn_began :
    (io.waitTurn now deadline seen cancelled reg).1.call.began = io.call.began := by
  unfold PhoneJobIo.waitTurn PhoneJobIo.waitDeadline PhoneJobIo.noAnswer PhoneJobIo.hangup
  split
  · dsimp only
    split <;> rfl
  · split
    · rfl
    · split <;> rfl
    · split
      · rfl
      · split <;> rfl

theorem waitTurn_inbound :
    (io.waitTurn now deadline seen cancelled reg).1.inbound = io.inbound := by
  unfold PhoneJobIo.waitTurn PhoneJobIo.waitDeadline PhoneJobIo.noAnswer PhoneJobIo.hangup
  split
  · rfl
  · split
    · rfl
    · split <;> rfl
    · split
      · rfl
      · split <;> rfl

theorem waitTurn_answered :
    (io.waitTurn now deadline seen cancelled reg).1.call.answered =
      if cancelled = false ∧ reg.callState io.deviceId = some .active then
        some (io.call.answered.getD now)
      else io.call.answered := by
  unfold PhoneJobIo.waitTurn PhoneJobIo.waitDeadline PhoneJobIo.noAnswer PhoneJobIo.hangup
  cases cancelled with
  | true => simp [apply_ite CallTrack.answered]
  | false =>
      cases reg.callState io.deviceId with
      | none => cases seen <;> by_cases hnow : deadline ≤ now <;> simp [hnow]
      | some state => cases state <;> by_cases hnow : deadline ≤ now <;> simp [hnow]

/-- A turn never notes that the far end hung up. -/
theorem waitTurn_endReason
    (h : (io.waitTurn now deadline seen cancelled reg).1.call.endReason = some .farEndHangup) :
    io.call.endReason = some .farEndHangup := by
  unfold PhoneJobIo.waitTurn PhoneJobIo.waitDeadline PhoneJobIo.noAnswer PhoneJobIo.hangup at h
  cases cancelled with
  | true =>
      dsimp only at h
      by_cases hended : io.call.ended = none
      · simp [hended] at h
      · simpa [hended] using h
  | false =>
      cases hstate : reg.callState io.deviceId with
      | none => cases seen <;> by_cases hnow : deadline ≤ now <;> simp_all
      | some state => cases state <;> by_cases hnow : deadline ≤ now <;> simp_all

end Notes

/-! ## Runs -/

/-- What a poll notes of an answer is that of the history where it sights the job's own. -/
theorem sightsOwn_iff (now : Nat) (hs : Tracked s) :
    (s.job.call.began ≠ none → ∀ a,
      (if s.registry.callState s.job.deviceId = some .active then
        some (s.job.call.answered.getD now) else s.job.call.answered) = some a →
          s.history.active = some a ∧ (s.job.inbound = true ↔ s.history.dialled = none)) ↔
      s.SightsOwn now := by
  constructor
  · intro h hb hactive hnone
    apply h hb
    rw [if_pos hactive, hnone, Option.getD_none]
  · intro h hb a ha
    cases hanswered : s.job.call.answered with
    | some a' =>
        apply hs.answered hb
        rw [hanswered, Option.getD_some, ite_self] at ha
        exact hanswered.trans ha
    | none =>
        rw [hanswered, Option.getD_none, Option.ite_none_right_eq_some] at ha
        obtain ⟨hactive, ha⟩ := ha
        obtain rfl := Option.some.inj ha
        exact h hb hactive hanswered

/-- The notes and the history begin together where a dial places a call. -/
theorem tracked_of_dial {now : Nat} {number own : String}
    (h : s.step (.dial now number (some own)) = some t) : Tracked t := by
  obtain rfl := Option.some.inj h
  exact ⟨by simp [PhoneJobIo.dial, CallHistory.dial], fun d hd => hd, fun _ hend => (nomatch hend),
    fun _ a ha => nomatch ha⟩

/-- A step that takes no summary keeps the notes those of the history exactly when it is clean. -/
theorem tracked_iff_of_step {a : JobCallLabel} (hs : Tracked s) (h : s.step a = some t)
    (hnotes : ∀ now, a ≠ .callSummary now) : Tracked t ↔ Clean s a := by
  cases a with
  | callSummary now => exact absurd rfl (hnotes now)
  | frame device nowMs now report =>
      refine iff_of_true ?_ trivial
      obtain rfl := Option.some.inj h
      split
      · obtain ⟨hhad, hdialled, hender, hactive⟩ := s.history.report_kept now report.state
        refine ⟨?_, ?_, fun hb hend => hender (hs.farEnd hb hend), fun hb a ha => ?_⟩
        · rw [hhad]
          exact hs.began
        · rw [hdialled]
          exact hs.dialled
        · obtain ⟨hact, hdial⟩ := hs.answered hb a ha
          exact ⟨hactive a hact, hdialled ▸ hdial⟩
      · exact ⟨hs.began, hs.dialled, hs.farEnd, hs.answered⟩
  | registry reg =>
      refine iff_of_true ?_ trivial
      obtain rfl := Option.some.inj h
      exact ⟨hs.began, hs.dialled, hs.farEnd, hs.answered⟩
  | dial now number own =>
      cases own with
      | some own => exact iff_of_true (tracked_of_dial h) fun hnone => nomatch hnone
      | none =>
          -- the notes begin anew, and there is no call
          obtain rfl := Option.some.inj h
          constructor
          · intro ht _
            refine ⟨?_, fun d hd => (Option.some.inj (ht.dialled d hd)).symm⟩
            exact eq_true_of_ne_false fun hhad => nomatch ht.began.2 hhad
          · intro hclean
            obtain ⟨hhad, hdialled⟩ := hclean rfl
            refine ⟨?_, fun d hd => ?_, fun _ hend => (nomatch hend), fun _ a ha => nomatch ha⟩
            · simp [PhoneJobIo.dial, CallHistory.dial, hhad]
            · obtain rfl := hdialled d hd
              rfl
  | answer own =>
      obtain rfl := Option.some.inj h
      cases own with
      | none =>
          refine iff_of_true ?_ fun hnone => absurd rfl hnone
          exact ⟨hs.began, hs.dialled, hs.farEnd, hs.answered⟩
      | some own =>
          -- nothing is noted, and the history begins anew
          constructor
          · intro ht _
            have hbegan : s.job.call.began ≠ none := fun hnone => nomatch ht.began.1 hnone
            refine ⟨hbegan, ?_, fun hend => nomatch ht.farEnd hbegan hend⟩
            cases hanswered : s.job.call.answered with
            | none => rfl
            | some a => exact nomatch (ht.answered hbegan a hanswered).1
          · intro hclean
            obtain ⟨hbegan, hanswered, hend⟩ := hclean (by simp)
            refine ⟨iff_of_false hbegan fun hhad => (nomatch hhad), fun d hd => (nomatch hd),
              fun _ h => absurd h hend, ?_⟩
            intro _ a ha
            exact absurd (hanswered.symm.trans ha) (by simp)
  | hangup now =>
      refine iff_of_true ?_ trivial
      obtain rfl := Option.some.inj h
      have hcall : ∀ note : CallTrack, note = (s.job.hangup now).1.call →
          note.began = s.job.call.began ∧ note.answered = s.job.call.answered ∧
            (note.endReason = some .farEndHangup → s.job.call.endReason = some .farEndHangup) := by
        rintro _ rfl
        simp only [PhoneJobIo.hangup]
        split <;> simp
      obtain ⟨hbegan, hanswered, hend⟩ := hcall _ rfl
      refine ⟨?_, ?_, ?_, ?_⟩
      · exact hbegan ▸ hs.began
      · exact fun d hd => hbegan ▸ hs.dialled d hd
      · exact fun hb he => (CallHistory.ender_hangup _).2 (hs.farEnd (hbegan ▸ hb) (hend he))
      · exact fun hb a ha => hs.answered (hbegan ▸ hb) a (hanswered ▸ ha)
  | callEnded now =>
      obtain rfl := Option.some.inj h
      have hsights := sightsOwn_iff now hs
      constructor
      · intro ht
        refine ⟨hsights.1 fun hb a ha => ?_, fun hb hverdict hended => ?_⟩
        · exact ht.answered (callEnded_began.symm ▸ hb) a (callEnded_answered.trans ha)
        · apply ht.farEnd (callEnded_began.symm ▸ hb)
          exact callEnded_endReason.trans (if_pos ⟨hverdict, hended⟩)
      · rintro ⟨hsees, hends⟩
        refine ⟨?_, fun d hd => callEnded_began.trans (hs.dialled d hd), fun hb hend => ?_,
          fun hb a ha => ?_⟩
        · exact callEnded_began.symm ▸ hs.began
        · rw [callEnded_began] at hb
          rw [callEnded_endReason] at hend
          split at hend
          · rename_i hnote
            exact hends hb hnote.1 hnote.2
          · exact hs.farEnd hb hend
        · rw [callEnded_began] at hb
          exact hsights.2 hsees hb a (callEnded_answered.symm.trans ha)
  | waitTurn now deadline seen cancelled =>
      obtain rfl := Option.some.inj h
      have hsights := sightsOwn_iff now hs
      cases cancelled with
      | true =>
          -- the call is hung up, and no answer is noted
          refine iff_of_true ?_ fun hno => nomatch hno
          refine ⟨?_, fun d hd => waitTurn_began.trans (hs.dialled d hd), fun hb hend => ?_,
            fun hb a ha => ?_⟩
          · exact waitTurn_began.symm ▸ hs.began
          · rw [waitTurn_began] at hb
            exact (CallHistory.ender_hangup _).2 (hs.farEnd hb (waitTurn_endReason hend))
          · rw [waitTurn_began] at hb
            exact hs.answered hb a (waitTurn_answered.symm.trans ha)
      | false =>
          have hanswered :
              (s.job.waitTurn now deadline seen false s.registry).1.call.answered =
                if s.registry.callState s.job.deviceId = some .active then
                  some (s.job.call.answered.getD now)
                else s.job.call.answered := by
            rw [waitTurn_answered]
            simp only [true_and]
          constructor
          · intro ht _
            refine hsights.1 fun hb a ha => ?_
            obtain ⟨hactive, hdialled⟩ :=
              ht.answered (waitTurn_began.symm ▸ hb) a (hanswered.trans ha)
            exact ⟨hactive, waitTurn_inbound ▸ hdialled⟩
          · intro hsees
            refine ⟨?_, fun d hd => waitTurn_began.trans (hs.dialled d hd), fun hb hend => ?_,
              fun hb a ha => ?_⟩
            · exact waitTurn_began.symm ▸ hs.began
            · rw [waitTurn_began] at hb
              exact hs.farEnd hb (waitTurn_endReason hend)
            · rw [waitTurn_began] at hb
              obtain ⟨hactive, hdialled⟩ := hsights.2 (hsees rfl) hb a (hanswered.symm.trans ha)
              exact ⟨hactive, waitTurn_inbound.symm ▸ hdialled⟩

theorem tracked_start (registry : Registry) (device : String) (call : Option String) (now : Nat) :
    Tracked (start registry device call now) := by
  rcases call with _ | call
  · exact ⟨by simp [start, PhoneJobIo.new], fun d hd => (nomatch hd), fun _ h => (nomatch h),
      fun _ a ha => nomatch ha⟩
  · refine ⟨by simp [start, PhoneJobIo.new], fun d hd => (nomatch hd), fun _ h => (nomatch h), ?_⟩
    intro _ a ha
    exact ⟨ha, iff_of_true rfl rfl⟩

/-- **A step keeps the notes those of the history, and the summary that it takes is faithful**,
exactly when it is clean. -/
theorem clean_iff_of_step {a : JobCallLabel} (hs : Tracked s) (h : s.step a = some t) :
    Tracked t ∧ TakesFaithful s a ↔ Clean s a := by
  cases a with
  | callSummary now =>
      obtain rfl := Option.some.inj h
      exact (and_iff_right hs).trans (faithful_iff hs)
  | _ => exact (and_iff_left trivial).trans (tracked_iff_of_step hs h (by simp))

/-- **The steps of a run are clean** exactly where it keeps the notes those of the history and takes
faithful summaries only. -/
theorem clean_iff (hs : Tracked s) (as : List JobCallLabel) :
    machine.Along Tracked s as ∧ machine.Meets TakesFaithful s as ↔ machine.Meets Clean s as := by
  apply Machine.along_and_meets_iff _ hs as
  intro s a t hs h
  exact clean_iff_of_step hs h

/-- States from which the notes of a job and the history of its calls have begun together: a job
starts, or it has just placed a call, whatever it has done before. -/
inductive Fresh : JobCall → Prop
  | start (registry : Registry) (device : String) (call : Option String) (now : Nat) :
      Fresh (start registry device call now)
  | dial {s t : JobCall} (now : Nat) (number own : String) :
      s.step (.dial now number (some own)) = some t → Fresh t

theorem tracked_of_fresh (h : Fresh s) : Tracked s := by
  cases h with
  | start registry device call now => exact tracked_start registry device call now
  | dial now number own hdial => exact tracked_of_dial hdial

/-- **In a run of clean steps every summary is faithful.** -/
theorem summaries_faithful_of_clean (hs : Fresh s) (as : List JobCallLabel)
    (hclean : machine.Meets Clean s as) : machine.Meets TakesFaithful s as :=
  ((clean_iff (tracked_of_fresh hs) as).2 hclean).2

/-- A job that only answers has no summary of its call; a dial that places no call has one; and a
call that is answered and gone between two polls has neither latency nor duration. -/
theorem exists_not_faithful :
    (∃ t, machine.run (start .new "p" none 0)
        [.frame "p" 1 1000000 ⟨"a", .ringing, some "100", .incoming⟩, .answer (some "a"),
          .frame "p" 2 2000000 ⟨"a", .active, some "100", .incoming⟩, .callEnded 2000000,
          .hangup 5000000] = some t ∧
      t.job.callSummary 6000000 = none ∧ t.history.had = true ∧ ¬ Faithful t 6000000) ∧
    (∃ t, machine.run (start .new "p" none 0) [.dial 0 "100" none] = some t ∧
      t.job.callSummary 1000000 = some ⟨none, none, .completed, some "100", none⟩ ∧
        t.history.had = false ∧ ¬ Faithful t 1000000) ∧
    ∃ t, machine.run (start .new "p" none 0)
        [.dial 0 "100" (some "a"), .callEnded 0,
          .frame "p" 3 3000000 ⟨"a", .active, some "100", .outgoing⟩,
          .frame "p" 9 9000000 ⟨"a", .ended, some "100", .outgoing⟩, .callEnded 10000000,
          .hangup 10000000] = some t ∧
      t.job.callSummary 11000000 = some ⟨none, none, .completed, some "100", none⟩ ∧
        t.history.dialled = some 0 ∧ t.history.active = some 3000000 ∧ ¬ Faithful t 11000000 := by
  refine ⟨⟨_, rfl, rfl, rfl, fun h => ?_⟩, ⟨_, rfl, rfl, rfl, fun h => ?_⟩,
    ⟨_, rfl, rfl, rfl, rfl, fun h => ?_⟩⟩
  · exact absurd (h.none_iff.1 rfl) (by decide)
  · exact absurd (h.none_iff.2 rfl) (by decide)
  · exact absurd (h.latency _ rfl) (by decide)

/-- A job dials, its call goes active as it polls, and the far end hangs up. -/
theorem summaries_faithful_of_clean_dial :
    machine.Meets TakesFaithful
      (start ⟨AList.singleton "p" ⟨"p", "phone", none, 0, none⟩⟩ "p" none 0)
      [.dial 0 "100" (some "a"), .frame "p" 3 3000000 ⟨"a", .active, some "100", .outgoing⟩,
        .callEnded 3000000, .frame "p" 9 9000000 ⟨"a", .ended, some "100", .outgoing⟩,
        .callEnded 9000000, .callSummary 9000000] := by
  apply summaries_faithful_of_clean (.start _ _ _ _)
  refine ⟨fun hnone => (nomatch hnone), trivial, ⟨?_, ?_⟩, trivial, ⟨?_, ?_⟩, ?_, trivial⟩
  · exact fun _ _ _ => ⟨rfl, by decide⟩
  · exact fun _ hverdict => absurd hverdict (by decide)
  · exact fun _ hactive => absurd hactive (by decide)
  · exact fun _ _ _ => rfl
  · exact fun _ _ => by decide

end JobCall

end DialF.Daemon
