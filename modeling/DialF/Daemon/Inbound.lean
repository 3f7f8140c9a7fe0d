import Mathlib.Data.List.AList
import DialF.Lib.Machine
import DialF.Lib.Table
import DialF.Daemon.Protocol

/-!
# Inbound calls

A ringing frame of an inbound call is routed by the caller's number: a live override wins over the
runtime map, which replaces the map of the configuration wholesale (`resolveInbound`). A handler
that runs a job takes the sound card first and is skipped where the card is in use; an answer-only
handler answers without a look at it.

Reading the frame, routing it and acting on it are steps of their own, and jobs take and release the
card in between. `oneCall_along_iff` gives the runs in which no frame that is acted on while the
card is held is answered.
-/

set_option autoImplicit false

namespace DialF.Daemon

open DialF.Lib

/-- Steps of an inline job, carried as texts. -/
abbrev Steps := List String

/-- How an inbound call from a matched number is handled. -/
inductive InboundHandler where
  | answerOnly
  | job (path : String) (device : Option String)
  | steps (steps : Steps)
  deriving DecidableEq

/-- A live override of a `dialf run --autoanswer` client. -/
structure AutoanswerOverride where
  token : Nat
  path : String
  device : Option String
  deriving DecidableEq

/-- One number's handler in the runtime map. -/
inductive InboundJob where
  | answerOnly
  | path (path : String)
  | steps (steps : Steps)
  deriving DecidableEq

/-- The components of a path that are more than separators and `.`; a `.` at the head stays. -/
def pathComponents (path : List Char) : List (List Char) :=
  let parts := path.splitOn '/'
  match parts with
  | head :: rest =>
      (if head = ['.'] then [head] else [head].filter (· ≠ [])) ++
        rest.filter fun p => p ≠ [] && p ≠ ['.']
  | [] => []

/-- `Path::is_relative`. -/
def isRelativePath (path : List Char) : Bool := path.head? ≠ some '/'

/-- `resolve_path_under`: joined to the base where relative, and lexically cleaned. -/
def resolveUnder (base : Option String) (path : String) : String :=
  let joined :=
    match base with
    | some b =>
        if b.toList ≠ [] && isRelativePath path.toList then b.toList ++ '/' :: path.toList
        else path.toList
    | none => path.toList
  let body := (List.intersperse ['/'] (pathComponents joined)).flatten
  String.ofList (if isRelativePath joined then body else '/' :: body)

/-- Where the routes of inbound numbers are kept. -/
structure Routes where
  overrides : AList fun _ : String => AutoanswerOverride
  runtime : Option (AList fun _ : String => InboundJob)
  config : AList fun _ : String => Option String
  configDir : Option String

namespace Routes

/-- `resolve_inbound`; `none` lets the call ring. -/
def resolveInbound (r : Routes) (number : String) : Option InboundHandler :=
  match r.overrides.lookup number with
  | some ov => some (.job ov.path ov.device)
  | none =>
      match r.runtime with
      | some map =>
          -- the runtime map stands in for the configured one as a whole
          match map.lookup number with
          | none => none
          | some .answerOnly => some .answerOnly
          | some (.path p) => some (.job p none)
          | some (.steps s) => some (.steps s)
      | none =>
          match r.config.lookup number with
          | none => none
          -- a number without a job file is answered only
          | some none => some .answerOnly
          | some (some path) => some (.job (resolveUnder r.configDir path) none)

/-- A number that the runtime map does not list is left ringing, whatever the configuration says. -/
theorem resolveInbound_of_runtime {r : Routes} {number : String}
    {map : AList fun _ : String => InboundJob} (hov : r.overrides.lookup number = none)
    (hrt : r.runtime = some map) (hmap : map.lookup number = none) :
    r.resolveInbound number = none := by
  simp [resolveInbound, hov, hrt, hmap]

end Routes

/-- Who holds the card. -/
inductive CardHolder where
  | jobRun
  | task (t : Nat)
  deriving DecidableEq

/-- How far a ringing frame has come; at the end, whether the card was held when it was acted on. -/
inductive RingPhase where
  | read
  | resolved (handler : Option InboundHandler)
  | acted (busy : Bool)
  deriving DecidableEq

/-- An inbound ringing frame. -/
structure Ring where
  device : String
  callId : String
  number : Option String
  phase : RingPhase
  deriving DecidableEq

/-- The task of an auto-answer job: it answers, runs the job, and ends. -/
inductive TaskPhase where
  | answering
  | answered
  | ended
  deriving DecidableEq

/-- The task of an answer that has been given a time, for a ring. -/
structure AnswerTask where
  ring : Nat
  phase : TaskPhase
  deriving DecidableEq

/-- An answer command that was sent, and the ringing frame it is for. -/
structure SentAnswer where
  ring : Nat
  device : String
  callId : String
  deriving DecidableEq

/-- The routes, the card, the devices that commands reach, the ringing frames and the tasks, the
answers sent and the event lines. -/
structure Inbound where
  routes : Routes
  holder : Option CardHolder
  connected : List String
  rings : List Ring
  tasks : List AnswerTask
  answers : List SentAnswer
  events : List String

/-- What can happen between a ring and its answer. -/
inductive InboundLabel where
  | callState (device : String) (report : CallReport)
  | resolve (i : Nat)
  | act (i : Nat)
  | sendAnswer (t : Nat)
  | endTask (t : Nat)
  | startJob
  | endJob
  | setRoutes (routes : Routes)
  | connect (device : String)
  | disconnect (device : String)

namespace Inbound

/-- A daemon that has just started, with what its configuration says. -/
def start (config : AList fun _ : String => Option String) (configDir : Option String) : Inbound :=
  ⟨⟨∅, none, config, configDir⟩, none, [], [], [], [], []⟩

/-- What a job is called in an event line. -/
def jobDesc : InboundHandler → String
  | .job path _ => path
  | .steps steps => "inline job (" ++ steps.length.repr ++ " steps)"
  | .answerOnly => ""

/-- An override may be pinned to another phone than the one that rings. -/
def wantsOther (device : String) : InboundHandler → Bool
  | .job _ (some want) => want != device
  | _ => false

/-- The frame has been acted on. -/
def acted (s : Inbound) (i : Nat) (r : Ring) : Inbound :=
  { s with rings := s.rings.set i { r with phase := .acted s.holder.isSome } }

/-- `trigger_autoanswer`. -/
def triggerAutoanswer (s : Inbound) (i : Nat) (r : Ring) : InboundHandler → Inbound
  | .answerOnly =>
      -- fired at once, and sent where the device is connected
      if r.device ∈ s.connected then
        { s.acted i r with answers := s.answers ++ [⟨i, r.device, r.callId⟩] }
      else s.acted i r
  | handler =>
      if wantsOther r.device handler then s.acted i r
      else
        match s.holder with
        | some _ =>
            { s.acted i r with
              events := s.events ++ ["skipped " ++ r.number.getD "?" ++ " (phone busy)"] }
        | none =>
            { s.acted i r with
              holder := some (.task s.tasks.length)
              tasks := s.tasks ++ [⟨i, .answering⟩]
              events := s.events ++
                ["answered " ++ r.number.getD "" ++ " → running " ++ jobDesc handler] }

/-- One step. -/
def step (s : Inbound) : InboundLabel → Option Inbound
  | .callState device report =>
      if report.state = .ringing ∧ report.direction = .incoming then
        some { s with rings := s.rings ++ [⟨device, report.callId, report.number, .read⟩] }
      else some s
  -- the routes are read once; what they say later does not count for this frame
  | .resolve i =>
      match s.rings[i]? with
      | some r =>
          match r.phase with
          | .read =>
              some { s with
                rings := s.rings.set i
                  { r with phase := .resolved (r.number.bind s.routes.resolveInbound) } }
          | _ => none
      | none => none
  | .act i =>
      match s.rings[i]? with
      | some r =>
          match r.phase with
          | .resolved (some handler) => some (s.triggerAutoanswer i r handler)
          | .resolved none => some (s.acted i r)
          | _ => none
      | none => none
  | .sendAnswer t =>
      match s.tasks[t]? with
      | some ⟨i, .answering⟩ =>
          match s.rings[i]? with
          | some r =>
              some { s with
                tasks := s.tasks.set t ⟨i, .answered⟩
                answers := s.answers ++ [⟨i, r.device, r.callId⟩] }
          | none => none
      | _ => none
  -- a task ends from either phase, and its guard with it
  | .endTask t =>
      match s.tasks[t]? with
      | some ⟨_, .ended⟩ => none
      | some ⟨i, _⟩ =>
          some { s with
            tasks := s.tasks.set t ⟨i, .ended⟩
            holder := if s.holder = some (.task t) then none else s.holder }
      | none => none
  | .startJob =>
      match s.holder with
      | none => some { s with holder := some .jobRun }
      | some _ => none
  | .endJob => if s.holder = some .jobRun then some { s with holder := none } else none
  | .setRoutes routes => some { s with routes := routes }
  | .connect device => some { s with connected := device :: s.connected }
  | .disconnect device => some { s with connected := s.connected.filter (· != device) }

/-- All runs of the inbound side, under any config. -/
def machine : Machine Inbound InboundLabel where
  Init s := ∃ config configDir, s = start config configDir
  step := step

/-- **One call at a time**: no answer is sent for a frame that was acted on while the card was
held. -/
def OneCall (s : Inbound) : Prop :=
  ∀ a ∈ s.answers, ∀ r, s.rings[a.ring]? = some r → r.phase ≠ .acted true

/-- While the card is held, no frame of a connected device is acted on that is routed to
answer-only. -/
def NoBareAnswer (s : Inbound) : InboundLabel → Prop
  | .act i =>
      match s.rings[i]? with
      | some r =>
          r.phase = .resolved (some .answerOnly) → s.holder.isSome = true →
            r.device ∉ s.connected
      | none => True
  | _ => True

instance (s : Inbound) (a : InboundLabel) : Decidable (NoBareAnswer s a) := by
  unfold NoBareAnswer
  split
  · split <;> infer_instance
  · infer_instance

/-! ## The invariant -/

/-- A task's frame was acted on with the card free, and whatever was answered has been acted on. -/
structure Inv (s : Inbound) : Prop where
  tasks : ∀ t ∈ s.tasks, ∃ r, s.rings[t.ring]? = some r ∧ r.phase = .acted false
  answers : ∀ a ∈ s.answers, ∃ r b, s.rings[a.ring]? = some r ∧ r.phase = .acted b

/-- Frames that have been acted on stay as they are. -/
def KeepsActed (s t : Inbound) : Prop :=
  ∀ (i : Nat) (r : Ring) (b : Bool), s.rings[i]? = some r → r.phase = .acted b →
    t.rings[i]? = some r

variable {s t : Inbound} {i : Nat} {r : Ring}

theorem inv_start (config : AList fun _ : String => Option String) (configDir : Option String) :
    Inv (start config configDir) where
  tasks := by simp [start]
  answers := by simp [start]

/-- A step that sends no answer and starts no task. -/
theorem Inv.of_keepsActed (hI : Inv s) (hkeep : KeepsActed s t) (hanswers : t.answers = s.answers)
    (htasks : ∀ k ∈ t.tasks, ∃ k' ∈ s.tasks, k.ring = k'.ring) : Inv t where
  tasks := by
    intro k hk
    obtain ⟨k', hk', hring⟩ := htasks k hk
    obtain ⟨r, hr, hp⟩ := hI.tasks k' hk'
    exact ⟨r, hring ▸ hkeep _ r false hr hp, hp⟩
  answers := by
    rw [hanswers]
    intro a ha
    obtain ⟨r, b, hr, hp⟩ := hI.answers a ha
    exact ⟨r, b, hkeep _ r b hr hp, hp⟩

/-- Only the answers that a step sends count for whether it keeps the property. -/
theorem Inv.oneCall_iff (hI : Inv s) (hs : OneCall s) (hkeep : KeepsActed s t)
    {new : List SentAnswer} (hanswers : t.answers = s.answers ++ new) :
    OneCall t ↔ ∀ a ∈ new, ∀ r, t.rings[a.ring]? = some r → r.phase ≠ .acted true := by
  constructor
  · intro ht a ha
    exact ht a (by rw [hanswers]; exact List.mem_append_right _ ha)
  · intro hnew a ha r hr
    rw [hanswers] at ha
    rcases List.mem_append.1 ha with hold | ha
    -- an earlier answer's frame has been acted on, and stays as it was
    · obtain ⟨r', b, hr', hp⟩ := hI.answers a hold
      obtain rfl := Option.some.inj ((hkeep _ r' b hr' hp).symm.trans hr)
      exact hs a hold r' hr'
    · exact hnew a ha r hr

theorem keepsActed_of_rings (h : t.rings = s.rings) : KeepsActed s t := by
  intro i r b hr _
  rw [h]
  exact hr

theorem keepsActed_set {r' : Ring} (hi : s.rings[i]? = some r) (hp : ∀ b, r.phase ≠ .acted b)
    (ht : t.rings = s.rings.set i r') : KeepsActed s t := by
  intro j q b hq hb
  rw [ht]
  by_cases hij : i = j
  · subst hij
    obtain rfl := Option.some.inj (hi.symm.trans hq)
    exact absurd hb (hp b)
  · rw [List.getElem?_set_ne hij]
    exact hq

theorem getElem?_acted (hi : s.rings[i]? = some r) :
    (s.acted i r).rings[i]? = some { r with phase := .acted s.holder.isSome } :=
  getElem?_set_self_of_some hi

/-- The task of an auto-answer job goes on, with the frame it has. -/
theorem ring_of_mem_set {k k' : AnswerTask} {n : Nat} (hn : s.tasks[n]? = some k)
    (hring : k'.ring = k.ring) : ∀ j ∈ s.tasks.set n k', ∃ j' ∈ s.tasks, j.ring = j'.ring := by
  intro j hj
  rcases List.mem_or_eq_of_mem_set hj with hold | rfl
  · exact ⟨j, hold, rfl⟩
  · exact ⟨k, List.mem_of_getElem? hn, hring⟩

/-- A step that sends no answer and starts no task. -/
theorem quiet_step (hI : Inv s) (hkeep : KeepsActed s t) (hanswers : t.answers = s.answers)
    (htasks : ∀ k ∈ t.tasks, ∃ k' ∈ s.tasks, k.ring = k'.ring) :
    Inv t ∧ (OneCall s → (OneCall t ↔ True)) := by
  refine ⟨hI.of_keepsActed hkeep hanswers htasks, fun hs => iff_of_true ?_ trivial⟩
  have hnone : t.answers = s.answers ++ [] := by rw [hanswers, List.append_nil]
  exact (hI.oneCall_iff hs hkeep hnone).2 (by simp)

/-! ## Acting on a frame -/

/-- A handler that runs a job leaves the frame alone where another phone is wanted or the card is
held, and starts its task where the card is free. -/
inductive Runs (s : Inbound) (i : Nat) (r : Ring) : Inbound → Prop where
  | leaves (events : List String) : Runs s i r { s.acted i r with events := events }
  | starts (events : List String) (hfree : s.holder = none) :
      Runs s i r
        { s.acted i r with
          holder := some (.task s.tasks.length)
          tasks := s.tasks ++ [⟨i, .answering⟩]
          events := events }

theorem runs_of_trigger {handler : InboundHandler} (hne : handler ≠ .answerOnly) :
    Runs s i r (s.triggerAutoanswer i r handler) := by
  have hbody : s.triggerAutoanswer i r handler =
      if wantsOther r.device handler then s.acted i r
      else
        match s.holder with
        | some _ =>
            { s.acted i r with
              events := s.events ++ ["skipped " ++ r.number.getD "?" ++ " (phone busy)"] }
        | none =>
            { s.acted i r with
              holder := some (.task s.tasks.length)
              tasks := s.tasks ++ [⟨i, .answering⟩]
              events := s.events ++
                ["answered " ++ r.number.getD "" ++ " → running " ++ jobDesc handler] } := by
    cases handler with
    | answerOnly => exact absurd rfl hne
    | job path device => rfl
    | steps steps => rfl
  rw [hbody]
  split
  · exact .leaves s.events
  · split
    · exact .leaves _
    · rename_i hfree
      exact .starts _ hfree

/-- The new task's frame was acted on with the card free. -/
theorem inv_starts {events : List String} (hI : Inv s) (hi : s.rings[i]? = some r)
    (hkeep : KeepsActed s (s.acted i r)) (hfree : s.holder = none) :
    Inv { s.acted i r with
      holder := some (.task s.tasks.length)
      tasks := s.tasks ++ [⟨i, .answering⟩]
      events := events } where
  tasks := by
    intro k hk
    rcases List.mem_append.1 hk with hold | hnew
    · obtain ⟨q, hq, hqp⟩ := hI.tasks k hold
      exact ⟨q, hkeep _ q false hq hqp, hqp⟩
    · obtain rfl := List.mem_singleton.1 hnew
      refine ⟨_, getElem?_acted hi, ?_⟩
      rw [hfree]
      rfl
  answers := by
    intro a ha
    obtain ⟨q, b, hq, hqp⟩ := hI.answers a ha
    exact ⟨q, b, hkeep _ q b hq hqp, hqp⟩

/-- A job that a frame is for changes nothing of the property: its answer comes later. -/
theorem runs_step (hI : Inv s) (hi : s.rings[i]? = some r)
    (hkeep : KeepsActed s (s.acted i r)) (h : Runs s i r t) :
    Inv t ∧ (OneCall s → OneCall t) := by
  cases h with
  | leaves events =>
      obtain ⟨hinv, hone⟩ := quiet_step (t := { s.acted i r with events := events }) hI hkeep rfl
        fun k hk => ⟨k, hk, rfl⟩
      exact ⟨hinv, fun hs => (hone hs).2 trivial⟩
  | starts events hfree =>
      refine ⟨inv_starts hI hi hkeep hfree, fun hs => ?_⟩
      apply (hI.oneCall_iff hs hkeep (List.append_nil s.answers).symm).2
      simp

/-- The answer that an answer-only handler sends is for a frame that has been acted on. -/
theorem inv_answers (hI : Inv s) (hi : s.rings[i]? = some r)
    (hkeep : KeepsActed s (s.acted i r)) :
    Inv { s.acted i r with answers := s.answers ++ [⟨i, r.device, r.callId⟩] } where
  tasks := by
    intro k hk
    obtain ⟨q, hq, hqp⟩ := hI.tasks k hk
    exact ⟨q, hkeep _ q false hq hqp, hqp⟩
  answers := by
    intro a ha
    rcases List.mem_append.1 ha with hold | hnew
    · obtain ⟨q, b, hq, hqp⟩ := hI.answers a hold
      exact ⟨q, b, hkeep _ q b hq hqp, hqp⟩
    · obtain rfl := List.mem_singleton.1 hnew
      exact ⟨_, _, getElem?_acted hi, rfl⟩

/-- That answer keeps the property exactly where the card is free. -/
theorem oneCall_answers_iff (hI : Inv s) (hs : OneCall s) (hi : s.rings[i]? = some r)
    (hkeep : KeepsActed s (s.acted i r)) :
    OneCall { s.acted i r with answers := s.answers ++ [⟨i, r.device, r.callId⟩] } ↔
      s.holder.isSome ≠ true := by
  rw [hI.oneCall_iff (t := { s.acted i r with
    answers := s.answers ++ [⟨i, r.device, r.callId⟩] }) hs hkeep rfl]
  constructor
  -- the frame of this answer is marked with what the holder was
  · intro hnew hbusy
    have hring := hnew _ (List.mem_singleton.2 rfl) _ (getElem?_acted hi)
    rw [hbusy] at hring
    exact absurd rfl hring
  · intro hfree a ha q hq hqp
    obtain rfl := List.mem_singleton.1 ha
    obtain rfl := Option.some.inj ((getElem?_acted hi).symm.trans hq)
    exact hfree (RingPhase.acted.inj hqp)

/-- What acting on a frame does to the property: an answer-only handler under a held card. -/
theorem act_iff {handler : InboundHandler} (hI : Inv s) (hi : s.rings[i]? = some r)
    (hp : r.phase = .resolved (some handler)) :
    Inv (s.triggerAutoanswer i r handler) ∧
      (OneCall s → (OneCall (s.triggerAutoanswer i r handler) ↔
        (handler = .answerOnly → s.holder.isSome = true → r.device ∉ s.connected))) := by
  have hkeep : KeepsActed s (s.acted i r) := keepsActed_set hi (by simp [hp]) rfl
  by_cases honly : handler = .answerOnly
  · subst honly
    simp only [triggerAutoanswer, forall_const]
    split
    · rename_i hconn
      refine ⟨inv_answers hI hi hkeep, fun hs => (oneCall_answers_iff hI hs hi hkeep).trans ?_⟩
      exact forall_congr' fun _ => iff_of_false id (not_not_intro hconn)
    · rename_i hconn
      obtain ⟨hinv, hone⟩ := quiet_step hI hkeep rfl fun k hk => ⟨k, hk, rfl⟩
      exact ⟨hinv, fun hs => iff_of_true ((hone hs).2 trivial) fun _ => hconn⟩
  · obtain ⟨hinv, hone⟩ := runs_step hI hi hkeep (runs_of_trigger honly)
    exact ⟨hinv, fun hs => iff_of_true (hone hs) fun h => absurd h honly⟩

/-! ## One step -/

/-- A task answers the frame that it was started for. -/
theorem sendAnswer_step {n : Nat} (hI : Inv s) (h : s.step (.sendAnswer n) = some t) :
    Inv t ∧ (OneCall s → (OneCall t ↔ True)) := by
  simp only [step] at h
  split at h
  · rename_i i hn
    split at h
    · rename_i r hi
      obtain rfl := Option.some.inj h
      have hkeep : KeepsActed s { s with
          tasks := s.tasks.set n ⟨i, .answered⟩
          answers := s.answers ++ [⟨i, r.device, r.callId⟩] } := keepsActed_of_rings rfl
      obtain ⟨q, hq, hqp⟩ := hI.tasks _ (List.mem_of_getElem? hn)
      obtain rfl := Option.some.inj (hi.symm.trans hq)
      refine ⟨⟨?_, ?_⟩, ?_⟩
      · intro k hk
        have hring : (AnswerTask.mk i .answered).ring = i := rfl
        obtain ⟨k', hk', hkring⟩ := ring_of_mem_set hn hring k hk
        rw [hkring]
        exact hI.tasks k' hk'
      · intro a ha
        rcases List.mem_append.1 ha with hold | hnew
        · exact hI.answers a hold
        · obtain rfl := List.mem_singleton.1 hnew
          exact ⟨r, false, hi, hqp⟩
      · intro hs
        refine iff_of_true ((hI.oneCall_iff hs hkeep rfl).2 ?_) trivial
        intro a ha r' hr'
        obtain rfl := List.mem_singleton.1 ha
        obtain rfl := Option.some.inj (hi.symm.trans hr')
        simp [hqp]
    · simp at h
  · simp at h

/-- **One step keeps one call at a time exactly when it is no answer-only answer under a held
card.** -/
theorem oneCall_step {a : InboundLabel} (hI : Inv s) (h : s.step a = some t) :
    Inv t ∧ (OneCall s → (OneCall t ↔ NoBareAnswer s a)) := by
  have hsame : ∀ k ∈ s.tasks, ∃ k' ∈ s.tasks, k.ring = k'.ring := fun k hk => ⟨k, hk, rfl⟩
  have hrings : ∀ t : Inbound, t.rings = s.rings → t.answers = s.answers →
      (∀ k ∈ t.tasks, ∃ k' ∈ s.tasks, k.ring = k'.ring) →
        Inv t ∧ (OneCall s → (OneCall t ↔ True)) := by
    intro t ht hanswers htasks
    exact quiet_step hI (keepsActed_of_rings ht) hanswers htasks
  cases a with
  | callState device report =>
      simp only [step] at h
      split at h
      · obtain rfl := Option.some.inj h
        have hkeep : KeepsActed s { s with
            rings := s.rings ++ [⟨device, report.callId, report.number, .read⟩] } := by
          intro j q b hq _
          exact getElem?_concat_of_some hq
        exact quiet_step hI hkeep rfl hsame
      · obtain rfl := Option.some.inj h
        exact ⟨hI, fun hs => iff_of_true hs trivial⟩
  | resolve i =>
      simp only [step] at h
      split at h
      · rename_i r hi
        split at h
        · rename_i hp
          obtain rfl := Option.some.inj h
          exact quiet_step hI (keepsActed_set hi (by simp [hp]) rfl) rfl hsame
        · simp at h
      · simp at h
  | act i =>
      simp only [step] at h
      split at h
      · rename_i r hi
        simp only [NoBareAnswer, hi]
        split at h
        · rename_i handler hp
          obtain rfl := Option.some.inj h
          obtain ⟨hinv, hiff⟩ := act_iff hI hi hp
          refine ⟨hinv, fun hs => (hiff hs).trans ?_⟩
          rw [hp]
          simp
        · rename_i hp
          obtain rfl := Option.some.inj h
          obtain ⟨hinv, hone⟩ := quiet_step hI
            (keepsActed_set (t := s.acted i r) hi (by simp [hp]) rfl) rfl hsame
          refine ⟨hinv, fun hs => (hone hs).trans ?_⟩
          simp [hp]
        · simp at h
      · simp at h
  | sendAnswer n => exact sendAnswer_step hI h
  | endTask n =>
      simp only [step] at h
      split at h
      · simp at h
      · rename_i k hn
        obtain rfl := Option.some.inj h
        exact hrings _ rfl rfl (ring_of_mem_set hn rfl)
      · simp at h
  | startJob =>
      simp only [step] at h
      split at h
      · obtain rfl := Option.some.inj h
        exact hrings _ rfl rfl hsame
      · simp at h
  | endJob =>
      simp only [step] at h
      split at h
      · obtain rfl := Option.some.inj h
        exact hrings _ rfl rfl hsame
      · simp at h
  | setRoutes routes | connect device | disconnect device =>
      obtain rfl := Option.some.inj h
      exact hrings _ rfl rfl hsame

/-- **The runs with one call at a time.** -/
theorem oneCall_along_iff (config : AList fun _ : String => Option String)
    (configDir : Option String) (run : List InboundLabel) :
    machine.Along OneCall (start config configDir) run ↔
      machine.Meets NoBareAnswer (start config configDir) run := by
  apply Machine.along_iff_meets (I := Inv)
  · intro s a t hI hstep
    exact (oneCall_step hI hstep).1
  · intro s a t hI hs hstep
    exact (oneCall_step hI hstep).2 hs
  · exact inv_start config configDir
  · simp [OneCall, start]

/-- A call for an answer-only number rings while a `job.run` holds the card. -/
def secondCallRun : List InboundLabel :=
  [.connect "p", .startJob, .callState "p" ⟨"2", .ringing, some "+1555", .incoming⟩, .resolve 0,
    .act 0]

theorem exists_not_oneCall : ¬ ∀ s, machine.Reach s → OneCall s := by
  intro hall
  have hstart : machine.Reach (start (AList.singleton "+1555" none) none) := .init ⟨_, _, rfl⟩
  have hreach := Machine.reach_of_run hstart (show machine.run _ secondCallRun = some _ from rfl)
  exact hall _ hreach ⟨0, "p", "2"⟩ (by decide) _ rfl rfl

end Inbound

end DialF.Daemon
