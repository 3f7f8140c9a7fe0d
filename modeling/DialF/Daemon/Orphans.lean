import DialF.Lib.Machine
import DialF.Daemon.Protocol
import DialF.Daemon.CallMarkers

/-!
# Calls orphaned by a crash

While a job holds the sound card the daemon marks, on disk, the calls that phones report active; a
daemon that starts takes over the markers it finds, and hangs up a call that is reported active
under a marked id while no job runs. Ids are minted by the phone's app, which starts at 1 again when
it is restarted, and the app falls back to any call it tracks when it is told an id that it does not
know.

The machine runs the daemon, with crashes, and any number of phones. A call has, besides its id, an
identity of its own (`uid`), which no code sees; `driven` says which calls jobs have dialled or
answered, `hungUp` for which calls the daemon has sent a hangup after a crash, and `disconnected`
which calls the phones have ended on that account. A frame is handled in three parts, between which
the card may change hands: take the pending orphan, judge it, and mark the call.

`innocent_of_reachWhere`: the calls of persons are left alone in every run in which markers are
written for calls of jobs only, no id that is still marked is minted for a call of a person, and no
phone falls back to one.
-/

set_option autoImplicit false

namespace DialF.Daemon

open DialF.Lib

/-- A call of a device, under the id that the app gave it. -/
structure CallRef where
  device : String
  id : String
  uid : Nat
  deriving DecidableEq

/-- A `call_state` frame that has not been read. -/
structure CallFrame where
  call : CallRef
  state : CallState
  deriving DecidableEq

/-- What is left to do for an active frame. -/
inductive OrphanStage where
  | judge (marked : Option String)
  | mark
  deriving DecidableEq

/-- The task that ends an orphaned call. -/
structure OrphanTask where
  call : CallRef
  stage : OrphanStage
  deriving DecidableEq

/-- The markers, the card, the frames on their way and the tasks that end orphans. -/
structure Orphans where
  markers : MarkerDir
  pendingOrphans : AList fun _ : String => String
  cardBusy : Bool
  frames : List CallFrame
  tasks : List OrphanTask
  commands : List CallRef
  seqs : AList fun _ : String => Nat
  tracked : List CallRef
  driven : List (String × Nat)
  hungUp : List (String × Nat)
  disconnected : List (String × Nat)

/-- What can happen to calls, frames and tasks. -/
inductive OrphanLabel where
  | acquireCard
  | releaseCard
  | drive (device : String) (uid : Nat)
  | callAdded (device : String) (uid : Nat)
  | report (device : String) (uid : Nat) (state : CallState)
  | callRemoved (device : String) (uid : Nat)
  | appRestart (device : String)
  | lose (i : Nat)
  | take (i : Nat)
  | judge (j : Nat)
  | mark (j : Nat)
  | crash
  | execute (j : Nat) (fallback : Nat)
  | loseCommand (j : Nat)
  deriving DecidableEq

namespace Orphans

/-- A daemon on an empty marker directory, and phones whose apps have just started. -/
def start : Orphans := ⟨∅, ∅, false, [], [], [], ∅, [], [], [], []⟩

/-- `idFor`: the id of the next new call. -/
def nextId (s : Orphans) (device : String) : String :=
  "ac-" ++ toString ((s.seqs.lookup device).getD 1)

/-- The call that the app tracks for a call of the telephony system. -/
def find (s : Orphans) (device : String) (uid : Nat) : Option CallRef :=
  s.tracked.find? fun c => decide (c.device = device ∧ c.uid = uid)

/-- `Dialf.call` with an id: the call it names. -/
def call (s : Orphans) (device id : String) : Option CallRef :=
  s.tracked.find? fun c => decide (c.device = device ∧ c.id = id)

/-- What one step does, where it can be taken. -/
def step (s : Orphans) : OrphanLabel → Option Orphans
  -- any user of the card, an audio-only one included
  | .acquireCard => if s.cardBusy then none else some { s with cardBusy := true }
  | .releaseCard => some { s with cardBusy := false }
  | .drive device uid =>
      if s.cardBusy then some { s with driven := (device, uid) :: s.driven } else none
  | .callAdded device uid =>
      if s.find device uid = none then
        some { s with
          tracked := ⟨device, s.nextId device, uid⟩ :: s.tracked
          seqs := s.seqs.insert device ((s.seqs.lookup device).getD 1 + 1) }
      else none
  | .report device uid state =>
      match s.find device uid with
      | some c => some { s with frames := s.frames ++ [⟨c, state⟩] }
      | none => none
  | .callRemoved device uid =>
      match s.find device uid with
      | some c =>
          some { s with frames := s.frames ++ [⟨c, .ended⟩], tracked := s.tracked.erase c }
      | none => none
  -- the app counts its ids from 1 again
  | .appRestart device =>
      some { s with
        tracked := s.tracked.filter fun c => decide (c.device ≠ device)
        seqs := s.seqs.erase device }
  | .lose i => some { s with frames := s.frames.eraseIdx i }
  | .take i =>
      match s.frames[i]? with
      | some f =>
          let s := { s with frames := s.frames.eraseIdx i }
          match f.state with
          | .active =>
              some { s with
                pendingOrphans := s.pendingOrphans.erase f.call.device
                tasks := s.tasks ++
                  [⟨f.call, .judge (s.pendingOrphans.lookup f.call.device)⟩] }
          | .ended =>
              some { s with
                markers := s.markers.removeCallMarker f.call.device
                pendingOrphans := s.pendingOrphans.erase f.call.device }
          | _ => some s
      | none => none
  | .judge j =>
      match s.tasks[j]? with
      | some ⟨c, .judge marked⟩ =>
          let s := { s with tasks := s.tasks.set j ⟨c, .mark⟩ }
          match marked with
          | some id =>
              -- the marker goes, whether or not the call is hung up
              let s := { s with markers := s.markers.removeCallMarker c.device }
              if id = c.id ∧ s.cardBusy = false then
                some { s with
                  commands := s.commands ++ [c]
                  hungUp := (c.device, c.uid) :: s.hungUp }
              else some s
          | none => some s
      | _ => none
  | .mark j =>
      match s.tasks[j]? with
      | some ⟨c, .mark⟩ =>
          let s := { s with tasks := s.tasks.eraseIdx j }
          if s.cardBusy then
            some { s with markers := s.markers.writeCallMarker c.device c.id }
          else some s
      | _ => none
  -- the daemon dies with its sockets, and another starts
  | .crash =>
      some { s with
        pendingOrphans := s.markers.loadCallMarkers
        cardBusy := false
        frames := []
        tasks := [] }
  -- `Telecom.hangup`: the call that the id names, else some call that is tracked
  | .execute j fallback =>
      match s.commands[j]? with
      | some c =>
          let t := { s with commands := s.commands.eraseIdx j }
          match s.call c.device c.id with
          | some found =>
              some { t with disconnected := (c.device, found.uid) :: s.disconnected }
          | none =>
              match s.find c.device fallback with
              | some _ => some { t with disconnected := (c.device, fallback) :: s.disconnected }
              | none => none
      | none => none
  | .loseCommand j => some { s with commands := s.commands.eraseIdx j }

/-- All runs from the start. -/
def machine : Machine Orphans OrphanLabel where
  Init s := s = start
  step := step

/-- Orphan recovery has sent hangups for calls of jobs only, and only such calls have ended by it. -/
def Innocent (s : Orphans) : Prop :=
  (∀ x ∈ s.hungUp, x ∈ s.driven) ∧ ∀ x ∈ s.disconnected, x ∈ s.driven

/-- The calls that are tracked, or reported by a frame that is unread or being handled. -/
def calls (s : Orphans) : List CallRef :=
  s.tracked ++ s.frames.map CallFrame.call ++ s.tasks.map OrphanTask.call

/-- The id is marked for the device: pending, on disk, being judged, or in a hangup underway. -/
def Named (s : Orphans) (device id : String) : Prop :=
  s.pendingOrphans.lookup device = some id ∨ s.markers.Marks device id ∨
    (∃ task ∈ s.tasks, task.call.device = device ∧ task.stage = .judge (some id)) ∨
    ∃ c ∈ s.commands, c.device = device ∧ c.id = id

/-- All calls that go by the id on the device are calls of jobs. -/
def OnlyDriven (s : Orphans) (device id : String) : Prop :=
  ∀ c ∈ s.calls, c.device = device → c.id = id → (device, c.uid) ∈ s.driven

/-- The step takes no call of a person for one of a job's:
* an id that is still marked for the device is minted for a call of a job only;
* a marker is written only where all calls that go by what it says are calls of jobs;
* a phone that does not know the id of a hangup falls back to a call of a job. -/
def Spares (s : Orphans) : OrphanLabel → Prop
  | .callAdded device uid => s.Named device (s.nextId device) → (device, uid) ∈ s.driven
  | .mark j =>
      match s.tasks[j]? with
      | some ⟨c, .mark⟩ =>
          s.cardBusy = true →
            match readMarker (markerText c.device c.id) with
            | some (device, id) => s.OnlyDriven device id
            | none => True
      | _ => True
  | .execute j fallback =>
      match s.commands[j]? with
      | some c => s.call c.device c.id = none → (c.device, fallback) ∈ s.driven
      | none => True
  | _ => True

instance (s : Orphans) (device id : String) : Decidable (s.Named device id) := by
  unfold Named
  infer_instance

/-- Whether a call is a job's is looked up in the list. -/
def decidableDriven (s : Orphans) (x : String × Nat) : Decidable (x ∈ s.driven) :=
  decidable_of_iff (s.driven.contains x = true) List.contains_iff_mem

instance (s : Orphans) (device id : String) : Decidable (s.OnlyDriven device id) := by
  have := s.decidableDriven
  unfold OnlyDriven
  infer_instance

instance (s : Orphans) (a : OrphanLabel) : Decidable (s.Spares a) := by
  have := s.decidableDriven
  unfold Spares
  cases a with
  | mark j =>
      simp only
      split
      · refine @instDecidableForall _ _ _ ?_
        split <;> infer_instance
      · infer_instance
  | execute j fallback =>
      simp only
      split <;> infer_instance
  | callAdded device uid =>
      simp only
      infer_instance
  | _ =>
      simp only
      infer_instance

/-- The invariant: what is marked is marked for calls of jobs. -/
structure Safe (s : Orphans) : Prop where
  named : ∀ device id, s.Named device id → s.OnlyDriven device id
  hungUp : ∀ x ∈ s.hungUp, x ∈ s.driven
  disconnected : ∀ x ∈ s.disconnected, x ∈ s.driven

variable {s t : Orphans} {device id : String} {uid i j : Nat}

theorem mem_calls {c : CallRef} :
    c ∈ s.calls ↔
      c ∈ s.tracked ∨ (∃ f ∈ s.frames, f.call = c) ∨ ∃ task ∈ s.tasks, task.call = c := by
  simp only [calls, List.mem_append, List.mem_map, or_assoc]

theorem mem_of_find {c : CallRef} (h : s.find device uid = some c) :
    c ∈ s.tracked ∧ c.device = device ∧ c.uid = uid :=
  ⟨List.mem_of_find?_eq_some h, by simpa using List.find?_some h⟩

theorem mem_of_call {c : CallRef} (h : s.call device id = some c) :
    c ∈ s.tracked ∧ c.device = device ∧ c.id = id :=
  ⟨List.mem_of_find?_eq_some h, by simpa using List.find?_some h⟩

/-! ## Steps that mark nothing and mint nothing -/

/-- Fewer calls and fewer marks are as safe. -/
theorem Safe.mono (hs : Safe s) (hcalls : ∀ c ∈ t.calls, c ∈ s.calls)
    (hnamed : ∀ device id, t.Named device id → s.Named device id)
    (hdriven : ∀ x ∈ s.driven, x ∈ t.driven) (hhung : t.hungUp = s.hungUp)
    (hdisconnected : t.disconnected = s.disconnected) : Safe t where
  named := by
    intro device id hname c hc hdev hid
    exact hdriven _ (hs.named device id (hnamed device id hname) c (hcalls c hc) hdev hid)
  hungUp := by
    intro x hx
    rw [hhung] at hx
    exact hdriven x (hs.hungUp x hx)
  disconnected := by
    intro x hx
    rw [hdisconnected] at hx
    exact hdriven x (hs.disconnected x hx)

/-- A frame about a tracked call adds no call. -/
theorem mem_calls_of_frame {c c' : CallRef} {state : CallState} {tracked : List CallRef}
    (htracked : ∀ x ∈ tracked, x ∈ s.tracked) (hc : c ∈ s.tracked)
    (hc' : c' ∈ tracked ++ (s.frames ++ [CallFrame.mk c state]).map CallFrame.call ++
      s.tasks.map OrphanTask.call) : c' ∈ s.calls := by
  simp only [List.mem_append, List.mem_map, or_assoc] at hc'
  rcases hc' with hmem | ⟨f, hold | hnew, hcall⟩ | htask
  · exact mem_calls.2 (Or.inl (htracked c' hmem))
  · exact mem_calls.2 (Or.inr (Or.inl ⟨f, hold, hcall⟩))
  · rw [List.mem_singleton.1 hnew] at hcall
    exact mem_calls.2 (Or.inl (hcall ▸ hc))
  · exact mem_calls.2 (Or.inr (Or.inr htask))

/-- The app reports a call that it tracks. -/
theorem safe_report {state : CallState} (hs : Safe s)
    (h : s.step (.report device uid state) = some t) : Safe t := by
  simp only [step] at h
  cases hfind : s.find device uid with
  | none => simp [hfind] at h
  | some c =>
      rw [hfind] at h
      obtain rfl := Option.some.inj h
      refine hs.mono ?_ (fun _ _ hname => hname) (fun _ hx => hx) rfl rfl
      intro c' hc'
      exact mem_calls_of_frame (fun _ hmem => hmem) (mem_of_find hfind).1 hc'

theorem safe_callRemoved (hs : Safe s) (h : s.step (.callRemoved device uid) = some t) :
    Safe t := by
  simp only [step] at h
  cases hfind : s.find device uid with
  | none => simp [hfind] at h
  | some c =>
      rw [hfind] at h
      obtain rfl := Option.some.inj h
      refine hs.mono ?_ (fun _ _ hname => hname) (fun _ hx => hx) rfl rfl
      intro c' hc'
      exact mem_calls_of_frame (fun _ => List.mem_of_mem_erase) (mem_of_find hfind).1 hc'

/-- Reading or losing a frame leaves fewer calls. -/
theorem mem_calls_of_eraseIdx {c : CallRef} {tasks : List OrphanTask}
    (htasks : ∀ task ∈ tasks, task.call ∈ s.calls)
    (hc : c ∈ s.tracked ++ (s.frames.eraseIdx i).map CallFrame.call ++
      tasks.map OrphanTask.call) : c ∈ s.calls := by
  simp only [List.mem_append, List.mem_map, or_assoc] at hc
  rcases hc with htracked | ⟨f, hf, hcall⟩ | ⟨task, htask, hcall⟩
  · exact mem_calls.2 (Or.inl htracked)
  · exact mem_calls.2 (Or.inr (Or.inl ⟨f, List.mem_of_mem_eraseIdx hf, hcall⟩))
  · exact hcall ▸ htasks task htask

theorem call_mem_calls_of_task {task : OrphanTask} (h : task ∈ s.tasks) : task.call ∈ s.calls :=
  mem_calls.2 (Or.inr (Or.inr ⟨task, h, rfl⟩))

/-- Taking the pending orphan moves a mark from the map to the task. -/
theorem safe_take (hs : Safe s) (h : s.step (.take i) = some t) : Safe t := by
  simp only [step] at h
  cases hi : s.frames[i]? with
  | none => simp [hi] at h
  | some f =>
      rw [hi] at h
      have hf : f.call ∈ s.calls := mem_calls.2 (Or.inr (Or.inl ⟨f, List.mem_of_getElem? hi, rfl⟩))
      cases hstate : f.state with
      | active =>
          simp only [hstate] at h
          obtain rfl := Option.some.inj h
          refine hs.mono ?_ ?_ (fun _ hx => hx) rfl rfl
          · intro c hc
            refine mem_calls_of_eraseIdx ?_ hc
            intro task htask
            rcases List.mem_append.1 htask with hold | hnew
            · exact call_mem_calls_of_task hold
            · rw [List.mem_singleton.1 hnew]
              exact hf
          · rintro device id (hpending | hmarks | ⟨task, htask, hdev, hstage⟩ | hcommand)
            · exact Or.inl (lookup_of_lookup_erase hpending)
            · exact Or.inr (Or.inl hmarks)
            -- what the new task is to judge was pending
            · rcases List.mem_append.1 htask with hold | hnew
              · exact Or.inr (Or.inr (Or.inl ⟨task, hold, hdev, hstage⟩))
              · obtain rfl := List.mem_singleton.1 hnew
                injection hstage with hmarked
                subst hdev
                exact Or.inl hmarked
            · exact Or.inr (Or.inr (Or.inr hcommand))
      | ended =>
          simp only [hstate] at h
          obtain rfl := Option.some.inj h
          refine hs.mono ?_ ?_ (fun _ hx => hx) rfl rfl
          · intro c hc
            exact mem_calls_of_eraseIdx (fun _ => call_mem_calls_of_task) hc
          · rintro device id (hpending | hmarks | hrest)
            · exact Or.inl (lookup_of_lookup_erase hpending)
            · exact Or.inr (Or.inl (MarkerDir.marks_removeCallMarker hmarks))
            · exact Or.inr (Or.inr hrest)
      | dialing | ringing =>
          simp only [hstate] at h
          obtain rfl := Option.some.inj h
          refine hs.mono ?_ (fun _ _ hname => hname) (fun _ hx => hx) rfl rfl
          intro c hc
          exact mem_calls_of_eraseIdx (fun _ => call_mem_calls_of_task) hc

/-! ## Judging and marking -/

/-- A judged task stands for its call and names nothing any more. -/
theorem mem_calls_of_judged {c c' : CallRef} {marked : Option String}
    (hj : s.tasks[j]? = some ⟨c, .judge marked⟩)
    (hc : c' ∈ s.tracked ++ s.frames.map CallFrame.call ++
      (s.tasks.set j ⟨c, .mark⟩).map OrphanTask.call) : c' ∈ s.calls := by
  simp only [List.mem_append, List.mem_map, or_assoc] at hc
  rcases hc with htracked | hframe | ⟨task, htask, hcall⟩
  · exact mem_calls.2 (Or.inl htracked)
  · exact mem_calls.2 (Or.inr (Or.inl hframe))
  · rcases List.mem_or_eq_of_mem_set htask with hold | hnew
    · exact mem_calls.2 (Or.inr (Or.inr ⟨task, hold, hcall⟩))
    · subst hnew
      exact mem_calls.2 (Or.inr (Or.inr ⟨_, List.mem_of_getElem? hj, hcall⟩))

theorem named_of_judged {c : CallRef}
    (h : ∃ task ∈ s.tasks.set j ⟨c, .mark⟩,
      task.call.device = device ∧ task.stage = .judge (some id)) :
    ∃ task ∈ s.tasks, task.call.device = device ∧ task.stage = .judge (some id) := by
  obtain ⟨task, htask, hdev, hstage⟩ := h
  rcases List.mem_or_eq_of_mem_set htask with hold | hnew
  · exact ⟨task, hold, hdev, hstage⟩
  · subst hnew
    cases hstage

/-- **An orphan that is hung up is a call of a job**, since its id is marked. -/
theorem safe_judge (hs : Safe s) (h : s.step (.judge j) = some t) : Safe t := by
  simp only [step] at h
  split at h
  · rename_i c marked hj
    have hc : c ∈ s.calls := call_mem_calls_of_task (List.mem_of_getElem? hj)
    cases marked with
    | none =>
        obtain rfl := Option.some.inj h
        refine hs.mono (fun _ => mem_calls_of_judged hj) ?_ (fun _ hx => hx) rfl rfl
        rintro device id (hpending | hmarks | htask | hcommand)
        · exact Or.inl hpending
        · exact Or.inr (Or.inl hmarks)
        · exact Or.inr (Or.inr (Or.inl (named_of_judged htask)))
        · exact Or.inr (Or.inr (Or.inr hcommand))
    | some marked =>
        simp only at h
        -- the id was marked when it was taken to be judged
        have hname : s.Named c.device marked :=
          Or.inr (Or.inr (Or.inl ⟨_, List.mem_of_getElem? hj, rfl, rfl⟩))
        split at h
        · rename_i hfires
          obtain ⟨rfl, -⟩ := hfires
          obtain rfl := Option.some.inj h
          refine ⟨?_, ?_, hs.disconnected⟩
          · rintro device id hnamed c' hc' hdev hid
            refine hs.named device id ?_ c' (mem_calls_of_judged hj hc') hdev hid
            rcases hnamed with hpending | hmarks | htask | ⟨command, hcommand, hcdev, hcid⟩
            · exact Or.inl hpending
            · exact Or.inr (Or.inl (MarkerDir.marks_removeCallMarker hmarks))
            · exact Or.inr (Or.inr (Or.inl (named_of_judged htask)))
            · rcases List.mem_append.1 hcommand with hold | hnew
              · exact Or.inr (Or.inr (Or.inr ⟨command, hold, hcdev, hcid⟩))
              · obtain rfl := List.mem_singleton.1 hnew
                rw [← hcdev, ← hcid]
                exact hname
          · intro x hx
            rcases List.mem_cons.1 hx with hnew | hold
            · rw [hnew]
              exact hs.named c.device c.id hname c hc rfl rfl
            · exact hs.hungUp x hold
        · obtain rfl := Option.some.inj h
          refine hs.mono (fun _ => mem_calls_of_judged hj) ?_ (fun _ hx => hx) rfl rfl
          rintro device id (hpending | hmarks | htask | hcommand)
          · exact Or.inl hpending
          · exact Or.inr (Or.inl (MarkerDir.marks_removeCallMarker hmarks))
          · exact Or.inr (Or.inr (Or.inl (named_of_judged htask)))
          · exact Or.inr (Or.inr (Or.inr hcommand))
  · simp at h

theorem mem_calls_of_marked {c : CallRef}
    (hc : c ∈ s.tracked ++ s.frames.map CallFrame.call ++
      (s.tasks.eraseIdx j).map OrphanTask.call) : c ∈ s.calls := by
  simp only [List.mem_append, List.mem_map, or_assoc] at hc
  rcases hc with htracked | hframe | ⟨task, htask, hcall⟩
  · exact mem_calls.2 (Or.inl htracked)
  · exact mem_calls.2 (Or.inr (Or.inl hframe))
  · exact mem_calls.2 (Or.inr (Or.inr ⟨task, List.mem_of_mem_eraseIdx htask, hcall⟩))

theorem safe_mark (hs : Safe s) (hok : s.Spares (.mark j)) (h : s.step (.mark j) = some t) :
    Safe t := by
  simp only [step] at h
  split at h
  · rename_i c hj
    simp only [Spares, hj] at hok
    have hsub : ∀ device id,
        (∃ task ∈ s.tasks.eraseIdx j,
          task.call.device = device ∧ task.stage = .judge (some id)) →
        ∃ task ∈ s.tasks, task.call.device = device ∧ task.stage = .judge (some id) := by
      rintro device id ⟨task, htask, hrest⟩
      exact ⟨task, List.mem_of_mem_eraseIdx htask, hrest⟩
    split at h
    · rename_i hbusy
      obtain rfl := Option.some.inj h
      refine ⟨?_, hs.hungUp, hs.disconnected⟩
      rintro device id hnamed c' hc' hdev hid
      have hc' := mem_calls_of_marked (s := s) (j := j) hc'
      rcases hnamed with hpending | hmarks | htask | hcommand
      · exact hs.named device id (Or.inl hpending) c' hc' hdev hid
      · rcases MarkerDir.marks_writeCallMarker hmarks with hold | hnew
        · exact hs.named device id (Or.inr (Or.inl hold)) c' hc' hdev hid
        · -- the marker just written: the condition of the step
          have honly := hok hbusy
          rw [hnew] at honly
          exact honly c' hc' hdev hid
      · exact hs.named device id (Or.inr (Or.inr (Or.inl (hsub device id htask)))) c' hc' hdev hid
      · exact hs.named device id (Or.inr (Or.inr (Or.inr hcommand))) c' hc' hdev hid
    · obtain rfl := Option.some.inj h
      refine hs.mono (fun _ => mem_calls_of_marked (s := s) (j := j)) ?_ (fun _ hx => hx) rfl rfl
      rintro device id (hpending | hmarks | htask | hcommand)
      · exact Or.inl hpending
      · exact Or.inr (Or.inl hmarks)
      · exact Or.inr (Or.inr (Or.inl (hsub device id htask)))
      · exact Or.inr (Or.inr (Or.inr hcommand))
  · simp at h

/-! ## The phone -/

theorem safe_callAdded (hs : Safe s) (hok : s.Spares (.callAdded device uid))
    (h : s.step (.callAdded device uid) = some t) : Safe t := by
  simp only [step] at h
  split at h
  · obtain rfl := Option.some.inj h
    refine ⟨?_, hs.hungUp, hs.disconnected⟩
    rintro device' id hnamed c hc hdev hid
    simp only [mem_calls, List.mem_cons] at hc
    rcases hc with (rfl | htracked) | hrest
    · -- the call whose id has just been minted: the condition of the step
      subst hdev hid
      exact hok hnamed
    · exact hs.named device' id hnamed c (mem_calls.2 (Or.inl htracked)) hdev hid
    · exact hs.named device' id hnamed c (mem_calls.2 (Or.inr hrest)) hdev hid
  · simp at h

theorem safe_execute {fallback : Nat} (hs : Safe s) (hok : s.Spares (.execute j fallback))
    (h : s.step (.execute j fallback) = some t) : Safe t := by
  simp only [step] at h
  cases hj : s.commands[j]? with
  | none => simp [hj] at h
  | some c =>
      simp only [Spares, hj] at h hok
      have hname : s.Named c.device c.id :=
        Or.inr (Or.inr (Or.inr ⟨c, List.mem_of_getElem? hj, rfl, rfl⟩))
      have hnamed : ∀ (commands : List CallRef), (∀ c ∈ commands, c ∈ s.commands) →
          ∀ device id, ({ s with commands := commands } : Orphans).Named device id →
            s.Named device id := by
        rintro commands hsub device id (hpending | hmarks | htask | ⟨c', hc', hrest⟩)
        · exact Or.inl hpending
        · exact Or.inr (Or.inl hmarks)
        · exact Or.inr (Or.inr (Or.inl htask))
        · exact Or.inr (Or.inr (Or.inr ⟨c', hsub c' hc', hrest⟩))
      have hrest := hnamed (s.commands.eraseIdx j) fun _ => List.mem_of_mem_eraseIdx
      cases hcall : s.call c.device c.id with
      | some found =>
          rw [hcall] at h
          obtain rfl := Option.some.inj h
          obtain ⟨hmem, hdev, hid⟩ := mem_of_call hcall
          refine ⟨fun device id hn => hs.named device id (hrest device id hn), hs.hungUp, ?_⟩
          intro x hx
          rcases List.mem_cons.1 hx with hnew | hold
          · rw [hnew]
            exact hs.named c.device c.id hname found (mem_calls.2 (Or.inl hmem)) hdev hid
          · exact hs.disconnected x hold
      | none =>
          simp only [hcall] at h
          split at h
          · obtain rfl := Option.some.inj h
            refine ⟨fun device id hn => hs.named device id (hrest device id hn), hs.hungUp, ?_⟩
            intro x hx
            rcases List.mem_cons.1 hx with hnew | hold
            · rw [hnew]
              exact hok hcall
            · exact hs.disconnected x hold
          · simp at h

/-- A crash turns the markers on disk into pending orphans. -/
theorem safe_crash (hs : Safe s) (h : s.step .crash = some t) : Safe t := by
  obtain rfl := Option.some.inj h
  refine hs.mono ?_ ?_ (fun _ hx => hx) rfl rfl
  · intro c hc
    rw [mem_calls] at hc
    rcases hc with htracked | ⟨f, hf, -⟩ | ⟨task, htask, -⟩
    · exact mem_calls.2 (Or.inl htracked)
    · cases hf
    · cases htask
  · rintro device id (hpending | hmarks | ⟨task, htask, -⟩ | hcommand)
    · exact Or.inr (Or.inl (MarkerDir.marks_of_load hpending))
    · exact Or.inr (Or.inl hmarks)
    · cases htask
    · exact Or.inr (Or.inr (Or.inr hcommand))

/-- **One step keeps the marks to the calls of jobs.** -/
theorem safe_step {a : OrphanLabel} (hs : Safe s) (hok : s.Spares a) (h : s.step a = some t) :
    Safe t := by
  cases a with
  | acquireCard =>
      simp only [step] at h
      split at h
      · simp at h
      · obtain rfl := Option.some.inj h
        exact ⟨hs.named, hs.hungUp, hs.disconnected⟩
  | releaseCard =>
      obtain rfl := Option.some.inj h
      exact ⟨hs.named, hs.hungUp, hs.disconnected⟩
  | drive device uid =>
      simp only [step] at h
      split at h
      · obtain rfl := Option.some.inj h
        exact hs.mono (fun _ hc => hc) (fun _ _ hname => hname)
          (fun _ hx => List.mem_cons_of_mem _ hx) rfl rfl
      · simp at h
  | callAdded device uid => exact safe_callAdded hs hok h
  | report device uid state => exact safe_report hs h
  | callRemoved device uid => exact safe_callRemoved hs h
  | appRestart device =>
      obtain rfl := Option.some.inj h
      refine hs.mono ?_ (fun _ _ hname => hname) (fun _ hx => hx) rfl rfl
      intro c hc
      rw [mem_calls] at hc ⊢
      rcases hc with htracked | hrest
      · exact Or.inl (List.mem_filter.1 htracked).1
      · exact Or.inr hrest
  | lose i =>
      obtain rfl := Option.some.inj h
      refine hs.mono ?_ (fun _ _ hname => hname) (fun _ hx => hx) rfl rfl
      exact fun c hc => mem_calls_of_eraseIdx (fun _ => call_mem_calls_of_task) hc
  | take i => exact safe_take hs h
  | judge j => exact safe_judge hs h
  | mark j => exact safe_mark hs hok h
  | crash => exact safe_crash hs h
  | execute j fallback => exact safe_execute hs hok h
  | loseCommand j =>
      obtain rfl := Option.some.inj h
      refine hs.mono (fun _ hc => hc) ?_ (fun _ hx => hx) rfl rfl
      rintro device id (hpending | hmarks | htask | ⟨c, hc, hrest⟩)
      · exact Or.inl hpending
      · exact Or.inr (Or.inl hmarks)
      · exact Or.inr (Or.inr (Or.inl htask))
      · exact Or.inr (Or.inr (Or.inr ⟨c, List.mem_of_mem_eraseIdx hc, hrest⟩))

theorem safe_start : Safe start where
  named := by
    intro device id _ c hc
    simp [start, calls] at hc
  hungUp := by simp [start]
  disconnected := by simp [start]

theorem safe_of_reachWhere : ∀ s, machine.ReachWhere Spares s → Safe s := by
  refine Machine.invariant ?_ ?_
  · rintro s rfl
    exact safe_start
  · intro s a t hs hok h
    exact safe_step hs hok h

/-- **Orphan recovery leaves the calls of persons alone, over all crashes and restarts**, in the
runs whose steps take no call of a person for one of a job's. -/
theorem innocent_of_reachWhere (s : Orphans) (h : machine.ReachWhere Spares s) : Innocent s := by
  have hs := safe_of_reachWhere s h
  exact ⟨hs.hungUp, hs.disconnected⟩

/-- The call of a job outlives the daemon, and the next daemon hangs it up. -/
def orphanedRun : List OrphanLabel :=
  [.acquireCard, .drive "p" 7, .callAdded "p" 7, .report "p" 7 .active, .take 0, .judge 0, .mark 0,
    .crash, .report "p" 7 .active, .take 0, .judge 0, .mark 0, .execute 0 0]

theorem innocent_orphanedRun :
    ∃ s, machine.run start orphanedRun = some s ∧ s.disconnected = [("p", 7)] ∧ Innocent s := by
  have hmeets : machine.Meets Spares start orphanedRun := by decide
  refine ⟨_, rfl, rfl, ?_⟩
  exact innocent_of_reachWhere _ (Machine.reachWhere_of_run (.init rfl) hmeets rfl)

/-- A person's call is up while an audio-only job holds the card; the next daemon hangs it up. -/
theorem exists_not_innocent :
    ∃ s, machine.run start
        [.acquireCard, .callAdded "p" 7, .report "p" 7 .active, .take 0, .judge 0, .mark 0, .crash,
          .report "p" 7 .active, .take 0, .judge 0, .mark 0, .execute 0 0] = some s ∧
      ¬ Innocent s := by
  refine ⟨_, rfl, fun hinnocent => ?_⟩
  exact absurd (hinnocent.1 ("p", 7) (by decide)) (by decide)

end Orphans

end DialF.Daemon
