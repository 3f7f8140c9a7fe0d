import DialF.Lib.Machine
import DialF.Daemon.Orphans

/-!
# The markers over sequences of frames

One frame after the other, as the frame handler sees them: every call of every phone passes through
the two arms that keep the markers, whether a job drives it or a person. An active frame takes the
pending orphan of its device and looks at the card twice, once to judge the orphan and once to mark
the call; `handover` says that the card changes hands in between. The file system is taken to work.

Beside the daemon's own state the machine remembers which calls the running job has dialled or
answered (`driven`), which of these have been reported active and have neither ended nor been hung
up as orphans (`live`), and which pending orphans of the last start have been neither reported
active nor ended (`waiting`).

`complete_along_iff`: the markers are complete along exactly the runs in which no frame touches the
marker of a live call of another id, or the pending orphan of another call.
-/

set_option autoImplicit false

namespace DialF.Daemon

open DialF.Lib

/-- A call by the names that frames and markers give it. -/
structure DeviceCall where
  device : String
  callId : String
  deriving DecidableEq

/-- What survives a crash, and what was made of it at the start. -/
structure Recovery where
  markers : MarkerDir
  pendingOrphans : AList fun _ : String => String

namespace Recovery

/-- The marker of the call's device names exactly the call. -/
def Names (r : Recovery) (call : DeviceCall) : Prop :=
  (r.markers.lookup (callMarkerFile call.device)).bind readMarker = some (call.device, call.callId)

instance (r : Recovery) (call : DeviceCall) : Decidable (r.Names call) :=
  inferInstanceAs (Decidable (_ = _))

/-- An active frame finds its own call pending, and no job to drive it. -/
def hangsUp (r : Recovery) (call : DeviceCall) (busy : Bool) : Bool :=
  decide (r.pendingOrphans.lookup call.device = some call.callId) && !busy

/-- The `Active` arm: the marker goes with the pending orphan, hung up or not, and the call is
marked if a job holds the card by then. -/
def active (r : Recovery) (call : DeviceCall) (busy : Bool) : Recovery :=
  let markers :=
    match r.pendingOrphans.lookup call.device with
    | some _ => r.markers.removeCallMarker call.device
    | none => r.markers
  { markers := if busy then markers.writeCallMarker call.device call.callId else markers
    pendingOrphans := r.pendingOrphans.erase call.device }

/-- The `Ended` arm. -/
def ended (r : Recovery) (call : DeviceCall) : Recovery where
  markers := r.markers.removeCallMarker call.device
  pendingOrphans := r.pendingOrphans.erase call.device

/-- The daemon starts on the markers that are there. -/
def restart (r : Recovery) : Recovery where
  markers := r.markers
  pendingOrphans := r.markers.loadCallMarkers

variable {r : Recovery} {call x : DeviceCall} {busy : Bool}

theorem lookup_removeCallMarker {dir : MarkerDir} {device file : String}
    (hfile : file = callMarkerFile device) : (dir.removeCallMarker device).lookup file = none := by
  subst hfile
  exact AList.lookup_erase ..

theorem lookup_writeCallMarker {dir : MarkerDir} {device callId file : String}
    (hfile : file = callMarkerFile device) :
    (dir.writeCallMarker device callId).lookup file = some (markerText device callId) := by
  subst hfile
  exact AList.lookup_insert ..

theorem names_ended_iff :
    (r.ended call).Names x ↔
      callMarkerFile x.device ≠ callMarkerFile call.device ∧ r.Names x := by
  by_cases hfile : callMarkerFile x.device = callMarkerFile call.device
  · simp [Names, ended, lookup_removeCallMarker hfile, hfile]
  · simp [Names, ended, MarkerDir.removeCallMarker, hfile, AList.lookup_erase_ne hfile]

/-- The marker of another file is as it was. -/
theorem names_active_of_ne (hfile : callMarkerFile x.device ≠ callMarkerFile call.device) :
    (r.active call busy).Names x ↔ r.Names x := by
  have hremove : (r.markers.removeCallMarker call.device).lookup (callMarkerFile x.device) =
      r.markers.lookup (callMarkerFile x.device) := AList.lookup_erase_ne hfile
  unfold Names active MarkerDir.writeCallMarker
  cases r.pendingOrphans.lookup call.device <;> cases busy <;>
    simp [AList.lookup_insert_ne hfile, hremove]

/-- A frame that finds the card taken leaves its own call's text. -/
theorem names_active_of_busy (hfile : callMarkerFile x.device = callMarkerFile call.device) :
    (r.active call true).Names x ↔
      readMarker (markerText call.device call.callId) = some (x.device, x.callId) := by
  simp [Names, active, lookup_writeCallMarker hfile]

/-- A frame that finds the card free leaves the marker only where nothing was pending. -/
theorem names_active_of_free (hfile : callMarkerFile x.device = callMarkerFile call.device) :
    (r.active call false).Names x ↔
      r.pendingOrphans.lookup call.device = none ∧ r.Names x := by
  cases hpending : r.pendingOrphans.lookup call.device with
  | none => simp [Names, active, hpending]
  | some id => simp [Names, active, hpending, lookup_removeCallMarker hfile]

theorem lookup_erase_iff {device callId other : String} {m : AList fun _ : String => String} :
    (m.erase other).lookup device = some callId ↔
      device ≠ other ∧ m.lookup device = some callId := by
  by_cases hdevice : device = other
  · subst hdevice
    simp [AList.lookup_erase]
  · simp [hdevice, AList.lookup_erase_ne hdevice]

end Recovery

/-- The daemon as its frames see it, and which calls the claims of completeness are about. -/
structure Marking extends Recovery where
  cardBusy : Bool
  driven : List DeviceCall
  live : List DeviceCall
  waiting : List DeviceCall

/-- What can happen to the markers of driven calls. -/
inductive MarkingLabel where
  | acquireCard
  | releaseCard
  | drive (call : DeviceCall)
  | callState (call : DeviceCall) (state : CallState) (handover : Bool)
  | restart
  deriving DecidableEq

namespace Marking

/-- The calls that the pending map names. -/
def pendingCalls (pending : AList fun _ : String => String) : List DeviceCall :=
  pending.entries.map fun e => ⟨e.1, e.2⟩

/-- A daemon that starts on any marker directory. -/
def boot (dir : MarkerDir) : Marking where
  markers := dir
  pendingOrphans := dir.loadCallMarkers
  cardBusy := false
  driven := []
  live := []
  waiting := pendingCalls dir.loadCallMarkers

/-- The card at the second look of an active frame. -/
def busyThen (s : Marking) (handover : Bool) : Bool :=
  s.cardBusy != handover

/-- The live calls behind an active frame: an orphan that is hung up is none any more, and a call
that the running job drives is one. -/
def liveAfter (s : Marking) (call : DeviceCall) (handover : Bool) : List DeviceCall :=
  let live :=
    if s.hangsUp call s.cardBusy then s.live.filter fun x => decide (x ≠ call) else s.live
  if handover = false ∧ call ∈ s.driven then call :: live else live

/-- What one step does, a restart of the daemon included. -/
def step (s : Marking) : MarkingLabel → Option Marking
  | .acquireCard => if s.cardBusy then none else some { s with cardBusy := true }
  | .releaseCard => some { s with cardBusy := false, driven := [] }
  | .drive call => if s.cardBusy then some { s with driven := call :: s.driven } else none
  | .callState call state handover =>
      match state with
      | .active =>
          some {
            toRecovery := s.toRecovery.active call (s.busyThen handover)
            cardBusy := s.busyThen handover
            driven := if handover then [] else s.driven
            live := s.liveAfter call handover
            waiting := s.waiting.filter fun x => decide (x ≠ call) }
      | .ended =>
          some { s with
            toRecovery := s.toRecovery.ended call
            live := s.live.filter fun x => decide (x ≠ call)
            waiting := s.waiting.filter fun x => decide (x ≠ call) }
      | .dialing | .ringing => some s
  | .restart =>
      some {
        toRecovery := s.toRecovery.restart
        cardBusy := false
        driven := []
        live := s.live
        waiting := pendingCalls s.toRecovery.restart.pendingOrphans }

/-- All runs of the markers, from any folder that the daemon boots on. -/
def machine : Machine Marking MarkingLabel where
  Init s := ∃ dir, s = boot dir
  step := step

/-- Every live call is named by the marker of its device, and every orphan that waits is pending. -/
def Complete (s : Marking) : Prop :=
  (∀ x ∈ s.live, s.Names x) ∧ ∀ x ∈ s.waiting, s.pendingOrphans.lookup x.device = some x.callId

/-- The frame leaves the markers of live calls and the pending orphans of other calls alone:
* a frame about one call comes while no orphan of another call waits on the device;
* an ended frame comes while no other live call has its marker in the same file;
* an active frame writes what reads as each live call with a marker in that file, or it finds the
  card free and nothing pending. -/
def Keeps (s : Marking) : MarkingLabel → Prop
  | .callState call .active handover =>
      (∀ x ∈ s.waiting, x ≠ call → x.device ≠ call.device) ∧
        ∀ x ∈ s.liveAfter call handover,
          callMarkerFile x.device = callMarkerFile call.device →
            if s.busyThen handover then
              readMarker (markerText call.device call.callId) = some (x.device, x.callId)
            else s.pendingOrphans.lookup call.device = none
  | .callState call .ended _ =>
      (∀ x ∈ s.waiting, x ≠ call → x.device ≠ call.device) ∧
        ∀ x ∈ s.live, x ≠ call → callMarkerFile x.device ≠ callMarkerFile call.device
  | _ => True

/-- A job drives calls only while it holds the card. -/
def Holds (s : Marking) : Prop :=
  ∀ x ∈ s.driven, s.cardBusy = true

variable {s t : Marking} {call x : DeviceCall} {handover : Bool}

/-! ## The calls that count -/

theorem mem_liveAfter (h : x ∈ s.liveAfter call handover) :
    x ∈ s.live ∨ x = call ∧ handover = false ∧ call ∈ s.driven := by
  have hlive : ∀ y, y ∈ (if s.hangsUp call s.cardBusy then
      s.live.filter fun x => decide (x ≠ call) else s.live) → y ∈ s.live := by
    intro y hy
    split at hy
    · exact (List.mem_filter.1 hy).1
    · exact hy
  simp only [liveAfter] at h
  split at h
  · rename_i hdriven
    rcases List.mem_cons.1 h with rfl | hold
    · exact Or.inr ⟨rfl, hdriven⟩
    · exact Or.inl (hlive x hold)
  · exact Or.inl (hlive x h)

theorem lookup_of_mem_pendingCalls {pending : AList fun _ : String => String}
    (h : x ∈ pendingCalls pending) : pending.lookup x.device = some x.callId := by
  obtain ⟨⟨device, callId⟩, he, rfl⟩ := List.mem_map.1 h
  exact AList.mem_lookup_iff.2 he

/-- Erasing the device of a call leaves the other orphans that wait pending exactly when none of
them is of that device. -/
theorem waiting_erase_iff
    (h : ∀ x ∈ s.waiting, s.pendingOrphans.lookup x.device = some x.callId) :
    (∀ x ∈ s.waiting.filter fun x => decide (x ≠ call),
        (s.pendingOrphans.erase call.device).lookup x.device = some x.callId) ↔
      ∀ x ∈ s.waiting, x ≠ call → x.device ≠ call.device := by
  constructor
  · intro hkept x hx hne
    have hmem : x ∈ s.waiting.filter fun x => decide (x ≠ call) :=
      List.mem_filter.2 ⟨hx, decide_eq_true hne⟩
    exact (Recovery.lookup_erase_iff.1 (hkept x hmem)).1
  · intro hother x hx
    obtain ⟨hmem, hne⟩ := List.mem_filter.1 hx
    exact Recovery.lookup_erase_iff.2 ⟨hother x hmem (of_decide_eq_true hne), h x hmem⟩

/-! ## What one frame keeps -/

/-- The marker of a call behind an active frame, of a call that was named before or is marked now. -/
theorem names_active_iff {r : Recovery} {busy : Bool} (h : r.Names x ∨ busy = true) :
    (r.active call busy).Names x ↔
      (callMarkerFile x.device = callMarkerFile call.device →
        if busy then readMarker (markerText call.device call.callId) = some (x.device, x.callId)
        else r.pendingOrphans.lookup call.device = none) ∧
      (callMarkerFile x.device ≠ callMarkerFile call.device → r.Names x) := by
  by_cases hfile : callMarkerFile x.device = callMarkerFile call.device
  · cases busy with
    | true => simp [Recovery.names_active_of_busy hfile, hfile]
    | false =>
        have hnames : r.Names x := h.resolve_right (by simp)
        simp [Recovery.names_active_of_free hfile, hfile, hnames]
  · simp [Recovery.names_active_of_ne hfile, hfile]

theorem complete_active_iff (hholds : s.Holds) (hs : s.Complete)
    (h : s.step (.callState call .active handover) = some t) :
    t.Complete ↔ s.Keeps (.callState call .active handover) := by
  obtain rfl := Option.some.inj h
  refine Iff.trans and_comm (and_congr (waiting_erase_iff hs.2) ?_)
  refine forall₂_congr fun x hx => ?_
  rcases mem_liveAfter hx with hlive | ⟨rfl, rfl, hdriven⟩
  · rw [names_active_iff (Or.inl (hs.1 x hlive))]
    exact and_iff_left fun _ => hs.1 x hlive
  · -- the call that is marked now: the job that drives it holds the card
    have hbusy : s.busyThen false = true := by simp [busyThen, hholds x hdriven]
    rw [names_active_iff (Or.inr hbusy)]
    exact and_iff_left fun hfile => absurd rfl hfile

theorem complete_ended_iff (hs : s.Complete)
    (h : s.step (.callState call .ended handover) = some t) :
    t.Complete ↔ s.Keeps (.callState call .ended handover) := by
  obtain rfl := Option.some.inj h
  refine Iff.trans and_comm (and_congr (waiting_erase_iff hs.2) ?_)
  constructor
  · intro hkept x hx hne
    have hmem : x ∈ s.live.filter fun x => decide (x ≠ call) :=
      List.mem_filter.2 ⟨hx, decide_eq_true hne⟩
    exact (Recovery.names_ended_iff.1 (hkept x hmem)).1
  · intro hother x hx
    obtain ⟨hmem, hne⟩ := List.mem_filter.1 hx
    exact Recovery.names_ended_iff.2 ⟨hother x hmem (of_decide_eq_true hne), hs.1 x hmem⟩

/-- The markers stay where they are, and exactly what they name is pending. -/
theorem complete_restart (hs : s.Complete) (h : s.step .restart = some t) : t.Complete := by
  obtain rfl := Option.some.inj h
  exact ⟨hs.1, fun _ => lookup_of_mem_pendingCalls⟩

/-- **One step keeps the markers complete exactly when it meets the condition.** -/
theorem complete_step_iff {a : MarkingLabel} (hholds : s.Holds) (hs : s.Complete)
    (h : s.step a = some t) : t.Complete ↔ s.Keeps a := by
  cases a with
  | acquireCard =>
      obtain ⟨-, h⟩ := Option.ite_none_left_eq_some.1 h
      obtain rfl := Option.some.inj h
      exact iff_of_true hs trivial
  | releaseCard =>
      obtain rfl := Option.some.inj h
      exact iff_of_true hs trivial
  | drive call =>
      obtain ⟨-, h⟩ := Option.ite_none_right_eq_some.1 h
      obtain rfl := Option.some.inj h
      exact iff_of_true hs trivial
  | callState call state handover =>
      cases state with
      | active => exact complete_active_iff hholds hs h
      | ended => exact complete_ended_iff hs h
      | dialing | ringing =>
          obtain rfl := Option.some.inj h
          exact iff_of_true hs trivial
  | restart => exact iff_of_true (complete_restart hs h) trivial

theorem holds_step {a : MarkingLabel} (hs : s.Holds) (h : s.step a = some t) : t.Holds := by
  cases a with
  | acquireCard =>
      obtain ⟨-, h⟩ := Option.ite_none_left_eq_some.1 h
      obtain rfl := Option.some.inj h
      exact fun _ _ => rfl
  | releaseCard =>
      obtain rfl := Option.some.inj h
      exact fun x hx => absurd hx (by simp)
  | drive call =>
      obtain ⟨hbusy, h⟩ := Option.ite_none_right_eq_some.1 h
      obtain rfl := Option.some.inj h
      exact fun _ _ => hbusy
  | callState call state handover =>
      cases state with
      | active =>
          obtain rfl := Option.some.inj h
          cases handover with
          | true => exact fun x hx => absurd hx (by simp)
          | false =>
              intro x hx
              have hbusy := hs x hx
              simp [busyThen, hbusy]
      | ended | dialing | ringing =>
          obtain rfl := Option.some.inj h
          exact hs
  | restart =>
      obtain rfl := Option.some.inj h
      exact fun x hx => absurd hx (by simp)

theorem complete_boot (dir : MarkerDir) : (boot dir).Complete :=
  ⟨fun x hx => absurd hx (by simp [boot]), fun _ => lookup_of_mem_pendingCalls⟩

/-- **The markers are complete along exactly the runs whose frames leave them to their calls**, for
every sequence of frames, job starts and ends, and restarts, from every marker directory. -/
theorem complete_along_iff (dir : MarkerDir) (as : List MarkingLabel) :
    machine.Along Complete (boot dir) as ↔ machine.Meets Keeps (boot dir) as := by
  apply Machine.along_iff_meets (I := Holds)
  · intro s a t hs h
    exact holds_step hs h
  · intro s a t hholds hs h
    exact complete_step_iff hholds hs h
  · exact fun x hx => absurd hx (by simp [boot])
  · exact complete_boot dir

/-- A second call of the phone ends while a job's call is up, and the marker of the job's call is
gone. -/
theorem not_complete_of_secondEnded :
    ¬ machine.Along Complete (boot ∅)
      [.acquireCard, .drive ⟨"p", "ac-1"⟩, .callState ⟨"p", "ac-1"⟩ .active false,
        .callState ⟨"p", "ac-2"⟩ .ended false] := by
  rintro ⟨-, -, -, -, hcomplete⟩
  have hnames := hcomplete.1 ⟨"p", "ac-1"⟩ (by decide)
  exact absurd hnames (by decide)

end Marking

/-! ## A frame in one step and in three -/

namespace Orphans

/-- The labels by which the card changes hands, or does not. -/
def handoverLabels (busy handover : Bool) : List OrphanLabel :=
  if handover then [if busy then .releaseCard else .acquireCard] else []

/-- An active frame that is taken, judged and marked without another frame in between does what the
`Active` arm does. -/
theorem run_active {s : Orphans} {i : Nat} {c : CallRef} (hframe : s.frames[i]? = some ⟨c, .active⟩)
    (handover : Bool) :
    ∃ t, machine.run s (.take i :: .judge s.tasks.length ::
          (handoverLabels s.cardBusy handover ++ [.mark s.tasks.length])) = some t ∧
      t.cardBusy = (s.cardBusy != handover) ∧ t.tasks = s.tasks ∧
      t.hungUp =
        (if (Recovery.mk s.markers s.pendingOrphans).hangsUp ⟨c.device, c.id⟩ s.cardBusy then
          (c.device, c.uid) :: s.hungUp
        else s.hungUp) ∧
      Recovery.mk t.markers t.pendingOrphans =
        (Recovery.mk s.markers s.pendingOrphans).active ⟨c.device, c.id⟩
          (s.cardBusy != handover) := by
  have herase : (s.tasks ++ [OrphanTask.mk c .mark]).eraseIdx s.tasks.length = s.tasks := by
    simp [List.eraseIdx_append_of_length_le]
  cases hpending : s.pendingOrphans.lookup c.device with
  | none =>
      cases handover <;> cases hbusy : s.cardBusy <;>
        simp [Machine.run, machine, step, handoverLabels, hframe, hpending, hbusy, herase,
          Recovery.active, Recovery.hangsUp]
  | some id =>
      cases handover <;> cases hbusy : s.cardBusy <;> by_cases hid : id = c.id <;>
        simp [Machine.run, machine, step, handoverLabels, hframe, hpending, hbusy, hid, herase,
          Recovery.active, Recovery.hangsUp]

theorem step_take_ended {s : Orphans} {i : Nat} {c : CallRef}
    (hframe : s.frames[i]? = some ⟨c, .ended⟩) :
    ∃ t, s.step (.take i) = some t ∧
      Recovery.mk t.markers t.pendingOrphans =
        (Recovery.mk s.markers s.pendingOrphans).ended ⟨c.device, c.id⟩ := by
  simp [step, hframe, Recovery.ended]

theorem step_crash (s : Orphans) :
    ∃ t, s.step .crash = some t ∧ t.cardBusy = false ∧
      Recovery.mk t.markers t.pendingOrphans =
        (Recovery.mk s.markers s.pendingOrphans).restart := by
  simp [step, Recovery.restart]

end Orphans

end DialF.Daemon
