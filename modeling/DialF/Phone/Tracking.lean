import Mathlib.Data.List.AList
import Std.Data.String.ToNat
import DialF.Lib.Machine
import DialF.Lib.Table
import DialF.Phone.Dialf

/-!
# Calls that come and go under two threads

The bridge keeps the tracked calls in two maps, from ids to calls and back, and each of its methods
holds its lock. The main thread reports a call when it is added and when its state changes, and
forgets it when it is removed. As a socket opens, its thread picks a tracked call and reports it
again. A report takes the id, the state and the frame one after the other, without the lock in
between, and a call that has no id gets one.

The maps are inverse to each other and no id is given twice, whatever the threads do.
`settled_of_clear`: what is removed stays removed in every run in which no call is forgotten that a
socket's thread is about to name, or to report as it was. `not_settled_ghost` is a run in which one
is.
-/

set_option autoImplicit false

namespace DialF.Phone

open DialF.Lib DialF.Daemon

/-! ## The two maps -/

/-- `Dialf`'s `seq`, `idToCall` and `callToId`. A call is known by its object. -/
structure CallMaps where
  seq : Nat
  idToCall : AList fun _ : String => Nat
  callToId : AList fun _ : Nat => String

namespace CallMaps

/-- No call, and the first id to be given. -/
def start : CallMaps := ⟨1, ∅, ∅⟩

/-- `idFor`: an id of its own for each call. -/
def idFor (d : CallMaps) (uid : Nat) : CallMaps × String :=
  match d.callToId.lookup uid with
  | some id => (d, id)
  | none =>
      let id := "ac-" ++ toString d.seq
      (⟨d.seq + 1, d.idToCall.insert id uid, d.callToId.insert uid id⟩, id)

/-- `forget`, in both maps. -/
def forget (d : CallMaps) (uid : Nat) : CallMaps :=
  match d.callToId.lookup uid with
  | some id => { d with callToId := d.callToId.erase uid, idToCall := d.idToCall.erase id }
  | none => d

/-- `call` may return this call: the one with the id, or any that the values come first with. -/
def MayReturn (d : CallMaps) (id : Option String) (uid : Nat) : Prop :=
  match id.bind fun id => d.idToCall.lookup id with
  | some found => found = uid
  | none => ∃ id, d.idToCall.lookup id = some uid

/-- The maps are inverse to each other. -/
def Inverse (d : CallMaps) : Prop :=
  ∀ id uid, d.idToCall.lookup id = some uid ↔ d.callToId.lookup uid = some id

/-- Every id in use has been counted. -/
def Counted (d : CallMaps) : Prop :=
  ∀ id uid, d.idToCall.lookup id = some uid → ∃ n < d.seq, id = "ac-" ++ toString n

theorem id_injective {n m : Nat} (h : "ac-" ++ toString n = "ac-" ++ toString m) : n = m :=
  Nat.repr_injective (String.append_right_inj _ |>.1 h)

section Lemmas

variable {d : CallMaps} {uid uid' : Nat} {id id' : String}

theorem unused (hcounted : d.Counted) : d.idToCall.lookup ("ac-" ++ toString d.seq) = none := by
  cases hlookup : d.idToCall.lookup ("ac-" ++ toString d.seq) with
  | none => rfl
  | some uid =>
      obtain ⟨n, hn, hid⟩ := hcounted _ uid hlookup
      have heq := id_injective hid
      omega

theorem inverse_idFor (uid : Nat) (h : d.Inverse) (hcounted : d.Counted) :
    (d.idFor uid).1.Inverse ∧ (d.idFor uid).1.Counted := by
  rw [idFor]
  cases hlookup : d.callToId.lookup uid with
  | some id => exact ⟨h, hcounted⟩
  | none =>
      have hunused := unused hcounted
      refine ⟨fun id uid' => ?_, fun id uid' hid => ?_⟩
      · by_cases hnew : id = "ac-" ++ toString d.seq
        · by_cases hown : uid' = uid
          · rw [hnew, hown, AList.lookup_insert, AList.lookup_insert]
            exact iff_of_true rfl rfl
          · rw [hnew, AList.lookup_insert, AList.lookup_insert_ne hown]
            refine iff_of_false (fun heq => hown (Option.some.inj heq).symm) fun hold => ?_
            rw [← h, hunused] at hold
            cases hold
        · rw [AList.lookup_insert_ne hnew]
          by_cases hown : uid' = uid
          · rw [hown, AList.lookup_insert, h, hlookup]
            exact iff_of_false (by simp) fun heq => hnew (Option.some.inj heq).symm
          · rw [AList.lookup_insert_ne hown]
            exact h id uid'
      · by_cases hnew : id = "ac-" ++ toString d.seq
        · exact ⟨d.seq, Nat.lt_succ_self _, hnew⟩
        · rw [AList.lookup_insert_ne hnew] at hid
          obtain ⟨n, hn, rfl⟩ := hcounted id uid' hid
          exact ⟨n, Nat.lt_succ_of_lt hn, rfl⟩

theorem inverse_forget (uid : Nat) (h : d.Inverse) (hcounted : d.Counted) :
    (d.forget uid).Inverse ∧ (d.forget uid).Counted := by
  rw [forget]
  cases hlookup : d.callToId.lookup uid with
  | none => exact ⟨h, hcounted⟩
  | some id =>
      refine ⟨fun id' uid' => ?_, fun id' uid' hid => ?_⟩
      · by_cases hid : id' = id
        · rw [hid, AList.lookup_erase]
          refine iff_of_false (by simp) fun hother => ?_
          by_cases hown : uid' = uid
          · rw [hown, AList.lookup_erase] at hother
            cases hother
          · rw [AList.lookup_erase_ne hown, ← h] at hother
            rw [← h, hother] at hlookup
            exact hown (Option.some.inj hlookup)
        · rw [AList.lookup_erase_ne hid]
          by_cases hown : uid' = uid
          · rw [hown, AList.lookup_erase, h, hlookup]
            exact iff_of_false (fun heq => hid (Option.some.inj heq).symm) (by simp)
          · rw [AList.lookup_erase_ne hown]
            exact h id' uid'
      · by_cases heq : id' = id
        · rw [heq, AList.lookup_erase] at hid
          cases hid
        · rw [AList.lookup_erase_ne heq] at hid
          exact hcounted id' uid' hid

/-- Naming a call leaves the others tracked as they were. -/
theorem idFor_lookup_ne (h : uid' ≠ uid) :
    (d.idFor uid).1.callToId.lookup uid' = d.callToId.lookup uid' := by
  rw [idFor]
  cases d.callToId.lookup uid with
  | some id => rfl
  | none => exact AList.lookup_insert_ne h

theorem idFor_lookup_self : (d.idFor uid).1.callToId.lookup uid = some (d.idFor uid).2 := by
  rw [idFor]
  cases hlookup : d.callToId.lookup uid with
  | some id => exact hlookup
  | none => exact AList.lookup_insert _

theorem idFor_seq : d.seq ≤ (d.idFor uid).1.seq := by
  rw [idFor]
  split
  · exact Nat.le_refl _
  · exact Nat.le_succ _

theorem forget_lookup_self : (d.forget uid).callToId.lookup uid = none := by
  rw [forget]
  cases hlookup : d.callToId.lookup uid with
  | some id => exact AList.lookup_erase _ _
  | none => exact hlookup

theorem forget_lookup_ne (h : uid' ≠ uid) :
    (d.forget uid).callToId.lookup uid' = d.callToId.lookup uid' := by
  rw [forget]
  cases d.callToId.lookup uid with
  | some id => exact AList.lookup_erase_ne h
  | none => rfl

theorem forget_lookup (h : (d.forget uid).callToId.lookup uid' = some id) :
    d.callToId.lookup uid' = some id := by
  by_cases hown : uid' = uid
  · rw [hown, forget_lookup_self] at h
    cases h
  · exact (forget_lookup_ne hown).symm.trans h

theorem forget_seq : (d.forget uid).seq = d.seq := by
  rw [forget]
  split <;> rfl

/-- A call that is not tracked is returned for no id. -/
theorem not_mayReturn (h : d.Inverse) (huid : d.callToId.lookup uid = none) (id : Option String) :
    ¬ d.MayReturn id uid := by
  have hnone : ∀ id, d.idToCall.lookup id ≠ some uid := by
    intro id hid
    rw [h, huid] at hid
    cases hid
  rw [MayReturn]
  cases hfound : id.bind fun id => d.idToCall.lookup id with
  | some found =>
      rintro rfl
      obtain ⟨id', -, hid'⟩ := Option.bind_eq_some_iff.1 hfound
      exact hnone id' hid'
  | none =>
      rintro ⟨id', hid'⟩
      exact hnone id' hid'

end Lemmas

end CallMaps

/-! ## The list of tracked calls -/

/-- The maps hold what the list of tracked calls holds. -/
def Tracks (m : CallMaps) (d : Dialf) : Prop :=
  m.seq = d.seq ∧
    ∀ uid id, m.callToId.lookup uid = some id ↔ ∃ c ∈ d.calls, c.uid = uid ∧ c.id = id

section Tracks

variable {m : CallMaps} {d : Dialf}

theorem Tracks.lookup (h : Tracks m d) (uid : Nat) :
    m.callToId.lookup uid = (d.find uid).map TrackedCall.id := by
  cases hfind : d.find uid with
  | some c =>
      have huid : c.uid = uid := by simpa [Dialf.find] using List.find?_some hfind
      exact (h.2 uid c.id).2 ⟨c, Dialf.mem_of_find hfind, huid, rfl⟩
  | none =>
      cases hlookup : m.callToId.lookup uid with
      | none => rfl
      | some id =>
          obtain ⟨c, hc, huid, -⟩ := (h.2 uid id).1 hlookup
          exact absurd huid (by simpa using List.find?_eq_none.1 hfind c hc)

theorem Tracks.idFor (h : Tracks m d) (uid : Nat) (state : CallState) :
    (m.idFor uid).2 = (d.idFor uid state).2 ∧ Tracks (m.idFor uid).1 (d.idFor uid state).1 := by
  have hlookup := h.lookup uid
  rw [CallMaps.idFor, Dialf.idFor]
  cases hfind : d.find uid with
  | some c =>
      rw [hfind, Option.map_some] at hlookup
      rw [hlookup]
      exact ⟨rfl, h⟩
  | none =>
      rw [hfind, Option.map_none] at hlookup
      rw [hlookup]
      -- neither has it: both give it the next number
      refine ⟨by rw [Dialf.nextId, h.1], by rw [h.1], fun uid' id => ?_⟩
      simp only [Dialf.nextId, h.1]
      by_cases hown : uid' = uid
      · subst hown
        rw [AList.lookup_insert]
        constructor
        · intro hid
          exact ⟨_, List.mem_append_right _ List.mem_cons_self, rfl, Option.some.inj hid⟩
        · rintro ⟨c, hc, huid, rfl⟩
          rcases List.mem_append.1 hc with hold | hnew
          · exact absurd huid (by simpa using List.find?_eq_none.1 hfind c hold)
          · rw [List.mem_singleton.1 hnew]
      · rw [AList.lookup_insert_ne hown, h.2]
        constructor
        · rintro ⟨c, hc, hrest⟩
          exact ⟨c, List.mem_append_left _ hc, hrest⟩
        · rintro ⟨c, hc, huid, hid⟩
          rcases List.mem_append.1 hc with hold | hnew
          · exact ⟨c, hold, huid, hid⟩
          · rw [List.mem_singleton.1 hnew] at huid
            exact absurd huid.symm hown

theorem Tracks.forget (h : Tracks m d) (uid : Nat) : Tracks (m.forget uid) (d.forget uid) := by
  refine ⟨CallMaps.forget_seq.trans h.1, fun uid' id => ?_⟩
  simp only [Dialf.forget, List.mem_filter, decide_eq_true_eq]
  by_cases hown : uid' = uid
  · subst hown
    rw [CallMaps.forget_lookup_self]
    refine iff_of_false (by simp) ?_
    rintro ⟨c, ⟨-, hne⟩, huid, -⟩
    exact hne huid
  · rw [CallMaps.forget_lookup_ne hown, h.2]
    constructor
    · rintro ⟨c, hc, huid, hid⟩
      exact ⟨c, ⟨hc, huid ▸ hown⟩, huid, hid⟩
    · rintro ⟨c, ⟨hc, -⟩, hrest⟩
      exact ⟨c, hc, hrest⟩

end Tracks

/-! ## Reports -/

/-- States of a call of the telephony system. -/
inductive TelecomState where
  | new
  | dialing
  | ringing
  | holding
  | active
  | disconnected
  | selectPhoneAccount
  | connecting
  | disconnecting
  | pullingCall
  | audioProcessing
  | simulatedRinging
  deriving DecidableEq

/-- The state that a report gives. -/
def TelecomState.reported : TelecomState → CallState
  | .ringing => .ringing
  | .dialing => .dialing
  | .connecting => .dialing
  | .disconnected => .ended
  | _ => .active

/-- How far `emitCallState` has come with a call. -/
inductive ReportStage where
  | picked
  | named (id : String)
  | read (id : String) (state : CallState)
  deriving DecidableEq

/-- A report under way. -/
structure Report where
  uid : Nat
  stage : ReportStage
  deriving DecidableEq

/-- What the main thread does. -/
inductive MainTask where
  | report (r : Report)
  | removing (uid : Nat)
  | removingAs (uid : Nat) (id : String)
  | forgetting (uid : Nat)
  deriving DecidableEq

/-- The call that a task is about. -/
def MainTask.uid : MainTask → Nat
  | .report r => r.uid
  | .removing uid => uid
  | .removingAs uid _ => uid
  | .forgetting uid => uid

/-- A frame that has gone out, with the call that it is of and whether that had been removed. -/
structure SentFrame where
  uid : Nat
  late : Bool
  report : CallReport
  deriving DecidableEq

/-- `given` has the ids that calls were given, which nothing reads. -/
structure Tracking where
  maps : CallMaps
  state : Nat → TelecomState
  added : List Nat
  removed : List Nat
  main : Option MainTask
  reports : List Report
  frames : List SentFrame
  given : List (String × Nat)

/-- A step that sends a frame finds the call's number and direction. -/
inductive TrackLabel where
  | callAdded (uid : Nat) (state : TelecomState)
  | stateChanged (uid : Nat) (state : TelecomState)
  | callRemoved (uid : Nat)
  | main (number : Option String) (direction : Direction)
  /-- A socket opens, and its thread picks the first of the values, the one with this id. -/
  | pick (id : String)
  | report (j : Nat) (number : Option String) (direction : Direction)

namespace Tracking

/-- No call yet. -/
def start : Tracking := ⟨.start, fun _ => .new, [], [], none, [], [], []⟩

/-- A call is given its id. -/
def name (s : Tracking) (uid : Nat) : Tracking :=
  { s with maps := (s.maps.idFor uid).1, given := ((s.maps.idFor uid).2, uid) :: s.given }

/-- A frame goes out. -/
def emit (s : Tracking) (uid : Nat) (report : CallReport) : Tracking :=
  { s with frames := s.frames ++ [⟨uid, decide (uid ∈ s.removed), report⟩] }

/-- One step of `emitCallState`. -/
def advance (s : Tracking) (r : Report) (number : Option String) (direction : Direction) :
    Tracking × Option Report :=
  match r.stage with
  | .picked => (s.name r.uid, some ⟨r.uid, .named (s.maps.idFor r.uid).2⟩)
  | .named id => (s, some ⟨r.uid, .read id (s.state r.uid).reported⟩)
  | .read id state => (s.emit r.uid ⟨id, state, number, direction⟩, none)

/-- What one step does, where it can be taken. -/
def step (s : Tracking) : TrackLabel → Option Tracking
  | .callAdded uid state =>
      if s.main = none ∧ uid ∉ s.added then
        some { s with
          state := Function.update s.state uid state
          added := uid :: s.added
          main := some (.report ⟨uid, .picked⟩) }
      else none
  | .stateChanged uid state =>
      if s.main = none ∧ uid ∈ s.added ∧ uid ∉ s.removed then
        some { s with
          state := Function.update s.state uid state
          main := some (.report ⟨uid, .picked⟩) }
      else none
  | .callRemoved uid =>
      if s.main = none ∧ uid ∈ s.added ∧ uid ∉ s.removed then
        some { s with main := some (.removing uid) }
      else none
  | .main number direction =>
      match s.main with
      | none => none
      | some (.report r) =>
          let (t, r') := s.advance r number direction
          some { t with main := r'.map .report }
      | some (.removing uid) =>
          some { s.name uid with main := some (.removingAs uid (s.maps.idFor uid).2) }
      | some (.removingAs uid id) =>
          some { s.emit uid ⟨id, .ended, number, .incoming⟩ with main := some (.forgetting uid) }
      | some (.forgetting uid) =>
          some { s with
            maps := s.maps.forget uid
            removed := uid :: s.removed
            main := none }
  | .pick id =>
      (s.maps.idToCall.lookup id).map fun uid =>
        { s with reports := s.reports ++ [⟨uid, .picked⟩] }
  | .report j number direction =>
      match s.reports[j]? with
      | none => none
      | some r =>
          match s.advance r number direction with
          | (t, some r') => some { t with reports := t.reports.set j r' }
          | (t, none) => some { t with reports := t.reports.eraseIdx j }

/-- All runs of the app's call tracking. -/
def machine : Machine Tracking TrackLabel where
  Init s := s = start
  step := step

/-- **What is removed stays removed**, and the maps are sound. -/
structure Settled (s : Tracking) : Prop where
  inverse : s.maps.Inverse
  once : ∀ id uid uid', (id, uid) ∈ s.given → (id, uid') ∈ s.given → uid = uid'
  untracked : ∀ uid ∈ s.removed, ∀ id, s.maps.idToCall.lookup id ≠ some uid
  frames : ∀ f ∈ s.frames, f.late = true → f.report.state = .ended
  call : ∀ uid ∈ s.removed, ∀ id, ¬ s.maps.MayReturn id uid
  ringing : ∀ uid ∈ s.removed, ¬ ∃ id, s.maps.idToCall.lookup id = some uid ∧ s.state uid = .ringing

/-- The report is not about to track its call, nor to give another state than that it has ended. -/
def Harmless (s : Tracking) (r : Report) : Prop :=
  match r.stage with
  | .picked => False
  | .named _ => (s.state r.uid).reported = .ended
  | .read _ state => state = .ended

instance (s : Tracking) : ∀ r : Report, Decidable (s.Harmless r)
  | ⟨_, .picked⟩ => .isFalse id
  | ⟨uid, .named _⟩ => inferInstanceAs (Decidable ((s.state uid).reported = .ended))
  | ⟨_, .read _ state⟩ => inferInstanceAs (Decidable (state = .ended))

/-- The call that the main thread is about to forget. -/
def forgets (s : Tracking) : Option Nat :=
  match s.main with
  | some (.forgetting uid) => some uid
  | _ => none

/-- A call is forgotten only where the reports of it that are under way are harmless. -/
def Clear (s : Tracking) : TrackLabel → Prop
  | .main _ _ => ∀ uid ∈ s.forgets, ∀ r ∈ s.reports, r.uid = uid → s.Harmless r
  | _ => True

instance (s : Tracking) : ∀ a : TrackLabel, Decidable (s.Clear a)
  | .main _ _ =>
      inferInstanceAs (Decidable (∀ uid ∈ s.forgets, ∀ r ∈ s.reports, r.uid = uid → s.Harmless r))
  | .callAdded _ _ => .isTrue trivial
  | .stateChanged _ _ => .isTrue trivial
  | .callRemoved _ => .isTrue trivial
  | .pick _ => .isTrue trivial
  | .report _ _ _ => .isTrue trivial

/-! ## The invariant -/

/-- What holds of the maps and the ids, in whatever order the threads come. -/
structure Sound (s : Tracking) : Prop where
  inverse : s.maps.Inverse
  counted : s.maps.Counted
  given : ∀ id uid, s.maps.callToId.lookup uid = some id → (id, uid) ∈ s.given
  givenCounted : ∀ id uid, (id, uid) ∈ s.given → ∃ n < s.maps.seq, id = "ac-" ++ toString n
  once : ∀ id uid uid', (id, uid) ∈ s.given → (id, uid') ∈ s.given → uid = uid'

/-- What holds throughout: a removed call is tracked no longer, and late frames report its end. -/
structure Inv (s : Tracking) : Prop where
  sound : s.Sound
  added : ∀ uid ∈ s.removed, uid ∈ s.added
  main : ∀ task, s.main = some task → task.uid ∉ s.removed ∧ task.uid ∈ s.added
  untracked : ∀ uid ∈ s.removed, s.maps.callToId.lookup uid = none
  reports : ∀ r ∈ s.reports, r.uid ∈ s.removed → s.Harmless r
  frames : ∀ f ∈ s.frames, f.late = true → f.report.state = .ended

section Steps

variable {s : Tracking} {uid : Nat} {r : Report} {number : Option String} {direction : Direction}

theorem start_sound : start.Sound := by
  constructor
  all_goals simp [start, CallMaps.start, CallMaps.Inverse, CallMaps.Counted]

theorem start_inv : start.Inv := by
  refine ⟨start_sound, ?_, ?_, ?_, ?_, ?_⟩
  all_goals simp [start]

theorem harmless_congr {t : Tracking} (h : t.state r.uid = s.state r.uid) :
    t.Harmless r ↔ s.Harmless r := by
  obtain ⟨uid, stage⟩ := r
  cases stage with
  | picked => exact Iff.rfl
  | named id => simp only [Harmless, h]
  | read id state => exact Iff.rfl

theorem Sound.name (h : s.Sound) (uid : Nat) : (s.name uid).Sound := by
  obtain ⟨hinverse, hcounted⟩ := CallMaps.inverse_idFor uid h.inverse h.counted
  -- an id that was given before was given to this call
  have hsame : ∀ uid', ((s.maps.idFor uid).2, uid') ∈ s.given → uid' = uid := by
    intro uid' hgiven
    rw [CallMaps.idFor] at hgiven
    cases hlookup : s.maps.callToId.lookup uid with
    | some id =>
        rw [hlookup] at hgiven
        exact h.once id uid' uid hgiven (h.given id uid hlookup)
    | none =>
        rw [hlookup] at hgiven
        obtain ⟨n, hn, hid⟩ := h.givenCounted _ uid' hgiven
        have heq := CallMaps.id_injective hid
        omega
  refine ⟨hinverse, hcounted, ?_, ?_, ?_⟩
  · intro id uid' hlookup
    by_cases hown : uid' = uid
    · subst hown
      have hid := Option.some.inj (hlookup.symm.trans CallMaps.idFor_lookup_self)
      rw [hid]
      exact List.mem_cons_self
    · have hold := h.given id uid' ((CallMaps.idFor_lookup_ne hown).symm.trans hlookup)
      exact List.mem_cons_of_mem _ hold
  · intro id uid' hgiven
    rcases List.mem_cons.1 hgiven with heq | hold
    · obtain ⟨rfl, rfl⟩ := Prod.mk.inj heq
      exact hcounted _ uid' ((hinverse _ uid').2 CallMaps.idFor_lookup_self)
    · obtain ⟨n, hn, hid⟩ := h.givenCounted id uid' hold
      exact ⟨n, Nat.lt_of_lt_of_le hn CallMaps.idFor_seq, hid⟩
  · intro id uid₁ uid₂ h₁ h₂
    rcases List.mem_cons.1 h₁ with heq₁ | h₁
    · obtain ⟨rfl, rfl⟩ := Prod.mk.inj heq₁
      rcases List.mem_cons.1 h₂ with heq₂ | h₂
      · exact (Prod.mk.inj heq₂).2.symm
      · exact (hsame uid₂ h₂).symm
    · rcases List.mem_cons.1 h₂ with heq₂ | h₂
      · obtain ⟨rfl, rfl⟩ := Prod.mk.inj heq₂
        exact hsame uid₁ h₁
      · exact h.once id uid₁ uid₂ h₁ h₂

theorem Sound.forget {t : Tracking} (h : s.Sound) (uid : Nat) (hmaps : t.maps = s.maps.forget uid)
    (hgiven : t.given = s.given) : t.Sound := by
  obtain ⟨hinverse, hcounted⟩ := CallMaps.inverse_forget uid h.inverse h.counted
  refine ⟨hmaps ▸ hinverse, hmaps ▸ hcounted, ?_, ?_, hgiven ▸ h.once⟩
  · intro id uid' hlookup
    rw [hmaps] at hlookup
    exact hgiven ▸ h.given id uid' (CallMaps.forget_lookup hlookup)
  · intro id uid' hold
    rw [hmaps, CallMaps.forget_seq]
    exact h.givenCounted id uid' (hgiven ▸ hold)

theorem Sound.advance (h : s.Sound) (r : Report) (number : Option String) (direction : Direction) :
    (s.advance r number direction).1.Sound := by
  obtain ⟨uid, stage⟩ := r
  cases stage with
  | picked => exact h.name uid
  | named id => exact h
  | read id state => exact ⟨h.inverse, h.counted, h.given, h.givenCounted, h.once⟩

/-- Naming a call that has not been removed. -/
theorem Inv.name (h : s.Inv) (huid : uid ∉ s.removed) : (s.name uid).Inv := by
  refine ⟨h.sound.name uid, h.added, h.main, ?_, h.reports, h.frames⟩
  intro uid' hremoved
  have hown : uid' ≠ uid := by
    rintro rfl
    exact huid hremoved
  exact (CallMaps.idFor_lookup_ne hown).trans (h.untracked uid' hremoved)

theorem Inv.emit {report : CallReport} (h : s.Inv)
    (hlate : uid ∈ s.removed → report.state = .ended) : (s.emit uid report).Inv := by
  refine ⟨⟨h.sound.inverse, h.sound.counted, h.sound.given, h.sound.givenCounted, h.sound.once⟩,
    h.added, h.main, h.untracked, h.reports, ?_⟩
  intro f hf hfLate
  rcases List.mem_append.1 hf with hold | hnew
  · exact h.frames f hold hfLate
  · obtain rfl := List.mem_singleton.1 hnew
    exact hlate (of_decide_eq_true hfLate)

/-- The main thread goes over to another task. -/
theorem Inv.setMain {task : Option MainTask} (h : s.Inv)
    (htask : ∀ m, task = some m → m.uid ∉ s.removed ∧ m.uid ∈ s.added) :
    ({ s with main := task } : Tracking).Inv :=
  ⟨⟨h.sound.inverse, h.sound.counted, h.sound.given, h.sound.givenCounted, h.sound.once⟩, h.added,
    htask, h.untracked, h.reports, h.frames⟩

/-- A call that has not been removed changes its state. -/
theorem Inv.setState {state : TelecomState} (h : s.Inv) (huid : uid ∉ s.removed) :
    ({ s with state := Function.update s.state uid state } : Tracking).Inv := by
  refine ⟨⟨h.sound.inverse, h.sound.counted, h.sound.given, h.sound.givenCounted, h.sound.once⟩,
    h.added, h.main, h.untracked, ?_, h.frames⟩
  intro r hr hremoved
  rw [harmless_congr (s := s)]
  · exact h.reports r hr hremoved
  · apply Function.update_of_ne
    rintro rfl
    exact huid hremoved

/-- **One step of a report**: a call that has been removed is named only by a report that is not
harmless, and where the report goes on it stays harmless. -/
theorem Inv.advance (h : s.Inv) (number : Option String) (direction : Direction)
    (hr : r.uid ∈ s.removed → s.Harmless r) :
    (s.advance r number direction).1.Inv ∧
      (s.advance r number direction).1.removed = s.removed ∧
      (s.advance r number direction).1.added = s.added ∧
      (s.advance r number direction).1.main = s.main ∧
      (s.advance r number direction).1.reports = s.reports ∧
      ∀ r', (s.advance r number direction).2 = some r' → r'.uid = r.uid ∧
        (r.uid ∈ s.removed → (s.advance r number direction).1.Harmless r') := by
  obtain ⟨uid, stage⟩ := r
  cases stage with
  | picked =>
      refine ⟨h.name fun hremoved => hr hremoved, rfl, rfl, rfl, rfl, ?_⟩
      rintro r' ⟨⟩
      exact ⟨rfl, fun hremoved => (hr hremoved).elim⟩
  | named id =>
      refine ⟨h, rfl, rfl, rfl, rfl, ?_⟩
      rintro r' ⟨⟩
      exact ⟨rfl, hr⟩
  | read id state =>
      refine ⟨h.emit hr, rfl, rfl, rfl, rfl, ?_⟩
      intro r' hr'
      cases hr'

theorem Inv.report {j : Nat} {t : Tracking} (h : s.Inv)
    (hstep : step s (.report j number direction) = some t) : t.Inv := by
  simp only [step] at hstep
  cases hj : s.reports[j]? with
  | none => simp [hj] at hstep
  | some r =>
      have hr := h.reports r (List.mem_of_getElem? hj)
      obtain ⟨hinv, hremoved, -, -, hreports, hnext⟩ :=
        h.advance number direction hr
      rcases hadvance : s.advance r number direction with ⟨u, _ | r'⟩
      all_goals
        rw [hadvance] at hinv hremoved hreports hnext
        simp only [hj, hadvance, Option.some.injEq] at hstep
        rw [← hstep]
        refine ⟨⟨hinv.sound.inverse, hinv.sound.counted, hinv.sound.given, hinv.sound.givenCounted,
          hinv.sound.once⟩, hinv.added, hinv.main, hinv.untracked, ?_, hinv.frames⟩
      · intro r' hr' hlate
        exact hinv.reports r' (List.mem_of_mem_eraseIdx hr') hlate
      · intro r'' hr'' hlate
        rcases List.mem_or_eq_of_mem_set hr'' with hold | rfl
        · exact hinv.reports r'' hold hlate
        · obtain ⟨huid, hharmless⟩ := hnext _ rfl
          apply hharmless
          rwa [← huid, ← hremoved]

theorem Inv.mainStep {t : Tracking} (h : s.Inv) (hclear : s.Clear (.main number direction))
    (hstep : step s (.main number direction) = some t) : t.Inv := by
  simp only [step] at hstep
  cases hmain : s.main with
  | none => simp [hmain] at hstep
  | some task =>
      obtain ⟨hremoved, hadded⟩ := h.main task hmain
      cases task with
      | report r =>
          obtain ⟨hinv, hsame, hsameAdded, -, -, hnext⟩ := h.advance number direction
            fun hlate => absurd hlate hremoved
          simp only [hmain, Option.some.injEq] at hstep
          rw [← hstep]
          apply hinv.setMain
          intro m hm
          obtain ⟨r', hr', rfl⟩ := Option.map_eq_some_iff.1 hm
          rw [hsame, hsameAdded, show (MainTask.report r').uid = r.uid from (hnext r' hr').1]
          exact ⟨hremoved, hadded⟩
      | removing uid =>
          simp only [hmain, Option.some.injEq] at hstep
          rw [← hstep]
          apply (h.name hremoved).setMain
          rintro m ⟨⟩
          exact ⟨hremoved, hadded⟩
      | removingAs uid id =>
          simp only [hmain, Option.some.injEq] at hstep
          rw [← hstep]
          apply (h.emit fun _ => rfl).setMain
          rintro m ⟨⟩
          exact ⟨hremoved, hadded⟩
      | forgetting uid =>
          simp only [hmain, Option.some.injEq] at hstep
          rw [← hstep]
          refine ⟨h.sound.forget uid rfl rfl, ?_, by simp, ?_, ?_, h.frames⟩
          · intro uid' huid'
            rcases List.mem_cons.1 huid' with rfl | hold
            · exact hadded
            · exact h.added uid' hold
          · intro uid' huid'
            rcases List.mem_cons.1 huid' with rfl | hold
            · exact CallMaps.forget_lookup_self
            · cases hlookup : (s.maps.forget uid).callToId.lookup uid' with
              | none => rfl
              | some id =>
                  rw [← CallMaps.forget_lookup hlookup]
                  exact h.untracked uid' hold
          · intro r hr hlate
            rcases List.mem_cons.1 hlate with heq | hold
            · have hforgets : s.forgets = some uid := by rw [forgets, hmain]
              exact hclear uid hforgets r hr heq
            · exact h.reports r hr hold

end Steps

/-- **The maps are sound in every run.** -/
theorem sound_of_reach : ∀ s, machine.Reach s → s.Sound := by
  apply Machine.invariant
  · rintro s rfl
    exact start_sound
  · intro s a t h _ hstep
    have hstep : step s a = some t := hstep
    have hsame : ∀ u : Tracking, u.maps = s.maps → u.given = s.given → u.Sound := by
      intro u hmaps hgiven
      exact ⟨hmaps ▸ h.inverse, hmaps ▸ h.counted, by rw [hmaps, hgiven]; exact h.given,
        by rw [hmaps, hgiven]; exact h.givenCounted, hgiven ▸ h.once⟩
    cases a with
    | callAdded uid state =>
        obtain ⟨-, hstep⟩ := Option.ite_none_right_eq_some.1 hstep
        exact Option.some.inj hstep ▸ hsame _ rfl rfl
    | stateChanged uid state =>
        obtain ⟨-, hstep⟩ := Option.ite_none_right_eq_some.1 hstep
        exact Option.some.inj hstep ▸ hsame _ rfl rfl
    | callRemoved uid =>
        obtain ⟨-, hstep⟩ := Option.ite_none_right_eq_some.1 hstep
        exact Option.some.inj hstep ▸ hsame _ rfl rfl
    | pick id =>
        obtain ⟨uid, -, rfl⟩ := Option.map_eq_some_iff.1 hstep
        exact hsame _ rfl rfl
    | main number direction =>
        simp only [step] at hstep
        cases hmain : s.main with
        | none => simp [hmain] at hstep
        | some task =>
            cases task with
            | report r =>
                have hadvance := h.advance r number direction
                simp only [hmain, Option.some.injEq] at hstep
                rw [← hstep]
                exact ⟨hadvance.inverse, hadvance.counted, hadvance.given, hadvance.givenCounted,
                  hadvance.once⟩
            | removing uid =>
                have hname := h.name uid
                simp only [hmain, Option.some.injEq] at hstep
                rw [← hstep]
                exact ⟨hname.inverse, hname.counted, hname.given, hname.givenCounted, hname.once⟩
            | removingAs uid id =>
                simp only [hmain, Option.some.injEq] at hstep
                exact hstep ▸ hsame _ rfl rfl
            | forgetting uid =>
                simp only [hmain, Option.some.injEq] at hstep
                rw [← hstep]
                exact h.forget uid rfl rfl
    | report j number direction =>
        simp only [step] at hstep
        cases hj : s.reports[j]? with
        | none => simp [hj] at hstep
        | some r =>
            have hadvance := h.advance r number direction
            rcases heq : s.advance r number direction with ⟨u, _ | r'⟩
            all_goals
              rw [heq] at hadvance
              simp only [hj, heq, Option.some.injEq] at hstep
              rw [← hstep]
              exact ⟨hadvance.inverse, hadvance.counted, hadvance.given, hadvance.givenCounted,
                hadvance.once⟩

theorem inv_of_clear : ∀ s, machine.ReachWhere Clear s → s.Inv := by
  apply Machine.invariant
  · rintro s rfl
    exact start_inv
  · intro s a t h hok hstep
    have hstep : step s a = some t := hstep
    cases a with
    | callAdded uid state =>
        simp only [step] at hstep
        obtain ⟨⟨-, hnew⟩, hstep⟩ := Option.ite_none_right_eq_some.1 hstep
        obtain rfl := Option.some.inj hstep
        have hremoved : uid ∉ s.removed := fun hr => hnew (h.added uid hr)
        have hset : ({ s with state := Function.update s.state uid state } : Tracking).Inv :=
          h.setState hremoved
        refine ⟨⟨hset.sound.inverse, hset.sound.counted, hset.sound.given, hset.sound.givenCounted,
          hset.sound.once⟩, ?_, ?_, hset.untracked, hset.reports, hset.frames⟩
        · exact fun uid' hr => List.mem_cons_of_mem _ (h.added uid' hr)
        · rintro m ⟨⟩
          exact ⟨hremoved, List.mem_cons_self⟩
    | stateChanged uid state =>
        simp only [step] at hstep
        obtain ⟨⟨-, hadded, hremoved⟩, hstep⟩ := Option.ite_none_right_eq_some.1 hstep
        obtain rfl := Option.some.inj hstep
        apply (h.setState hremoved).setMain
        rintro m ⟨⟩
        exact ⟨hremoved, hadded⟩
    | callRemoved uid =>
        simp only [step] at hstep
        obtain ⟨⟨-, hadded, hremoved⟩, hstep⟩ := Option.ite_none_right_eq_some.1 hstep
        obtain rfl := Option.some.inj hstep
        apply h.setMain
        rintro m ⟨⟩
        exact ⟨hremoved, hadded⟩
    | main number direction => exact h.mainStep hok hstep
    | pick id =>
        simp only [step, Option.map_eq_some_iff] at hstep
        obtain ⟨uid, hlookup, rfl⟩ := hstep
        refine ⟨⟨h.sound.inverse, h.sound.counted, h.sound.given, h.sound.givenCounted,
          h.sound.once⟩, h.added, h.main, h.untracked, ?_, h.frames⟩
        intro r hr hlate
        rcases List.mem_append.1 hr with hold | hnew
        · exact h.reports r hold hlate
        · -- what is picked is tracked, so it has not been removed
          obtain rfl := List.mem_singleton.1 hnew
          have hnone := h.untracked uid hlate
          rw [(h.sound.inverse id uid).1 hlookup] at hnone
          cases hnone
    | report j number direction => exact h.report hstep

/-- **What is removed stays removed** in every run in which no call is forgotten while a report of
it is under way that is not harmless. -/
theorem settled_of_clear {s : Tracking} (hs : machine.ReachWhere Clear s) : s.Settled := by
  have h := inv_of_clear s hs
  have huntracked : ∀ uid ∈ s.removed, ∀ id, s.maps.idToCall.lookup id ≠ some uid := by
    intro uid huid id hid
    rw [h.sound.inverse, h.untracked uid huid] at hid
    cases hid
  refine ⟨h.sound.inverse, h.sound.once, huntracked, h.frames, ?_, ?_⟩
  · intro uid huid
    exact CallMaps.not_mayReturn h.sound.inverse (h.untracked uid huid)
  · rintro uid huid ⟨id, hid, -⟩
    exact huntracked uid huid id hid

/-- A call is reported again as a socket opens, and then removed. -/
theorem settled_rereported :
    ∃ s, machine.run start
        [.callAdded 7 .ringing, .main none .incoming, .main none .incoming, .main none .incoming,
          .pick "ac-1", .report 0 none .incoming, .report 0 none .incoming, .report 0 none .incoming,
          .callRemoved 7, .main none .incoming, .main none .incoming, .main none .incoming] = some s ∧
      s.removed = [7] ∧ s.frames.length = 3 ∧ s.Settled := by
  have hmeets : machine.Meets Clear start
      [.callAdded 7 .ringing, .main none .incoming, .main none .incoming, .main none .incoming,
        .pick "ac-1", .report 0 none .incoming, .report 0 none .incoming, .report 0 none .incoming,
        .callRemoved 7, .main none .incoming, .main none .incoming, .main none .incoming] := by
    decide +kernel
  exact ⟨_, rfl, rfl, rfl, settled_of_clear (Machine.reachWhere_of_run (.init rfl) hmeets rfl)⟩

/-- A call is removed while a socket's thread has picked it: it is tracked again, for good. -/
theorem not_settled_ghost : ¬ ∀ s, machine.Reach s → s.Settled := by
  intro h
  have hrun : ∃ s, machine.run start
      [.callAdded 7 .ringing, .main none .incoming, .main none .incoming, .main none .incoming,
        .pick "ac-1", .callRemoved 7, .main none .incoming, .main none .incoming,
        .main none .incoming, .report 0 none .incoming] = some s ∧
      s.removed = [7] ∧ s.maps.idToCall.lookup "ac-2" = some 7 := ⟨_, rfl, rfl, by decide +kernel⟩
  obtain ⟨s, hrun, hremoved, hghost⟩ := hrun
  have hreach : machine.Reach s := Machine.reach_of_run (.init rfl) hrun
  exact (h s hreach).untracked 7 (by simp [hremoved]) "ac-2" hghost

end Tracking

end DialF.Phone
