import DialF.Lib.Machine
import DialF.Lib.Table

/-!
# The sound card

A `job.run` and an auto-answer job take the card guard before they use the sound card. Their
blocking part opens and closes the card, any number of times, while the task that awaits it keeps
the guard; whatever way that part ends, its sources are dropped and the card is closed. The task
drops the guard when it ends, on every path. The capture probe of the start-up opens the card as
well, and takes no guard.

A task can only be dropped under its blocking part when the daemon goes down, and then nothing
starts any more.

`exclusive_along_iff` gives the runs in which the card has one user: those in which the probe does
not open the card under a job, nor a job under the probe.
-/

set_option autoImplicit false

namespace DialF.Daemon

open DialF.Lib

/-- Who takes the guard. -/
inductive CardUse where
  | jobRun
  | autoAnswer
  deriving DecidableEq

/-- How far a user of the card has come; a working one has its blocking part under way, with the
card open or not. -/
inductive UserPhase where
  | asking
  | refused
  | holding
  | working (isOpen : Bool)
  | worked
  | done
  deriving DecidableEq

/-- A user of the card, with whether it holds the guard. -/
structure CardUser where
  use : CardUse
  phase : UserPhase
  guard : Bool
  deriving DecidableEq

/-- The user without its guard, its task gone; a blocking part goes on. -/
def CardUser.dropped (u : CardUser) : CardUser :=
  ⟨u.use, match u.phase with
    | .working isOpen => .working isOpen
    | _ => .done, false⟩

/-- The capture probe of the start-up. -/
inductive ProbePhase where
  | pending
  | isOpen
  | over
  deriving DecidableEq

/-- The card's flag, its users in the order of their requests, the probe, and whether the daemon has
gone down. -/
structure Card where
  cardBusy : Bool
  users : List CardUser
  probe : ProbePhase
  down : Bool
  deriving DecidableEq

/-- What a user of the card does next. -/
inductive CardLabel where
  | request (use : CardUse)
  | acquire (i : Nat)
  | begin (i : Nat)
  | openCard (i : Nat)
  | closeCard (i : Nat)
  | finish (i : Nat)
  | exit (i : Nat)
  | openProbe
  | endProbe
  | shutdown
  deriving DecidableEq

namespace Card

/-- The daemon at its start, the probe about to run. -/
def start : Card := ⟨false, [], .pending, false⟩

/-- The next step of a user: the user after it, and the flag. -/
def advance (s : Card) (u : CardUser) : CardLabel → Option (CardUser × Bool)
  | .acquire _ =>
      match u.phase, s.down with
      | .asking, false =>
          -- `compare_exchange` on the flag
          if s.cardBusy then some (⟨u.use, .refused, u.guard⟩, s.cardBusy)
          else some (⟨u.use, .holding, true⟩, true)
      | _, _ => none
  | .begin _ =>
      match u.phase, s.down with
      | .holding, false => some (⟨u.use, .working false, u.guard⟩, s.cardBusy)
      | _, _ => none
  | .openCard _ =>
      match u.phase with
      | .working false => some (⟨u.use, .working true, u.guard⟩, s.cardBusy)
      | _ => none
  | .closeCard _ =>
      match u.phase with
      | .working true => some (⟨u.use, .working false, u.guard⟩, s.cardBusy)
      | _ => none
  -- the blocking part ends, with a result, an error or a panic
  | .finish _ =>
      match u.phase with
      | .working _ => some (⟨u.use, .worked, u.guard⟩, s.cardBusy)
      | _ => none
  -- the task ends, with or without having got as far as its blocking part
  | .exit _ =>
      match u.phase with
      | .asking | .refused | .holding | .worked =>
          some (⟨u.use, .done, false⟩, if u.guard then false else s.cardBusy)
      | _ => none
  | _ => none

/-- The step of one user, where it can be taken. -/
def stepUser (s : Card) (i : Nat) (a : CardLabel) : Option Card :=
  match s.users[i]? with
  | some u =>
      match s.advance u a with
      | some (u', busy) => some { s with cardBusy := busy, users := s.users.set i u' }
      | none => none
  | none => none

/-- One step. -/
def step (s : Card) : CardLabel → Option Card
  | .request use =>
      if s.down then none else some { s with users := s.users ++ [⟨use, .asking, false⟩] }
  | .acquire i => s.stepUser i (.acquire i)
  | .begin i => s.stepUser i (.begin i)
  | .openCard i => s.stepUser i (.openCard i)
  | .closeCard i => s.stepUser i (.closeCard i)
  | .finish i => s.stepUser i (.finish i)
  | .exit i => s.stepUser i (.exit i)
  | .openProbe =>
      match s.probe with
      | .pending => some { s with probe := .isOpen }
      | _ => none
  | .endProbe =>
      match s.probe with
      | .over => none
      | _ => some { s with probe := .over }
  -- every task is dropped, and every guard with its task
  | .shutdown =>
      some { s with
        cardBusy := if s.users.any CardUser.guard then false else s.cardBusy
        users := s.users.map CardUser.dropped
        down := true }

/-- All runs of the users of a card. -/
def machine : Machine Card CardLabel where
  Init s := s = start
  step := step

/-- The user `i` is between opening and closing the card. -/
def IsOpen (s : Card) (i : Nat) : Prop :=
  ∃ u, s.users[i]? = some u ∧ u.phase = .working true

/-- The guard of the user `i` is alive. -/
def Holds (s : Card) (i : Nat) : Prop := ∃ u, s.users[i]? = some u ∧ u.guard = true

/-- **The card has one user**, and the flag says whether a guard is alive. -/
structure Exclusive (s : Card) : Prop where
  oneJob : ∀ i j, s.IsOpen i → s.IsOpen j → i = j
  noProbe : s.probe = .isOpen → ∀ i, ¬ s.IsOpen i
  busy : s.cardBusy = true ↔ ∃ i, s.Holds i

/-- The probe and a job do not open the card under each other. -/
def ProbeApart (s : Card) : CardLabel → Prop
  | .openCard _ => s.probe ≠ .isOpen
  | .openProbe => ∀ u ∈ s.users, u.phase ≠ .working true
  | _ => True

instance (s : Card) (a : CardLabel) : Decidable (ProbeApart s a) := by
  unfold ProbeApart
  split <;> infer_instance

/-! ## The invariant -/

/-- The blocking part of the user `i` is under way. -/
def Works (s : Card) (i : Nat) : Prop :=
  ∃ u b, s.users[i]? = some u ∧ u.phase = .working b

/-- The flag follows the guards, of which there is at most one, and whoever works the card has it,
or had it when the daemon went down. -/
structure Inv (s : Card) : Prop where
  busy : s.cardBusy = true ↔ ∃ i, s.Holds i
  unique : ∀ i j, s.Holds i → s.Holds j → i = j
  holding : ∀ (i : Nat) (u : CardUser), s.users[i]? = some u → u.phase = .holding → u.guard = true
  working : ∀ i, s.Works i → s.Holds i ∨ s.down = true
  oneWorks : ∀ i j, s.Works i → s.Works j → i = j

variable {s t : Card} {i : Nat} {u u' : CardUser} {busy : Bool}

theorem works_of_isOpen (h : s.IsOpen i) : s.Works i := by
  obtain ⟨u, hu, hp⟩ := h
  exact ⟨u, true, hu, hp⟩

theorem inv_start : Inv start where
  busy := by simp [start, Holds]
  unique := by simp [start, Holds]
  holding := by simp [start]
  working := by simp [start, Works]
  oneWorks := by simp [start, Works]

/-- The flag is free exactly when no guard is alive. -/
theorem Inv.not_holds (hI : Inv s) (hfree : s.cardBusy = false) (i : Nat) : ¬ s.Holds i := by
  intro h
  rw [hI.busy.2 ⟨i, h⟩] at hfree
  exact absurd hfree (by simp)

section Set

/-- The state with the user `i` replaced. -/
def setUser (s : Card) (i : Nat) (u : CardUser) (busy : Bool) : Card :=
  { s with cardBusy := busy, users := s.users.set i u }

theorem stepUser_eq_some {a : CardLabel} (h : s.stepUser i a = some t) :
    ∃ u u' busy, s.users[i]? = some u ∧ s.advance u a = some (u', busy) ∧
      t = s.setUser i u' busy := by
  rw [stepUser] at h
  cases hi : s.users[i]? with
  | none => simp [hi] at h
  | some u =>
      rw [hi] at h
      cases ha : s.advance u a with
      | none => simp [ha] at h
      | some x =>
          obtain ⟨u', busy⟩ := x
          simp only [ha] at h
          exact ⟨u, u', busy, rfl, ha, (Option.some.inj h).symm⟩

theorem getElem?_setUser (hi : s.users[i]? = some u) (j : Nat) :
    (s.setUser i u' busy).users[j]? = if i = j then some u' else s.users[j]? := by
  obtain ⟨hlt, -⟩ := List.getElem?_eq_some_iff.1 hi
  by_cases hij : i = j
  · subst hij
    simp [setUser, hlt]
  · simp [setUser, hij]

theorem holds_setUser (hi : s.users[i]? = some u) (j : Nat) :
    (s.setUser i u' busy).Holds j ↔ if i = j then u'.guard = true else s.Holds j := by
  simp only [Holds, getElem?_setUser hi]
  by_cases hij : i = j
  · simp [hij]
  · simp [hij]

theorem works_setUser (hi : s.users[i]? = some u) (j : Nat) :
    (s.setUser i u' busy).Works j ↔ if i = j then ∃ b, u'.phase = .working b else s.Works j := by
  simp only [Works, getElem?_setUser hi]
  by_cases hij : i = j
  · simp [hij]
  · simp [hij]

theorem isOpen_setUser (hi : s.users[i]? = some u) (j : Nat) :
    (s.setUser i u' busy).IsOpen j ↔
      if i = j then u'.phase = .working true else s.IsOpen j := by
  simp only [IsOpen, getElem?_setUser hi]
  by_cases hij : i = j
  · simp [hij]
  · simp [hij]

/-- A user that keeps its guard, or has none, goes on. -/
theorem Inv.setUser_of_guard (hI : Inv s) (hi : s.users[i]? = some u) (hguard : u'.guard = u.guard)
    (hholding : u'.phase = .holding → u'.guard = true)
    (hworks : (∃ b, u'.phase = .working b) → u'.guard = true ∨ s.down = true)
    (hone : (∃ b, u'.phase = .working b) → ∀ j, s.Works j → i = j) :
    Inv (s.setUser i u' s.cardBusy) := by
  have hholds : ∀ j, (s.setUser i u' s.cardBusy).Holds j ↔ s.Holds j := by
    intro j
    rw [holds_setUser hi, hguard]
    by_cases hij : i = j
    · subst hij
      simp [Holds, hi]
    · simp [hij]
  constructor
  · simp only [hholds]
    exact hI.busy
  · simp only [hholds]
    exact hI.unique
  · intro j v hv hp
    rw [getElem?_setUser hi] at hv
    by_cases hij : i = j
    · rw [if_pos hij] at hv
      obtain rfl := Option.some.inj hv
      exact hholding hp
    · rw [if_neg hij] at hv
      exact hI.holding j v hv hp
  · intro j hj
    rw [hholds]
    rw [works_setUser hi] at hj
    by_cases hij : i = j
    · subst hij
      rw [if_pos rfl] at hj
      rcases hworks hj with hg | hdown
      · exact Or.inl ⟨u, hi, by rw [← hguard]; exact hg⟩
      · exact Or.inr hdown
    · rw [if_neg hij] at hj
      exact hI.working j hj
  -- two users at work: both this one, neither, or this one and another
  · intro j k hj hk
    rw [works_setUser hi] at hj hk
    by_cases hij : i = j
    · by_cases hik : i = k
      · exact hij.symm.trans hik
      · rw [if_pos hij] at hj
        rw [if_neg hik] at hk
        exact absurd (hone hj k hk) hik
    · by_cases hik : i = k
      · rw [if_pos hik] at hk
        rw [if_neg hij] at hj
        exact absurd (hone hk j hj) hij
      · rw [if_neg hij] at hj
        rw [if_neg hik] at hk
        exact hI.oneWorks j k hj hk

/-- The guard is given to a user when no guard is alive. -/
theorem Inv.setUser_acquire (hI : Inv s) (hi : s.users[i]? = some u) (hfree : s.cardBusy = false)
    (hguard : u'.guard = true) (hphase : u'.phase = .holding) : Inv (s.setUser i u' true) := by
  have hnone := hI.not_holds hfree
  have hworks : ∀ j, (s.setUser i u' true).Works j → i ≠ j ∧ s.Works j := by
    intro j hj
    rw [works_setUser hi] at hj
    by_cases hij : i = j
    · simp [hij, hphase] at hj
    · exact ⟨hij, by simpa [hij] using hj⟩
  constructor
  · refine iff_of_true rfl ⟨i, ?_⟩
    rw [holds_setUser hi, if_pos rfl]
    exact hguard
  · intro j k hj hk
    rw [holds_setUser hi] at hj hk
    by_cases hij : i = j
    · by_cases hik : i = k
      · exact hij.symm.trans hik
      · exact absurd (by simpa [hik] using hk) (hnone k)
    · exact absurd (by simpa [hij] using hj) (hnone j)
  · intro j v hv hp
    rw [getElem?_setUser hi] at hv
    by_cases hij : i = j
    · rw [if_pos hij] at hv
      obtain rfl := Option.some.inj hv
      exact hguard
    · rw [if_neg hij] at hv
      exact hI.holding j v hv hp
  · intro j hj
    obtain ⟨hij, hj⟩ := hworks j hj
    rw [holds_setUser hi, if_neg hij]
    exact hI.working j hj
  · intro j k hj hk
    exact hI.oneWorks j k (hworks j hj).2 (hworks k hk).2

/-- The task of a user ends, and its guard with it. -/
theorem Inv.setUser_exit (hI : Inv s) (hi : s.users[i]? = some u) :
    Inv (s.setUser i ⟨u.use, .done, false⟩ (if u.guard then false else s.cardBusy)) := by
  have hholds : ∀ j, (s.setUser i ⟨u.use, .done, false⟩
      (if u.guard then false else s.cardBusy)).Holds j ↔ i ≠ j ∧ s.Holds j := by
    intro j
    rw [holds_setUser hi]
    by_cases hij : i = j <;> simp [hij]
  have hworks : ∀ j, (s.setUser i ⟨u.use, .done, false⟩
      (if u.guard then false else s.cardBusy)).Works j → i ≠ j ∧ s.Works j := by
    intro j hj
    rw [works_setUser hi] at hj
    by_cases hij : i = j
    · simp [hij] at hj
    · exact ⟨hij, by simpa [hij] using hj⟩
  constructor
  · simp only [hholds]
    cases hg : u.guard with
    | true =>
        refine iff_of_false (by simp [setUser]) ?_
        rintro ⟨j, hij, hj⟩
        exact hij (hI.unique i j ⟨u, hi, hg⟩ hj)
    | false =>
        have hbusy := hI.busy
        simp only [setUser, Bool.false_eq_true, if_false]
        rw [hbusy]
        constructor
        · rintro ⟨j, v, hv, hvg⟩
          refine ⟨j, ?_, v, hv, hvg⟩
          rintro rfl
          obtain rfl := Option.some.inj (hi.symm.trans hv)
          rw [hg] at hvg
          exact absurd hvg (by simp)
        · rintro ⟨j, -, hj⟩
          exact ⟨j, hj⟩
  · intro j k hj hk
    exact hI.unique j k ((hholds j).1 hj).2 ((hholds k).1 hk).2
  · intro j v hv hp
    rw [getElem?_setUser hi] at hv
    by_cases hij : i = j
    · rw [if_pos hij] at hv
      obtain rfl := Option.some.inj hv
      exact absurd hp (by simp)
    · rw [if_neg hij] at hv
      exact hI.holding j v hv hp
  · intro j hj
    obtain ⟨hij, hj⟩ := hworks j hj
    rw [hholds]
    rcases hI.working j hj with hheld | hdown
    · exact Or.inl ⟨hij, hheld⟩
    · exact Or.inr hdown
  · intro j k hj hk
    exact hI.oneWorks j k (hworks j hj).2 (hworks k hk).2

end Set

theorem inv_advance {a : CardLabel} (hI : Inv s) (hi : s.users[i]? = some u)
    (h : s.advance u a = some (u', busy)) : Inv (s.setUser i u' busy) := by
  -- a user that is at work is the only one, and goes on with what it has
  have hself : (∃ b, u.phase = .working b) → ∀ j, s.Works j → i = j := by
    rintro ⟨b, hb⟩ j hj
    exact hI.oneWorks i j ⟨u, b, hi, hb⟩ hj
  have hheld : (∃ b, u.phase = .working b) → u.guard = true ∨ s.down = true := by
    rintro ⟨b, hb⟩
    rcases hI.working i ⟨u, b, hi, hb⟩ with ⟨v, hv, hg⟩ | hdown
    · obtain rfl := Option.some.inj (hi.symm.trans hv)
      exact Or.inl hg
    · exact Or.inr hdown
  cases a with
  | acquire j =>
      simp only [advance] at h
      split at h
      · split at h
        · obtain ⟨rfl, rfl⟩ := Prod.mk.inj (Option.some.inj h)
          exact hI.setUser_of_guard hi rfl (by simp) (by simp) (by simp)
        · rename_i hfree
          obtain ⟨rfl, rfl⟩ := Prod.mk.inj (Option.some.inj h)
          exact hI.setUser_acquire hi (by simpa using hfree) rfl rfl
      · simp at h
  | begin j =>
      simp only [advance] at h
      split at h
      · rename_i hp hup
        obtain ⟨rfl, rfl⟩ := Prod.mk.inj (Option.some.inj h)
        have hg : u.guard = true := hI.holding i u hi hp
        refine hI.setUser_of_guard hi rfl (by simp) (fun _ => Or.inl hg) ?_
        -- whoever else works the card would have a second guard
        intro _ j hj
        rcases hI.working j hj with hheld | hdown
        · exact hI.unique i j ⟨u, hi, hg⟩ hheld
        · rw [hup] at hdown
          exact absurd hdown (by simp)
      · simp at h
  | openCard j =>
      simp only [advance] at h
      split at h
      · rename_i hp
        obtain ⟨rfl, rfl⟩ := Prod.mk.inj (Option.some.inj h)
        exact hI.setUser_of_guard hi rfl (by simp) (fun _ => hheld ⟨_, hp⟩)
          fun _ => hself ⟨_, hp⟩
      · simp at h
  | closeCard j =>
      simp only [advance] at h
      split at h
      · rename_i hp
        obtain ⟨rfl, rfl⟩ := Prod.mk.inj (Option.some.inj h)
        exact hI.setUser_of_guard hi rfl (by simp) (fun _ => hheld ⟨_, hp⟩)
          fun _ => hself ⟨_, hp⟩
      · simp at h
  | finish j =>
      simp only [advance] at h
      split at h
      · obtain ⟨rfl, rfl⟩ := Prod.mk.inj (Option.some.inj h)
        exact hI.setUser_of_guard hi rfl (by simp) (by simp) (by simp)
      · simp at h
  -- whatever the user has come to, its guard goes with it
  | exit j =>
      simp only [advance] at h
      split at h
      · obtain ⟨rfl, rfl⟩ := Prod.mk.inj (Option.some.inj h)
        exact hI.setUser_exit hi
      · obtain ⟨rfl, rfl⟩ := Prod.mk.inj (Option.some.inj h)
        exact hI.setUser_exit hi
      · obtain ⟨rfl, rfl⟩ := Prod.mk.inj (Option.some.inj h)
        exact hI.setUser_exit hi
      · obtain ⟨rfl, rfl⟩ := Prod.mk.inj (Option.some.inj h)
        exact hI.setUser_exit hi
      · simp at h
  | request _ | openProbe | endProbe | shutdown => simp [advance] at h

theorem inv_stepUser {a : CardLabel} (hI : Inv s) (h : s.stepUser i a = some t) : Inv t := by
  obtain ⟨u, u', busy, hi, ha, rfl⟩ := stepUser_eq_some h
  exact inv_advance hI hi ha

theorem inv_request (hI : Inv s) (use : CardUse) :
    Inv { s with users := s.users ++ [⟨use, .asking, false⟩] } := by
  have hget : ∀ (j : Nat) (v : CardUser), (s.users ++ [⟨use, .asking, false⟩])[j]? = some v →
      s.users[j]? = some v ∨ v = ⟨use, .asking, false⟩ := by
    intro j v hv
    exact (getElem?_concat_cases hv).imp_right And.right
  have hholds : ∀ j, Holds { s with users := s.users ++ [⟨use, .asking, false⟩] } j ↔
      s.Holds j := by
    intro j
    constructor
    · rintro ⟨v, hv, hg⟩
      rcases hget j v hv with hold | rfl
      · exact ⟨v, hold, hg⟩
      · exact absurd hg (by simp)
    · rintro ⟨v, hv, hg⟩
      obtain ⟨hlt, -⟩ := List.getElem?_eq_some_iff.1 hv
      exact ⟨v, by rw [← hv]; exact List.getElem?_append_left hlt, hg⟩
  have hworks : ∀ j, Works { s with users := s.users ++ [⟨use, .asking, false⟩] } j →
      s.Works j := by
    rintro j ⟨v, b, hv, hp⟩
    rcases hget j v hv with hold | rfl
    · exact ⟨v, b, hold, hp⟩
    · exact absurd hp (by simp)
  constructor
  · simp only [hholds]
    exact hI.busy
  · simp only [hholds]
    exact hI.unique
  · intro j v hv hp
    rcases hget j v hv with hold | rfl
    · exact hI.holding j v hold hp
    · exact absurd hp (by simp)
  · intro j hj
    rw [hholds]
    exact hI.working j (hworks j hj)
  · intro j k hj hk
    exact hI.oneWorks j k (hworks j hj) (hworks k hk)

theorem getElem?_dropped {v : CardUser} (h : (s.users.map CardUser.dropped)[i]? = some v) :
    ∃ u, s.users[i]? = some u ∧ v = u.dropped := by
  rw [List.getElem?_map] at h
  obtain ⟨u, hu, rfl⟩ := Option.map_eq_some_iff.1 h
  exact ⟨u, hu, rfl⟩

theorem dropped_phase {u : CardUser} {p : UserPhase} (h : u.dropped.phase = p)
    (hp : p ≠ .done) : u.phase = p := by
  obtain ⟨use, phase, guard⟩ := u
  cases phase with
  | working b => exact h
  | asking | refused | holding | worked | done => exact absurd h.symm hp

/-- Going down drops every guard, and starts no blocking part. -/
theorem inv_shutdown (hI : Inv s) :
    Inv { s with
      cardBusy := if s.users.any CardUser.guard then false else s.cardBusy
      users := s.users.map CardUser.dropped
      down := true } := by
  have hholds : ∀ (busy : Bool) (j : Nat), ¬ Holds { s with
      cardBusy := busy, users := s.users.map CardUser.dropped, down := true } j := by
    rintro busy j ⟨v, hv, hg⟩
    obtain ⟨u, -, rfl⟩ := getElem?_dropped hv
    exact absurd hg (by simp [CardUser.dropped])
  have hworks : ∀ (busy : Bool) (j : Nat), Works { s with
      cardBusy := busy, users := s.users.map CardUser.dropped, down := true } j → s.Works j := by
    rintro busy j ⟨v, b, hv, hp⟩
    obtain ⟨u, hu, rfl⟩ := getElem?_dropped hv
    exact ⟨u, b, hu, dropped_phase hp (by simp)⟩
  constructor
  · refine iff_of_false ?_ fun ⟨j, hj⟩ => hholds _ j hj
    by_cases hany : s.users.any CardUser.guard = true
    · simp [hany]
    · simp only [hany, Bool.false_eq_true, if_false]
      rw [hI.busy]
      rintro ⟨j, u, hu, hg⟩
      exact hany (List.any_eq_true.2 ⟨u, List.mem_of_getElem? hu, hg⟩)
  · intro j k hj
    exact absurd hj (hholds _ j)
  · intro j v hv hp
    obtain ⟨u, -, rfl⟩ := getElem?_dropped hv
    exact absurd hp (by obtain ⟨use, phase, guard⟩ := u; cases phase <;> simp [CardUser.dropped])
  · intro j _
    exact Or.inr rfl
  · intro j k hj hk
    exact hI.oneWorks j k (hworks _ j hj) (hworks _ k hk)

/-- **One step keeps the invariant.** -/
theorem inv_step {a : CardLabel} (hI : Inv s) (h : s.step a = some t) : Inv t := by
  cases a with
  | request use =>
      simp only [step] at h
      split at h
      · simp at h
      · obtain rfl := Option.some.inj h
        exact inv_request hI use
  | acquire i | begin i | openCard i | closeCard i | finish i | exit i =>
      exact inv_stepUser hI h
  | openProbe =>
      simp only [step] at h
      split at h
      · obtain rfl := Option.some.inj h
        exact ⟨hI.busy, hI.unique, hI.holding, hI.working, hI.oneWorks⟩
      · simp at h
  | endProbe =>
      simp only [step] at h
      split at h
      · simp at h
      · obtain rfl := Option.some.inj h
        exact ⟨hI.busy, hI.unique, hI.holding, hI.working, hI.oneWorks⟩
  | shutdown =>
      obtain rfl := Option.some.inj h
      exact inv_shutdown hI

/-! ## The probe -/

/-- In the states of the invariant it is up to the probe alone whether the card has one user. -/
theorem Inv.exclusive_iff (hI : Inv s) :
    Exclusive s ↔ (s.probe = .isOpen → ∀ i, ¬ s.IsOpen i) := by
  constructor
  · exact Exclusive.noProbe
  · intro hprobe
    exact ⟨fun i j hi hj => hI.oneWorks i j (works_of_isOpen hi) (works_of_isOpen hj), hprobe,
      hI.busy⟩

/-- Only opening the card leaves it open. -/
theorem advance_opens {a : CardLabel} (h : s.advance u a = some (u', busy))
    (hp : u'.phase = .working true) : ∃ j, a = .openCard j := by
  cases a with
  | openCard j => exact ⟨j, rfl⟩
  | acquire j =>
      simp only [advance] at h
      split at h
      · split at h
        · obtain ⟨rfl, -⟩ := Prod.mk.inj (Option.some.inj h)
          exact absurd hp (by simp)
        · obtain ⟨rfl, -⟩ := Prod.mk.inj (Option.some.inj h)
          exact absurd hp (by simp)
      · simp at h
  | begin j | closeCard j | finish j =>
      simp only [advance] at h
      split at h
      · obtain ⟨rfl, -⟩ := Prod.mk.inj (Option.some.inj h)
        exact absurd hp (by simp)
      · simp at h
  | exit j =>
      simp only [advance] at h
      split at h <;> simp only [Option.some.injEq, Prod.mk.injEq, reduceCtorEq] at h
      all_goals
        obtain ⟨rfl, -⟩ := h
        exact absurd hp (by simp)
  | request _ | openProbe | endProbe | shutdown => simp [advance] at h

/-- A step of a user other than opening the card opens nothing. -/
theorem isOpen_of_stepUser {a : CardLabel} (hopen : ∀ j, a ≠ .openCard j)
    (h : s.stepUser i a = some t) : t.probe = s.probe ∧ ∀ j, t.IsOpen j → s.IsOpen j := by
  obtain ⟨u, u', busy, hi, ha, rfl⟩ := stepUser_eq_some h
  refine ⟨rfl, fun j hj => ?_⟩
  rw [isOpen_setUser hi] at hj
  by_cases hij : i = j
  · rw [if_pos hij] at hj
    obtain ⟨k, rfl⟩ := advance_opens ha hj
    exact absurd rfl (hopen k)
  · rw [if_neg hij] at hj
    exact hj

theorem isOpen_openCard {j : Nat} (h : s.stepUser i (.openCard j) = some t) :
    t.probe = s.probe ∧ t.IsOpen i := by
  obtain ⟨u, u', busy, hi, ha, rfl⟩ := stepUser_eq_some h
  refine ⟨rfl, ?_⟩
  rw [isOpen_setUser hi, if_pos rfl]
  simp only [advance] at ha
  split at ha
  · obtain ⟨rfl, -⟩ := Prod.mk.inj (Option.some.inj ha)
    rfl
  · simp at ha

/-- **One step keeps the card to one user exactly when probe and jobs stay apart.** -/
theorem exclusive_step_iff {a : CardLabel} (hI : Inv s) (hs : Exclusive s)
    (h : s.step a = some t) : Exclusive t ↔ ProbeApart s a := by
  rw [(inv_step hI h).exclusive_iff]
  -- a step that opens nothing keeps probe and jobs apart
  have hkeep : t.probe = s.probe → (∀ j, t.IsOpen j → s.IsOpen j) →
      t.probe = .isOpen → ∀ i, ¬ t.IsOpen i := by
    intro hprobe hopen hp i hi
    exact hs.noProbe (hprobe ▸ hp) i (hopen i hi)
  cases a with
  | request use =>
      simp only [step] at h
      split at h
      · simp at h
      · obtain rfl := Option.some.inj h
        refine iff_of_true (hkeep rfl ?_) trivial
        rintro j ⟨v, hv, hp⟩
        rcases getElem?_concat_cases hv with hold | ⟨-, rfl⟩
        · exact ⟨v, hold, hp⟩
        · exact absurd hp (by simp)
  | acquire i | begin i | closeCard i | finish i | exit i =>
      obtain ⟨hprobe, hopen⟩ := isOpen_of_stepUser (by simp) h
      exact iff_of_true (hkeep hprobe hopen) trivial
  | openCard i =>
      obtain ⟨hprobe, hopen⟩ := isOpen_openCard h
      constructor
      · intro hno hp
        exact hno (hprobe.trans hp) i hopen
      · intro hp hno
        exact absurd (hprobe.symm.trans hno) hp
  | openProbe =>
      simp only [step] at h
      split at h
      · obtain rfl := Option.some.inj h
        constructor
        · intro hno u hu hp
          obtain ⟨i, hi⟩ := List.getElem?_of_mem hu
          exact hno rfl i ⟨u, hi, hp⟩
        · rintro hall - i ⟨u, hu, hp⟩
          exact hall u (List.mem_of_getElem? hu) hp
      · simp at h
  | endProbe =>
      simp only [step] at h
      split at h
      · simp at h
      · obtain rfl := Option.some.inj h
        exact iff_of_true (fun hp => absurd hp (by simp)) trivial
  | shutdown =>
      obtain rfl := Option.some.inj h
      refine iff_of_true (hkeep rfl ?_) trivial
      rintro j ⟨v, hv, hp⟩
      obtain ⟨u, hu, rfl⟩ := getElem?_dropped hv
      exact ⟨u, hu, dropped_phase hp (by simp)⟩

/-- **The runs in which the sound card has one user.** -/
theorem exclusive_along_iff (run : List CardLabel) :
    machine.Along Exclusive start run ↔ machine.Meets ProbeApart start run := by
  apply Machine.along_iff_meets (I := Inv)
  · intro s a t hI hstep
    exact inv_step hI hstep
  · intro s a t hI hs hstep
    exact exclusive_step_iff hI hs hstep
  · exact inv_start
  · exact inv_start.exclusive_iff.2 fun hp => absurd hp (by simp [start])

/-- The probe has the card open when a `job.run` opens it. -/
def probedRun : List CardLabel :=
  [.openProbe, .request .jobRun, .acquire 0, .begin 0, .openCard 0]

theorem exists_not_exclusive : ¬ ∀ s, machine.Reach s → Exclusive s := by
  intro hall
  have hreach := Machine.reach_of_run (.init rfl) (show machine.run start probedRun = some _ from rfl)
  exact (hall _ hreach).noProbe rfl 0 ⟨_, rfl, rfl⟩

end Card

end DialF.Daemon
