import Mathlib.Data.List.AList
import DialF.Lib.Machine
import DialF.Lib.Table

/-!
# MMI and voicemail results

`mmi.send` and `voicemail.set` clear the device's result slot, fire the command, and poll the slot
until it holds something or the polls run out. The phone answers a command with a result frame that
carries the command's code (for voicemail: whether it was to be enabled), at any later time, and the
frame overwrites the slot, whichever request is polling it. A result has no request id.

The two kinds have slots of their own and are otherwise alike, so a request is one definition over
the kind. `log` records the accesses that write a slot, and `answers` marks a stored result with the
request that it answers.

`own_along_iff` gives the runs in which every result returned answers its own request.
-/

set_option autoImplicit false

namespace DialF.Daemon

open DialF.Lib

/-- The two kinds of requests whose results are parked in a slot. -/
inductive ResultKind where
  | mmi
  | voicemail
  deriving DecidableEq

/-- What a command is told and its result repeats: the code, or whether voicemail is enabled. -/
inductive ResultKey where
  | code (code : String)
  | enabled (enabled : Bool)
  deriving DecidableEq

/-- The kind of result that the key asks for. -/
def ResultKey.kind : ResultKey → ResultKind
  | .code _ => .mmi
  | .enabled _ => .voicemail

/-- An `MmiResult` or a `VoicemailResult`. -/
structure PhoneResult where
  key : ResultKey
  success : Bool
  response : Option String
  deriving DecidableEq

/-- How often a request looks at its slot, every half second. -/
def polls : ResultKind → Nat
  | .mmi => 30
  | .voicemail => 60

/-- How far a request has come. -/
inductive RequestPhase where
  | called
  | cleared
  | polling (n : Nat)
  | returned (result : PhoneResult) (answers : Nat)
  | timedOut
  deriving DecidableEq

/-- A request on a resolved device. -/
structure ResultRequest where
  device : String
  key : ResultKey
  phase : RequestPhase
  deriving DecidableEq

/-- A slot: the device and the kind. -/
abbrev SlotId := String × ResultKind

/-- The slot that the result of the request is put in. -/
def ResultRequest.slot (q : ResultRequest) : SlotId := (q.device, q.key.kind)

/-- A parked result, and the request it answers. -/
structure Parked where
  result : PhoneResult
  answers : Nat
  deriving DecidableEq

/-- What was done to a slot. -/
inductive SlotEvent where
  | clear
  | answer (request : Nat)
  deriving DecidableEq

/-- The requests in the order of their calls, the slots, the commands that a phone has received and
not answered, and what was done to the slots. -/
structure Results where
  requests : List ResultRequest
  slots : AList fun _ : SlotId => Parked
  received : List Nat
  log : List (SlotId × SlotEvent)

/-- What can happen to requests and to the replies of phones. -/
inductive ResultLabel where
  | request (device : String) (key : ResultKey)
  | clear (i : Nat)
  | fire (i : Nat) (arrives : Bool)
  | poll (i : Nat)
  | reply (i : Nat) (success : Bool) (response : Option String)

namespace Results

/-- No request, and empty slots. -/
def new : Results := ⟨[], ∅, [], []⟩

/-- The request with another phase. -/
def goTo (s : Results) (i : Nat) (q : ResultRequest) (phase : RequestPhase) : Results :=
  { s with requests := s.requests.set i { q with phase := phase } }

/-- One step. -/
def step (s : Results) : ResultLabel → Option Results
  | .request device key => some { s with requests := s.requests ++ [⟨device, key, .called⟩] }
  | .clear i =>
      match s.requests[i]? with
      | some q =>
          match q.phase with
          | .called =>
              some { s.goTo i q .cleared with
                slots := s.slots.erase q.slot
                log := s.log ++ [(q.slot, .clear)] }
          | _ => none
      | none => none
  -- fired and not awaited; whether it reaches the phone makes no difference to the request
  | .fire i arrives =>
      match s.requests[i]? with
      | some q =>
          match q.phase with
          | .cleared =>
              some { s.goTo i q (.polling 0) with
                received := if arrives then s.received ++ [i] else s.received }
          | _ => none
      | none => none
  | .poll i =>
      match s.requests[i]? with
      | some q =>
          match q.phase with
          | .polling n =>
              -- whatever is in the slot is taken for the answer
              match s.slots.lookup q.slot with
              | some parked => some (s.goTo i q (.returned parked.result parked.answers))
              | none =>
                  if n + 1 < polls q.key.kind then some (s.goTo i q (.polling (n + 1)))
                  else some (s.goTo i q .timedOut)
          | _ => none
      | none => none
  -- the phone's answer to the command of the request, as the daemon gets it
  | .reply i success response =>
      match s.requests[i]? with
      | some q =>
          -- one answer to a command; the slot's last content is lost
          if i ∈ s.received then
            some { s with
              received := s.received.erase i
              slots := s.slots.insert q.slot ⟨⟨q.key, success, response⟩, i⟩
              log := s.log ++ [(q.slot, .answer i)] }
          else none
      | none => none

/-- All runs of requests and replies. -/
def machine : Machine Results ResultLabel where
  Init s := s = new
  step := step

/-- **Results answer their own requests**, with the code or the setting that these asked for. -/
def Own (s : Results) : Prop :=
  ∀ (i : Nat) (q : ResultRequest) (result : PhoneResult) (answers : Nat),
    s.requests[i]? = some q → q.phase = .returned result answers →
      answers = i ∧ result.key = q.key

/-- The last thing done to a slot. -/
def lastEvent (log : List (SlotId × SlotEvent)) (slot : SlotId) : Option SlotEvent :=
  ((log.filter fun e => e.1 == slot).getLast?).map Prod.snd

/-- When a request polls, the last answer of its kind that the device has sent since the slot was
last cleared, by whichever request, is the answer to this request. -/
def LastIsOwn (s : Results) : ResultLabel → Prop
  | .poll i =>
      match s.requests[i]? with
      | some q => ∀ j, lastEvent s.log q.slot = some (.answer j) → j = i
      | none => True
  | _ => True

theorem lastEvent_append_self (log : List (SlotId × SlotEvent)) (slot : SlotId) (e : SlotEvent) :
    lastEvent (log ++ [(slot, e)]) slot = some e := by
  simp [lastEvent]

theorem lastEvent_append_ne (log : List (SlotId × SlotEvent)) {slot slot' : SlotId}
    (e : SlotEvent) (hne : slot' ≠ slot) :
    lastEvent (log ++ [(slot', e)]) slot = lastEvent log slot := by
  simp [lastEvent, hne]

/-- What is parked is what the last access to the slot put there, with the key of the command that
it answers. -/
structure Inv (s : Results) : Prop where
  last : ∀ slot, (s.slots.lookup slot).map Parked.answers =
    match lastEvent s.log slot with
    | some (.answer j) => some j
    | _ => none
  parked : ∀ (slot : SlotId) (p : Parked), s.slots.lookup slot = some p →
    ∃ q : ResultRequest, s.requests[p.answers]? = some q ∧ p.result.key = q.key

theorem inv_new : Inv new where
  last := by
    intro slot
    rfl
  parked := by
    intro slot p hp
    simp [new] at hp

section Step

variable {s t : Results}

/-- What a step does, with the branch that it takes. -/
inductive Does (s : Results) : ResultLabel → Results → Prop where
  | request (device : String) (key : ResultKey) :
      Does s (.request device key) { s with requests := s.requests ++ [⟨device, key, .called⟩] }
  | clear {i : Nat} {q : ResultRequest} (hi : s.requests[i]? = some q) :
      Does s (.clear i) { s.goTo i q .cleared with
        slots := s.slots.erase q.slot
        log := s.log ++ [(q.slot, .clear)] }
  | fire {i : Nat} {q : ResultRequest} (arrives : Bool) (hi : s.requests[i]? = some q) :
      Does s (.fire i arrives) { s.goTo i q (.polling 0) with
        received := if arrives then s.received ++ [i] else s.received }
  | found {i : Nat} {q : ResultRequest} {parked : Parked} (hi : s.requests[i]? = some q)
      (hpark : s.slots.lookup q.slot = some parked) :
      Does s (.poll i) (s.goTo i q (.returned parked.result parked.answers))
  | again {i : Nat} {q : ResultRequest} (n : Nat) (hi : s.requests[i]? = some q)
      (hnone : s.slots.lookup q.slot = none) : Does s (.poll i) (s.goTo i q (.polling n))
  | gaveUp {i : Nat} {q : ResultRequest} (hi : s.requests[i]? = some q)
      (hnone : s.slots.lookup q.slot = none) : Does s (.poll i) (s.goTo i q .timedOut)
  | reply {i : Nat} {q : ResultRequest} (success : Bool) (response : Option String)
      (hi : s.requests[i]? = some q) :
      Does s (.reply i success response) { s with
        received := s.received.erase i
        slots := s.slots.insert q.slot ⟨⟨q.key, success, response⟩, i⟩
        log := s.log ++ [(q.slot, .answer i)] }

theorem does_of_step {a : ResultLabel} (h : step s a = some t) : Does s a t := by
  cases a with
  | request device key =>
      obtain rfl := Option.some.inj h
      exact .request device key
  | clear i =>
      simp only [step] at h
      split at h
      · rename_i q hi
        split at h
        · obtain rfl := Option.some.inj h
          exact .clear hi
        · simp at h
      · simp at h
  | fire i arrives =>
      simp only [step] at h
      split at h
      · rename_i q hi
        split at h
        · obtain rfl := Option.some.inj h
          exact .fire arrives hi
        · simp at h
      · simp at h
  | poll i =>
      simp only [step] at h
      split at h
      · rename_i q hi
        split at h
        · rename_i n _
          split at h
          · rename_i parked hpark
            obtain rfl := Option.some.inj h
            exact .found hi hpark
          · rename_i hnone
            split at h
            · obtain rfl := Option.some.inj h
              exact .again (n + 1) hi hnone
            · obtain rfl := Option.some.inj h
              exact .gaveUp hi hnone
        · simp at h
      · simp at h
  | reply i success response =>
      simp only [step] at h
      split at h
      · rename_i q hi
        split at h
        · obtain rfl := Option.some.inj h
          exact .reply success response hi
        · simp at h
      · simp at h

/-- A change of phase leaves every request its device and its key. -/
theorem goTo_get {i j : Nat} {q q' : ResultRequest} (phase : RequestPhase)
    (hi : s.requests[i]? = some q) (hj : s.requests[j]? = some q') :
    ∃ q'', (s.goTo i q phase).requests[j]? = some q'' ∧ q''.device = q'.device ∧
      q''.key = q'.key := by
  by_cases hij : j = i
  · subst hij
    obtain rfl := Option.some.inj (hi.symm.trans hj)
    exact ⟨_, getElem?_set_self_of_some hi, rfl, rfl⟩
  · exact ⟨q', (List.getElem?_set_ne (Ne.symm hij)).trans hj, rfl, rfl⟩

/-- A step leaves every request its device and its key. -/
theorem step_get {a : ResultLabel} (h : step s a = some t) {j : Nat} {q : ResultRequest}
    (hj : s.requests[j]? = some q) :
    ∃ q', t.requests[j]? = some q' ∧ q'.device = q.device ∧ q'.key = q.key := by
  cases does_of_step h with
  | request device key => exact ⟨q, getElem?_concat_of_some hj, rfl, rfl⟩
  | clear hi => exact goTo_get .cleared hi hj
  | fire arrives hi => exact goTo_get (.polling 0) hi hj
  | found hi hpark => exact goTo_get _ hi hj
  | again n hi hnone => exact goTo_get (.polling n) hi hj
  | gaveUp hi hnone => exact goTo_get .timedOut hi hj
  | reply success response hi => exact ⟨q, hj, rfl, rfl⟩

/-- **Every step keeps the slots what the log says.** -/
theorem inv_step {a : ResultLabel} (hs : Inv s) (h : step s a = some t) : Inv t := by
  -- what stays parked is still of a request with that key
  have hkeep : ∀ (slot : SlotId) (p : Parked), s.slots.lookup slot = some p →
      ∃ q : ResultRequest, t.requests[p.answers]? = some q ∧ p.result.key = q.key := by
    intro slot p hp
    obtain ⟨q, hq, hkey⟩ := hs.parked slot p hp
    obtain ⟨q', hq', -, hkey'⟩ := step_get h hq
    exact ⟨q', hq', hkey.trans hkey'.symm⟩
  cases does_of_step h with
  | @clear i q hi =>
      constructor
      · intro slot
        by_cases hne : slot = q.slot
        · rw [hne, AList.lookup_erase, lastEvent_append_self]
          rfl
        · rw [AList.lookup_erase_ne hne, lastEvent_append_ne _ _ (Ne.symm hne)]
          exact hs.last slot
      · intro slot p hp
        by_cases hne : slot = q.slot
        · rw [hne, AList.lookup_erase] at hp
          simp at hp
        · rw [AList.lookup_erase_ne hne] at hp
          exact hkeep slot p hp
  | @reply i q success response hi =>
      constructor
      · intro slot
        by_cases hne : slot = q.slot
        · rw [hne, AList.lookup_insert, lastEvent_append_self]
          rfl
        · rw [AList.lookup_insert_ne hne, lastEvent_append_ne _ _ (Ne.symm hne)]
          exact hs.last slot
      · intro slot p hp
        by_cases hne : slot = q.slot
        · rw [hne, AList.lookup_insert] at hp
          obtain rfl := Option.some.inj hp
          exact ⟨_, hi, rfl⟩
        · rw [AList.lookup_insert_ne hne] at hp
          exact hkeep slot p hp
  -- the others leave slots and log alone
  | request _ _ | fire _ _ | found _ _ | again _ _ _ | gaveUp _ _ => exact ⟨hs.last, hkeep⟩

/-- A result is returned by a poll of its request, from what is parked then. -/
theorem step_returned {a : ResultLabel} (h : step s a = some t) {j : Nat} {q : ResultRequest}
    {result : PhoneResult} {answers : Nat} (hj : t.requests[j]? = some q)
    (hret : q.phase = .returned result answers) :
    s.requests[j]? = some q ∨
      a = .poll j ∧ ∃ q', s.requests[j]? = some q' ∧ q'.key = q.key ∧
        s.slots.lookup q'.slot = some ⟨result, answers⟩ := by
  have hother : ∀ {i : Nat} {q' : ResultRequest} {phase : RequestPhase},
      (∀ result answers, phase ≠ .returned result answers) →
        (s.goTo i q' phase).requests[j]? = some q → s.requests[j]? = some q := by
    intro i q' phase hnot hj
    rcases getElem?_set_cases hj with ⟨-, rfl⟩ | ⟨-, hold⟩
    · exact absurd hret (hnot result answers)
    · exact hold
  cases does_of_step h with
  | request device key =>
      rcases getElem?_concat_cases hj with hold | ⟨-, rfl⟩
      · exact .inl hold
      · simp at hret
  | clear hi => exact .inl (hother (by simp) hj)
  | fire arrives hi => exact .inl (hother (by simp) hj)
  | again n hi hnone => exact .inl (hother (by simp) hj)
  | gaveUp hi hnone => exact .inl (hother (by simp) hj)
  | found hi hpark =>
      rcases getElem?_set_cases hj with ⟨rfl, rfl⟩ | ⟨-, hold⟩
      · simp only [RequestPhase.returned.injEq] at hret
        obtain ⟨rfl, rfl⟩ := hret
        exact .inr ⟨rfl, _, hi, rfl, hpark⟩
      · exact .inl hold
  | reply success response hi => exact .inl hj

/-- A poll that finds something returns it. -/
theorem poll_found {i : Nat} {q : ResultRequest} {p : Parked} (h : step s (.poll i) = some t)
    (hi : s.requests[i]? = some q) (hpark : s.slots.lookup q.slot = some p) :
    ∃ q', t.requests[i]? = some q' ∧ q'.phase = .returned p.result p.answers := by
  cases does_of_step h with
  | found hi' hpark' =>
      obtain rfl := Option.some.inj (hi'.symm.trans hi)
      obtain rfl := Option.some.inj (hpark'.symm.trans hpark)
      exact ⟨_, getElem?_set_self_of_some hi, rfl⟩
  | again n hi' hnone | gaveUp hi' hnone =>
      obtain rfl := Option.some.inj (hi'.symm.trans hi)
      exact absurd (hnone.symm.trans hpark) (by simp)

/-- The request whose answer is parked, from the log. -/
theorem Inv.parked_of_last (hs : Inv s) {slot : SlotId} {j : Nat}
    (hlast : lastEvent s.log slot = some (.answer j)) :
    ∃ p, s.slots.lookup slot = some p ∧ p.answers = j := by
  have h := hs.last slot
  rw [hlast] at h
  exact Option.map_eq_some_iff.1 h

/-- What was done last to a slot that holds something. -/
theorem Inv.last_of_parked (hs : Inv s) {slot : SlotId} {p : Parked}
    (hpark : s.slots.lookup slot = some p) : lastEvent s.log slot = some (.answer p.answers) := by
  have h := hs.last slot
  rw [hpark, Option.map_some] at h
  split at h
  · rename_i j hlast
    rw [hlast, Option.some.inj h]
  · simp at h

/-- **One step keeps the results own exactly when a poll finds its own answer or none.** -/
theorem own_step {a : ResultLabel} (hs : Inv s) (hown : Own s) (h : step s a = some t) :
    Own t ↔ LastIsOwn s a := by
  constructor
  -- a poll that finds another's answer would return it
  · intro ht
    cases a with
    | poll i =>
        simp only [LastIsOwn]
        split
        · rename_i q hi
          intro j hlast
          obtain ⟨p, hpark, rfl⟩ := hs.parked_of_last hlast
          obtain ⟨q', hq', hret⟩ := poll_found h hi hpark
          exact (ht i q' p.result p.answers hq' hret).1
        · trivial
    | _ => trivial
  · intro hok j q result answers hj hret
    -- a result was returned before, or is what this poll has found
    rcases step_returned h hj hret with hold | ⟨rfl, q', hq', hkey, hpark⟩
    · exact hown j q result answers hold hret
    · simp only [LastIsOwn, hq'] at hok
      have hself : answers = j := hok answers (hs.last_of_parked hpark)
      obtain ⟨r, hr, hrkey⟩ := hs.parked q'.slot ⟨result, answers⟩ hpark
      simp only at hr hrkey
      rw [hself, hq'] at hr
      obtain rfl := Option.some.inj hr
      exact ⟨hself, hrkey.trans hkey⟩

end Step

theorem own_new : Own new := by
  intro i q result answers hi
  simp [new] at hi

/-- **When every result answers its own request.** In a run every result returned is the phone's
answer to the request that got it, exactly when no request ever polls its slot while the last answer
there since a clear is another's. -/
theorem own_along_iff (run : List ResultLabel) :
    machine.Along Own new run ↔ machine.Meets LastIsOwn new run := by
  apply Machine.along_iff_meets (I := Inv)
  · intro s a t hs h
    exact inv_step hs h
  · intro s a t hs hown h
    exact own_step hs hown h
  · exact inv_new
  · exact own_new

/-- A request times out, and its late answer goes to the next request, which asked for another
code. -/
def lateReply : List ResultLabel :=
  [.request "dev" (.code "*100#"), .clear 0, .fire 0 true] ++ List.replicate 30 (.poll 0) ++
    [.request "dev" (.code "*101#"), .clear 1, .fire 1 true, .reply 0 true (some "5 EUR"), .poll 1]

/-- The requests at the end of it. -/
theorem lateReply_requests : ((machine.run new lateReply).map requests) =
    some [⟨"dev", .code "*100#", .timedOut⟩,
      ⟨"dev", .code "*101#", .returned ⟨.code "*100#", true, some "5 EUR"⟩ 0⟩] := by
  rfl

theorem exists_not_own : ∃ s, machine.Reach s ∧ ¬ Own s := by
  obtain ⟨s, hrun, hreq⟩ := Option.map_eq_some_iff.1 lateReply_requests
  refine ⟨s, Machine.reach_of_run (.init rfl) hrun, ?_⟩
  intro hown
  have h := hown 1 ⟨"dev", .code "*101#", .returned ⟨.code "*100#", true, some "5 EUR"⟩ 0⟩ _ _
    (by rw [hreq]; rfl) rfl
  exact absurd h.1 (by decide)

end Results

end DialF.Daemon
