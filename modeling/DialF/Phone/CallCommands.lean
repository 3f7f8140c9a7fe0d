import Std.Data.String.ToNat
import DialF.Phone.Tracking

/-!
# Commands on calls

`hangup`, `answer` and `reject` look for their call by its id, and where there is none with the id,
or no id is given, take the first of the tracked calls in the order of the map. A reject with `drop`
looks again when its delay is over.

The list of tracked calls stands in the order of the map, which may change with each of its
operations. `onNamed_iff` says when a command acts on the call that it names.
-/

set_option autoImplicit false

namespace DialF.Phone

open DialF.Daemon

namespace Dialf

/-- `call`: the call with the id, or else the first of the values. -/
def call (d : Dialf) (id : Option String) : Option TrackedCall :=
  (id.bind fun id => d.calls.find? fun c => decide (c.id = id)).or d.calls.head?

/-- The first of the values that rings. -/
def ringingCall (d : Dialf) : Option TrackedCall :=
  d.calls.find? fun c => decide (c.state = .ringing)

end Dialf

/-- What is asked of the telephony system. -/
inductive CallAct where
  | answer (uid : Nat)
  | disconnect (uid : Nat)
  | reject (uid : Nat)
  deriving DecidableEq

/-- The call that is acted on. -/
def CallAct.uid : CallAct → Nat
  | .answer uid => uid
  | .disconnect uid => uid
  | .reject uid => uid

/-- A command on a call, with its `call_id`. -/
inductive CallCommand where
  | answer (callId : Option String)
  | hangup (callId : Option String)
  | reject (callId : Option String) (drop : Bool)
  deriving DecidableEq

namespace CallCommand

/-- The id that the command carries, where it carries one. -/
def callId : CallCommand → Option String
  | .answer callId => callId
  | .hangup callId => callId
  | .reject callId _ => callId

/-- The call that a command finds, or the text of its error. -/
def target (d : Dialf) : CallCommand → Except String TrackedCall
  | .answer callId =>
      match (d.call callId).or d.ringingCall with
      | some c => .ok c
      | none => .error "no call to answer"
  | .hangup callId =>
      match d.call callId with
      | some c => .ok c
      | none => .error "no call to hang up"
  | .reject callId _ =>
      match (d.call callId).or d.ringingCall with
      | some c => .ok c
      | none => .error "no call to reject"

/-- What a command does to the call that it has found; `later` has the calls that are tracked when
the delay of a `drop` is over. -/
def acts (later : Dialf) (c : TrackedCall) : CallCommand → List CallAct
  | .answer _ => [.answer c.uid]
  | .hangup _ => [.disconnect c.uid]
  | .reject callId true => [.answer c.uid, .disconnect ((later.call callId).getD c).uid]
  | .reject _ false => [.reject c.uid]

/-- `answer`, `hangup` and `reject`. -/
def execute (d later : Dialf) (cmd : CallCommand) : Except String (List CallAct) :=
  (cmd.target d).map fun c => cmd.acts later c

/-- The command is for a ringing call. -/
def forRinging : CallCommand → Bool
  | .hangup _ => false
  | _ => true

/-- The caller is to be dropped, and not to be sent away with a message. -/
def drops : CallCommand → Bool
  | .reject _ drop => drop
  | _ => false

end CallCommand

/-! ## Calls that come and go -/

/-- What happens to the calls of the app between two commands. -/
inductive CallEvent where
  | report (uid : Nat) (state : CallState)
  | setState (uid : Nat) (state : CallState)
  | forget (uid : Nat)
  /-- The map has its values in another order. -/
  | order (calls : List TrackedCall)

namespace Dialf

/-- What one event leaves. -/
def after (d : Dialf) : CallEvent → Dialf
  | .report uid state => (d.idFor uid state).1
  | .setState uid state => d.setState uid state
  | .forget uid => d.forget uid
  | .order calls => if calls.isPerm d.calls then { d with calls } else d

/-- The events one by one. -/
def run (d : Dialf) (events : List CallEvent) : Dialf := events.foldl after d

end Dialf

/-- **A command acts on the call that it names**: with an id, on the call with the id or on none;
without one, an answer or a reject on a ringing call, if there is one; and what a drop disconnects
is what it has answered. -/
structure OnNamed (d later : Dialf) (cmd : CallCommand) : Prop where
  named : ∀ id, cmd.callId = some id → ∀ acts, cmd.execute d later = .ok acts →
    ∀ act ∈ acts, ∃ c ∈ d.calls, c.id = id ∧ act.uid = c.uid
  ringing : cmd.callId = none → cmd.forRinging = true → (∃ c ∈ d.calls, c.state = .ringing) →
    ∀ acts, cmd.execute d later = .ok acts →
      ∃ act ∈ acts.head?, ∃ c ∈ d.calls, c.state = .ringing ∧ act.uid = c.uid
  dropped : cmd.drops = true → ∀ acts, cmd.execute d later = .ok acts →
    ∃ uid, acts = [.answer uid, .disconnect uid]

/-- The id is that of a tracked call. -/
def Dialf.Has (d : Dialf) (id : String) : Prop := ∃ c ∈ d.calls, c.id = id

/-- The first of the values then, if any, is the call that is the first of the values now. -/
def SameFirst (c : TrackedCall) (later : Dialf) : Prop := ∀ c' ∈ later.calls.head?, c'.uid = c.uid

/-- When a command acts on the call that it names. -/
def Finds (d later : Dialf) (cmd : CallCommand) : Prop :=
  match cmd.callId with
  | some id =>
      d.calls = [] ∨ ∃ c ∈ d.calls, c.id = id ∧
        (cmd.drops = true → later.Has id ∨ SameFirst c later)
  | none =>
      (cmd.forRinging = true → (∃ c ∈ d.calls, c.state = .ringing) →
        ∃ c ∈ d.calls.head?, c.state = .ringing) ∧
      (cmd.drops = true → ∀ c ∈ d.calls.head?, SameFirst c later)

/-! ## Tracked calls in a run -/

namespace Dialf

/-- The ids have been counted, and a call and an id belong to each other. -/
structure Inv (d : Dialf) : Prop where
  counted : ∀ c ∈ d.calls, ∃ n < d.seq, c.id = "ac-" ++ toString n
  ids : ∀ c ∈ d.calls, ∀ c' ∈ d.calls, c.id = c'.id → c.uid = c'.uid
  uids : ∀ c ∈ d.calls, ∀ c' ∈ d.calls, c.uid = c'.uid → c = c'

/-- The calls that are tracked later were tracked before, or have new ids. -/
structure Leads (d later : Dialf) : Prop where
  seq : d.seq ≤ later.seq
  calls : ∀ c' ∈ later.calls, (∃ c ∈ d.calls, c.id = c'.id ∧ c.uid = c'.uid) ∨
    ∃ n, d.seq ≤ n ∧ c'.id = "ac-" ++ toString n

variable {d later : Dialf}

theorem start_inv : start.Inv := by
  constructor
  all_goals simp [start]

theorem inv_of_subset {calls : List TrackedCall} (h : d.Inv) (hsub : ∀ c ∈ calls, c ∈ d.calls) :
    ({ d with calls } : Dialf).Inv :=
  ⟨fun c hc => h.counted c (hsub c hc), fun c hc c' hc' => h.ids c (hsub c hc) c' (hsub c' hc'),
    fun c hc c' hc' => h.uids c (hsub c hc) c' (hsub c' hc')⟩

theorem inv_idFor (h : d.Inv) (uid : Nat) (state : CallState) : (d.idFor uid state).1.Inv := by
  rw [idFor]
  cases hfind : d.find uid with
  | some c => exact h
  | none =>
      -- a call that is not tracked yet: the three facts for the calls before, and for the new one
      have hother : ∀ c ∈ d.calls, c.uid ≠ uid := by simpa [find] using hfind
      -- the ids are numbered from `seq` on, so the next one is nobody's yet
      have hunused : ∀ c ∈ d.calls, c.id ≠ d.nextId := by
        intro c hc hid
        obtain ⟨n, hn, hcount⟩ := h.counted c hc
        have heq := CallMaps.id_injective (hcount.symm.trans hid)
        omega
      constructor
      · intro c hc
        rcases List.mem_append.1 hc with hold | hnew
        · obtain ⟨n, hn, hid⟩ := h.counted c hold
          exact ⟨n, Nat.lt_succ_of_lt hn, hid⟩
        · rw [List.mem_singleton.1 hnew]
          exact ⟨d.seq, Nat.lt_succ_self _, rfl⟩
      · intro c hc c' hc' hid
        rcases List.mem_append.1 hc with hold | hnew
        · rcases List.mem_append.1 hc' with hold' | hnew'
          · exact h.ids c hold c' hold' hid
          · rw [List.mem_singleton.1 hnew'] at hid
            exact absurd hid (hunused c hold)
        · rcases List.mem_append.1 hc' with hold' | hnew'
          · rw [List.mem_singleton.1 hnew] at hid
            exact absurd hid.symm (hunused c' hold')
          · rw [List.mem_singleton.1 hnew, List.mem_singleton.1 hnew']
      · intro c hc c' hc' huid
        rcases List.mem_append.1 hc with hold | hnew
        · rcases List.mem_append.1 hc' with hold' | hnew'
          · exact h.uids c hold c' hold' huid
          · rw [List.mem_singleton.1 hnew'] at huid
            exact absurd huid (hother c hold)
        · rcases List.mem_append.1 hc' with hold' | hnew'
          · rw [List.mem_singleton.1 hnew] at huid
            exact absurd huid.symm (hother c' hold')
          · rw [List.mem_singleton.1 hnew, List.mem_singleton.1 hnew']

/-- A call as the telephony system moves it on. -/
theorem mem_setState {uid : Nat} {state : CallState} {c : TrackedCall}
    (hc : c ∈ (d.setState uid state).calls) :
    ∃ c₀ ∈ d.calls, c.id = c₀.id ∧ c.uid = c₀.uid ∧
      c = if c₀.uid = uid then { c₀ with state } else c₀ := by
  obtain ⟨c₀, hc₀, rfl⟩ := List.mem_map.1 hc
  refine ⟨c₀, hc₀, ?_, ?_, rfl⟩
  · split <;> rfl
  · split <;> rfl

theorem inv_setState (h : d.Inv) (uid : Nat) (state : CallState) : (d.setState uid state).Inv := by
  constructor
  · intro c hc
    obtain ⟨c₀, hc₀, hid, -, -⟩ := mem_setState hc
    exact hid ▸ h.counted c₀ hc₀
  · intro c hc c' hc' hid
    obtain ⟨c₀, hc₀, hid₀, huid₀, -⟩ := mem_setState hc
    obtain ⟨c₁, hc₁, hid₁, huid₁, -⟩ := mem_setState hc'
    rw [huid₀, huid₁]
    exact h.ids c₀ hc₀ c₁ hc₁ (by rw [← hid₀, ← hid₁, hid])
  · intro c hc c' hc' huid
    obtain ⟨c₀, hc₀, -, huid₀, rfl⟩ := mem_setState hc
    obtain ⟨c₁, hc₁, -, huid₁, rfl⟩ := mem_setState hc'
    rw [h.uids c₀ hc₀ c₁ hc₁ (by rw [← huid₀, ← huid₁, huid])]

theorem leads_refl (d : Dialf) : d.Leads d :=
  ⟨Nat.le_refl _, fun c hc => Or.inl ⟨c, hc, rfl, rfl⟩⟩

theorem Leads.subset {calls : List TrackedCall} (h : d.Leads later)
    (hsub : ∀ c ∈ calls, c ∈ later.calls) : d.Leads { later with calls } :=
  ⟨h.seq, fun c hc => h.calls c (hsub c hc)⟩

/-- **One event** keeps the ids with their calls. -/
theorem after_spec (hd : later.Inv) (h : d.Leads later) (event : CallEvent) :
    (later.after event).Inv ∧ d.Leads (later.after event) := by
  cases event with
  | report uid state =>
      refine ⟨inv_idFor hd uid state, ?_⟩
      rw [after, idFor]
      cases later.find uid with
      | some c => exact h
      | none =>
          refine ⟨Nat.le_succ_of_le h.seq, fun c hc => ?_⟩
          rcases List.mem_append.1 hc with hold | hnew
          · exact h.calls c hold
          · rw [List.mem_singleton.1 hnew]
            exact Or.inr ⟨later.seq, h.seq, rfl⟩
  | setState uid state =>
      refine ⟨inv_setState hd uid state, h.seq, fun c hc => ?_⟩
      obtain ⟨c₀, hc₀, hid, huid, -⟩ := mem_setState hc
      rw [hid, huid]
      exact h.calls c₀ hc₀
  | forget uid =>
      have hsub : ∀ c ∈ (later.forget uid).calls, c ∈ later.calls :=
        fun c hc => (List.mem_filter.1 hc).1
      exact ⟨inv_of_subset hd hsub, h.subset hsub⟩
  | order calls =>
      rw [after]
      split
      · rename_i hperm
        have hsub : ∀ c ∈ calls, c ∈ later.calls :=
          fun c hc => (List.isPerm_iff.1 hperm).mem_iff.1 hc
        exact ⟨inv_of_subset hd hsub, h.subset hsub⟩
      · exact ⟨hd, h⟩

/-- **A run** keeps the ids with their calls. -/
theorem run_spec (hd : later.Inv) (h : d.Leads later) (events : List CallEvent) :
    (later.run events).Inv ∧ d.Leads (later.run events) := by
  induction events generalizing later with
  | nil => exact ⟨hd, h⟩
  | cons event events ih =>
      obtain ⟨hd', h'⟩ := after_spec hd h event
      exact ih hd' h'

/-- The call with an id is the same later. -/
theorem Leads.uid_eq (h : d.Leads later) (hd : d.Inv) {c c' : TrackedCall} (hc : c ∈ d.calls)
    (hc' : c' ∈ later.calls) (hid : c'.id = c.id) : c'.uid = c.uid := by
  rcases h.calls c' hc' with ⟨c₀, hc₀, hid₀, huid₀⟩ | ⟨n, hn, hnew⟩
  · rw [← huid₀]
    exact hd.ids c₀ hc₀ c hc (hid₀.trans hid)
  · -- a new id has a later number than any that was given before
    obtain ⟨m, hm, hcount⟩ := hd.counted c hc
    have heq := CallMaps.id_injective (hnew.symm.trans (hid.trans hcount))
    omega

/-! ## Looking for a call -/

theorem call_none (d : Dialf) : d.call none = d.calls.head? := rfl

/-- With an id, the call is the one with the id, or there is none and it is the first. -/
theorem call_some (d : Dialf) (id : String) :
    (∃ c ∈ d.calls, c.id = id ∧ d.call (some id) = some c) ∨
      ¬ d.Has id ∧ d.call (some id) = d.calls.head? := by
  rw [call, Option.bind_some]
  cases hfind : d.calls.find? fun c => decide (c.id = id) with
  | some c =>
      left
      exact ⟨c, List.mem_of_find?_eq_some hfind, by simpa using List.find?_some hfind, rfl⟩
  | none =>
      right
      refine ⟨?_, rfl⟩
      rintro ⟨c, hc, hid⟩
      exact List.find?_eq_none.1 hfind c hc (decide_eq_true hid)

theorem mem_of_call {id : Option String} {c : TrackedCall} (h : d.call id = some c) :
    c ∈ d.calls := by
  cases id with
  | none => exact List.mem_of_mem_head? h
  | some id =>
      rcases call_some d id with ⟨c', hc', -, hcall⟩ | ⟨-, hcall⟩
      · rw [hcall] at h
        exact Option.some.inj h ▸ hc'
      · exact List.mem_of_mem_head? (hcall ▸ h)

/-- Where any call is tracked, one is found. -/
theorem call_eq_none {id : Option String} (h : d.call id = none) : d.calls = [] := by
  rw [call, Option.or_eq_none_iff] at h
  exact List.head?_eq_none_iff.1 h.2

/-- The ringing call is never asked for. -/
theorem call_or_ringingCall (d : Dialf) (id : Option String) :
    (d.call id).or d.ringingCall = d.call id := by
  cases hcall : d.call id with
  | some c => rfl
  | none => rw [ringingCall, call_eq_none hcall]; rfl

end Dialf

/-! ## Commands -/

section Commands

variable {d later : Dialf} {cmd : CallCommand} {acts : List CallAct}

theorem execute_eq_ok_iff :
    cmd.execute d later = .ok acts ↔ ∃ c, d.call cmd.callId = some c ∧ acts = cmd.acts later c := by
  cases cmd with
  | answer id =>
      rw [CallCommand.execute, CallCommand.target, Dialf.call_or_ringingCall, CallCommand.callId]
      cases d.call id <;> simp [Except.map, eq_comm]
  | hangup id =>
      rw [CallCommand.execute, CallCommand.target, CallCommand.callId]
      cases d.call id <;> simp [Except.map, eq_comm]
  | reject id drop =>
      rw [CallCommand.execute, CallCommand.target, Dialf.call_or_ringingCall, CallCommand.callId]
      cases d.call id <;> simp [Except.map, eq_comm]

/-- A command does one thing to the call that it has found, and a drop one more. -/
theorem acts_cases (cmd : CallCommand) (later : Dialf) (c : TrackedCall) :
    cmd.drops = false ∧ (∃ act, cmd.acts later c = [act] ∧ act.uid = c.uid) ∨
      cmd.drops = true ∧ cmd.forRinging = true ∧
        cmd.acts later c = [.answer c.uid, .disconnect ((later.call cmd.callId).getD c).uid] := by
  cases cmd with
  | answer id => exact Or.inl ⟨rfl, _, rfl, rfl⟩
  | hangup id => exact Or.inl ⟨rfl, _, rfl, rfl⟩
  | reject id drop =>
      cases drop with
      | false => exact Or.inl ⟨rfl, _, rfl, rfl⟩
      | true => exact Or.inr ⟨rfl, rfl, rfl⟩

/-- What a command does first, it does to the call that it has found. -/
theorem head_acts (cmd : CallCommand) (later : Dialf) (c : TrackedCall) :
    ∃ act, (cmd.acts later c).head? = some act ∧ act ∈ cmd.acts later c ∧ act.uid = c.uid := by
  rcases acts_cases cmd later c with ⟨-, act, hacts, huid⟩ | ⟨-, -, hacts⟩
  · rw [hacts]
    exact ⟨act, rfl, List.mem_singleton_self act, huid⟩
  · rw [hacts]
    exact ⟨_, rfl, List.mem_cons_self, rfl⟩

/-- What a drop disconnects is the call with its id, or the first of the values then. -/
theorem later_uid_iff (cmd : CallCommand) (hd : d.Inv) (h : d.Leads later) {c : TrackedCall}
    (hc : c ∈ d.calls) (hid : ∀ id, cmd.callId = some id → c.id = id) :
    ((later.call cmd.callId).getD c).uid = c.uid ↔
      (∃ id, cmd.callId = some id ∧ later.Has id) ∨ SameFirst c later := by
  have hfirst : (later.calls.head?.getD c).uid = c.uid ↔ SameFirst c later := by
    rw [SameFirst]
    cases later.calls.head? with
    | none => simp
    | some c' => simp
  cases hcall : cmd.callId with
  | none =>
      rw [Dialf.call_none, hfirst]
      simp
  | some id =>
      rcases Dialf.call_some later id with ⟨c', hc', hid', hcall'⟩ | ⟨hnot, hcall'⟩
      · rw [hcall', Option.getD_some]
        refine iff_of_true ?_ (Or.inl ⟨id, rfl, c', hc', hid'⟩)
        exact h.uid_eq hd hc hc' (hid'.trans (hid id hcall).symm)
      · rw [hcall', hfirst]
        constructor
        · exact Or.inr
        · rintro (⟨id', hsome, hhas⟩ | hsame)
          · obtain rfl := Option.some.inj hsome
            exact absurd hhas hnot
          · exact hsame

/-- **What a command comes to** where it finds a call. -/
theorem onNamed_of_call (hd : d.Inv) {c : TrackedCall} (hfound : d.call cmd.callId = some c) :
    OnNamed d later cmd ↔
      (∀ id, cmd.callId = some id → c.id = id) ∧
        (cmd.callId = none → cmd.forRinging = true → (∃ c ∈ d.calls, c.state = .ringing) →
          c.state = .ringing) ∧
        (cmd.drops = true → ((later.call cmd.callId).getD c).uid = c.uid) := by
  have hc := Dialf.mem_of_call hfound
  have hok : cmd.execute d later = .ok (cmd.acts later c) := execute_eq_ok_iff.2 ⟨c, hfound, rfl⟩
  obtain ⟨act, hhead, hact, huid⟩ := head_acts cmd later c
  constructor
  · -- what was done first shows which call was found
    intro hon
    refine ⟨?_, ?_, ?_⟩
    · intro id hid
      obtain ⟨c', hc', hid', huid'⟩ := hon.named id hid _ hok act hact
      rwa [hd.uids c hc c' hc' (huid.symm.trans huid')]
    · intro hnone hfor hex
      obtain ⟨act', hhead', c', hc', hstate, huid'⟩ := hon.ringing hnone hfor hex _ hok
      obtain rfl := Option.some.inj (hhead.symm.trans hhead')
      rwa [hd.uids c hc c' hc' (huid.symm.trans huid')]
    · intro hdrops
      obtain ⟨uid, hacts⟩ := hon.dropped hdrops _ hok
      rcases acts_cases cmd later c with ⟨hno, -⟩ | ⟨-, -, heq⟩
      · rw [hdrops] at hno
        cases hno
      · rw [heq, List.cons.injEq, List.cons.injEq, CallAct.answer.injEq, CallAct.disconnect.injEq]
          at hacts
        exact hacts.2.1.trans hacts.1.symm
  · rintro ⟨hid, hstate, hlater⟩
    have hall : ∀ acts, cmd.execute d later = .ok acts → acts = cmd.acts later c := by
      intro acts hacts
      rw [hok] at hacts
      exact (Except.ok.inj hacts).symm
    constructor
    · intro id hcall acts hacts act' hact'
      refine ⟨c, hc, hid id hcall, ?_⟩
      rw [hall acts hacts] at hact'
      rcases acts_cases cmd later c with ⟨-, only, heq, hone⟩ | ⟨hdrops, -, heq⟩
      · rw [heq] at hact'
        rw [List.mem_singleton.1 hact']
        exact hone
      · rw [heq] at hact'
        rcases List.mem_cons.1 hact' with rfl | hsecond
        · rfl
        · rw [List.mem_singleton.1 hsecond]
          exact hlater hdrops
    · intro hnone hfor hex acts hacts
      rw [hall acts hacts]
      exact ⟨act, hhead, c, hc, hstate hnone hfor hex, huid⟩
    · intro hdrops acts hacts
      rw [hall acts hacts]
      rcases acts_cases cmd later c with ⟨hno, -⟩ | ⟨-, -, heq⟩
      · rw [hdrops] at hno
        cases hno
      · exact ⟨c.uid, by rw [heq, hlater hdrops]⟩

theorem finds_iff (hd : d.Inv) (h : d.Leads later) {c : TrackedCall}
    (hfound : d.call cmd.callId = some c) :
    Finds d later cmd ↔
      (∀ id, cmd.callId = some id → c.id = id) ∧
        (cmd.callId = none → cmd.forRinging = true → (∃ c ∈ d.calls, c.state = .ringing) →
          c.state = .ringing) ∧
        (cmd.drops = true → ((later.call cmd.callId).getD c).uid = c.uid) := by
  have hc := Dialf.mem_of_call hfound
  cases hcall : cmd.callId with
  | none =>
      have hlater := later_uid_iff cmd hd h hc (by simp [hcall])
      rw [hcall, Dialf.call_none] at hfound
      rw [hcall] at hlater
      simp [Finds, hcall, hfound, hlater]
  | some id =>
      rw [hcall] at hfound
      have hne : d.calls ≠ [] := List.ne_nil_of_mem hc
      have hlater : c.id = id → (((later.call (some id)).getD c).uid = c.uid ↔
          later.Has id ∨ SameFirst c later) := by
        intro hid
        have hiff := later_uid_iff cmd hd h hc fun id' hid' =>
          hid.trans (Option.some.inj (hcall.symm.trans hid'))
        simpa [hcall] using hiff
      simp only [Finds, hcall, Option.some.injEq, forall_eq', reduceCtorEq, false_implies, true_and]
      constructor
      · rintro (hnil | ⟨c', hc', hid', hdrop⟩)
        · exact absurd hnil hne
        · have hid : c.id = id := by
            rcases Dialf.call_some d id with ⟨c₀, -, hid₀, hfound₀⟩ | ⟨hnot, -⟩
            · exact Option.some.inj (hfound₀.symm.trans hfound) ▸ hid₀
            · exact absurd ⟨c', hc', hid'⟩ hnot
          refine ⟨hid, fun hdrops => (hlater hid).2 ?_⟩
          have huid : c'.uid = c.uid := hd.ids c' hc' c hc (hid'.trans hid.symm)
          rcases hdrop hdrops with hhas | hsame
          · exact Or.inl hhas
          · exact Or.inr fun first hfirst => (hsame first hfirst).trans huid
      · rintro ⟨hid, hdrop⟩
        exact Or.inr ⟨c, hc, hid, fun hdrops => (hlater hid).1 (hdrop hdrops)⟩

/-- **The call that a command names**: the exact condition, for the calls that are tracked after any
run and those that are tracked when a delay is over. -/
theorem onNamed_iff (events delay : List CallEvent) (cmd : CallCommand) :
    OnNamed (Dialf.start.run events) ((Dialf.start.run events).run delay) cmd ↔
      Finds (Dialf.start.run events) ((Dialf.start.run events).run delay) cmd := by
  obtain ⟨hd, -⟩ := Dialf.run_spec Dialf.start_inv (Dialf.leads_refl _) events
  obtain ⟨-, h⟩ := Dialf.run_spec hd (Dialf.leads_refl _) delay
  generalize (Dialf.start.run events).run delay = later at h
  generalize Dialf.start.run events = d at hd h
  cases hfound : d.call cmd.callId with
  | some c => rw [onNamed_of_call hd hfound, finds_iff hd h hfound]
  | none =>
      have hnil := Dialf.call_eq_none hfound
      have hnone : ∀ acts, cmd.execute d later ≠ .ok acts := by
        intro acts hacts
        obtain ⟨c, hc, -⟩ := execute_eq_ok_iff.1 hacts
        rw [hfound] at hc
        cases hc
      refine iff_of_true ⟨?_, ?_, ?_⟩ ?_
      · exact fun _ _ acts hacts => absurd hacts (hnone acts)
      · exact fun _ _ _ acts hacts => absurd hacts (hnone acts)
      · exact fun _ acts hacts => absurd hacts (hnone acts)
      · rw [Finds]
        cases cmd.callId with
        | some id => exact Or.inl hnil
        | none => simp [hnil]

end Commands

/-- A second call rings while the first is active: an answer goes to the active one. -/
theorem not_onNamed_secondRings :
    ¬ OnNamed (Dialf.start.run [.report 1 .active, .report 2 .ringing])
      ((Dialf.start.run [.report 1 .active, .report 2 .ringing]).run []) (.answer none) := by
  intro h
  obtain ⟨act, hact, c, hc, hstate, huid⟩ :=
    h.ringing rfl rfl (by decide +kernel) [.answer 1] (by decide +kernel)
  obtain rfl : CallAct.answer 1 = act := by simpa using hact
  have hall : ∀ c ∈ (Dialf.start.run [.report 1 .active, .report 2 .ringing]).calls,
      c.state = .ringing → c.uid = 2 := by decide +kernel
  have htwo := hall c hc hstate
  rw [← huid] at htwo
  cases htwo

end DialF.Phone
