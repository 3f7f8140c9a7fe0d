import DialF.Daemon.Protocol

/-!
# The calls that the app tracks

The bridge between the telephony system and the connection service gives an id to every call that it
reports, and keeps it until the call is removed. A call has, besides its id, an identity of its own
(`uid`, the telephony system's object), and a state that the telephony system sets.
-/

set_option autoImplicit false

namespace DialF.Phone

open DialF.Daemon

/-- A call that the app tracks, under the id that it gave it. -/
structure TrackedCall where
  uid : Nat
  id : String
  state : CallState
  deriving DecidableEq

/-- The tracked calls, and the number of the next id. -/
structure Dialf where
  seq : Nat
  calls : List TrackedCall

namespace Dialf

/-- The bridge of an app that has just started. -/
def start : Dialf := ⟨1, []⟩

variable (d : Dialf)

/-- The tracked call of an object of the telephony system. -/
def find (uid : Nat) : Option TrackedCall := d.calls.find? fun c => decide (c.uid = uid)

/-- The id of the next call. -/
def nextId : String := "ac-" ++ toString d.seq

/-- `idFor`: a call that is not tracked is tracked from now on, in the state that it has. -/
def idFor (uid : Nat) (state : CallState) : Dialf × String :=
  match d.find uid with
  | some c => (d, c.id)
  | none => (⟨d.seq + 1, d.calls ++ [⟨uid, d.nextId, state⟩]⟩, d.nextId)

/-- `forget`: the call is tracked no longer. -/
def forget (uid : Nat) : Dialf :=
  { d with calls := d.calls.filter fun c => decide (c.uid ≠ uid) }

/-- The telephony system moves a call on. -/
def setState (uid : Nat) (state : CallState) : Dialf :=
  { d with calls := d.calls.map fun c => if c.uid = uid then { c with state := state } else c }

/-- The state of a call; one that is not tracked any more has been disconnected. -/
def state (uid : Nat) : CallState :=
  match d.find uid with
  | some c => c.state
  | none => .ended

variable {d} {uid : Nat} {c : TrackedCall}

theorem mem_of_find (h : d.find uid = some c) : c ∈ d.calls := List.mem_of_find?_eq_some h

theorem idFor_of_find {state : CallState} (h : d.find uid = some c) :
    d.idFor uid state = (d, c.id) := by
  simp [idFor, h]

theorem state_of_find (h : d.find uid = some c) : d.state uid = c.state := by
  simp [state, h]

end Dialf

end DialF.Phone
