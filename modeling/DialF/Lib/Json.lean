import Mathlib.Data.List.Basic

/-!
# JSON values and their readers

A JSON object is the list of its fields. A reader takes a value to what it says, or refuses it; a
field is required, or has a default, or may be absent or null. The lemmas say what a reader makes of
what the matching writer has written, for a field on its own and for a list of values.
-/

set_option autoImplicit false

namespace DialF.Lib

universe u v

/-- A JSON document; a number that is no integer is left out. -/
inductive Json where
  | null
  | bool (b : Bool)
  | int (n : Int)
  | str (s : String)
  | arr (vs : List Json)
  | obj (fields : List (String × Json))

namespace Json

/-- The fields of an object. -/
abbrev Fields := List (String × Json)

variable {α : Type u} {β : Type v}

/-! ## Readers of values -/

/-- A boolean. -/
def asBool : Json → Option Bool
  | .bool b => some b
  | _ => none

/-- A string. -/
def asStr : Json → Option String
  | .str s => some s
  | _ => none

/-- A number in a range, as a value of a fixed-width type. -/
def asFixed (ofInt : Int → α) (lo hi : Int) : Json → Option α
  | .int n => if lo ≤ n ∧ n ≤ hi then some (ofInt n) else none
  | _ => none

/-- An integer that fits into `i64`. -/
def asI64 : Json → Option Int64 := asFixed Int64.ofInt (-9223372036854775808) 9223372036854775807

/-- An integer that fits into `i32`. -/
def asI32 : Json → Option Int32 := asFixed Int32.ofInt (-2147483648) 2147483647

/-- An integer that fits into `u16`. -/
def asU16 : Json → Option UInt16 := asFixed (fun n => UInt16.ofNat n.toNat) 0 65535

/-- An integer that fits into `u8`. -/
def asU8 : Json → Option UInt8 := asFixed (fun n => UInt8.ofNat n.toNat) 0 255

/-- A value that may be null. -/
def nullable (d : Json → Option α) : Json → Option (Option α)
  | .null => some none
  | v => (d v).map some

/-- An array, each item of which can be read. -/
def asArray (d : Json → Option α) : Json → Option (List α)
  | .arr vs => vs.mapM d
  | _ => none

/-- An object, read through its fields. -/
def asObject (d : Fields → Option α) : Json → Option α
  | .obj fields => d fields
  | _ => none

/-! ## Readers of fields -/

/-- A field that has to be there. -/
def required (k : String) (d : Json → Option α) (o : Fields) : Option α := (o.lookup k).bind d

/-- A field that has a default. -/
def defaulted (k : String) (d : Json → Option α) (default : α) (o : Fields) : Option α :=
  match o.lookup k with
  | some v => d v
  | none => some default

/-- A field that may be absent, or null. -/
def optional (k : String) (d : Json → Option α) (o : Fields) : Option (Option α) :=
  defaulted k (nullable d) none o

/-! ## Writers -/

/-- A value, or null. -/
def ofOption (e : α → Json) : Option α → Json
  | some a => e a
  | none => .null

/-- A field that is left out where there is no value. -/
def optField (k : String) (e : α → Json) : Option α → Fields
  | some a => [(k, e a)]
  | none => []

/-! ## What is read of what has been written -/

@[simp] theorem asI64_int (x : Int64) : asI64 (.int x.toInt) = some x := by
  have hlo := Int64.le_toInt x
  have hhi := Int64.toInt_lt x
  simp only [asI64, asFixed]
  rw [if_pos (by omega), Int64.ofInt_toInt]

@[simp] theorem asI32_int (x : Int32) : asI32 (.int x.toInt) = some x := by
  have hlo := Int32.le_toInt x
  have hhi := Int32.toInt_lt x
  simp only [asI32, asFixed]
  rw [if_pos (by omega), Int32.ofInt_toInt]

theorem asU16_int {n : Int} (hlo : 0 ≤ n) (hhi : n ≤ 65535) :
    asU16 (.int n) = some (UInt16.ofNat n.toNat) :=
  if_pos ⟨hlo, hhi⟩

variable {e : α → Json} {d : Json → Option β} {g : α → β} {k k' : String} {o : Fields}

theorem nullable_of_ne_null {v : Json} (h : v ≠ .null) : nullable d v = (d v).map some := by
  cases v with
  | null => exact absurd rfl h
  | _ => rfl

/-- A reader that takes the writer's values, and no null, takes null for no value. -/
theorem nullable_ofOption (hd : ∀ a, d (e a) = some (g a)) (he : ∀ a, e a ≠ .null)
    (a : Option α) : nullable d (ofOption e a) = some (a.map g) := by
  cases a with
  | none => rfl
  | some a =>
      -- the writer's value is not taken for null
      rw [ofOption, nullable_of_ne_null (he a), hd]
      rfl

theorem asArray_map (hd : ∀ a, d (e a) = some (g a)) (as : List α) :
    asArray d (.arr (as.map e)) = some (as.map g) := by
  rw [asArray]
  induction as with
  | nil => rfl
  | cons a as ih => simp [hd, ih]

theorem lookup_optField (a : Option α) :
    (optField k e a).lookup k' = if k' = k then a.map e else none := by
  cases a with
  | none => simp [optField]
  | some a =>
      by_cases hk : k' = k
      · simp [optField, hk]
      · have hne : (k' == k) = false := by simpa using hk
        simp [optField, hk, hne, List.lookup_cons]

theorem required_of_lookup {v : Json} (h : o.lookup k = some v) : required k d o = d v := by
  rw [required, h]
  rfl

theorem optional_of_lookup {v : Json} (h : o.lookup k = some v) :
    optional k d o = nullable d v := by
  rw [optional, defaulted, h]

theorem optional_of_absent (h : o.lookup k = none) : optional k d o = some none := by
  rw [optional, defaulted, h]

/-- A field that is left out where there is no value is read as it was. -/
theorem optional_of_optField (hd : ∀ a, d (e a) = some (g a)) (he : ∀ a, e a ≠ .null)
    {a : Option α} (h : o.lookup k = a.map e) : optional k d o = some (a.map g) := by
  cases a with
  | none => exact optional_of_absent h
  | some a => rw [optional_of_lookup h, nullable_of_ne_null (he a), hd]; rfl

end Json

end DialF.Lib
