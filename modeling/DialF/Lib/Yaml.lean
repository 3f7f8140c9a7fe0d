import DialF.Lib.Text

/-!
# YAML documents

A document as a tree of values, in which a mapping keeps the order of its entries. Keys are looked
up through tags, as values are read; setting the value of a key that is there leaves all other keys
as they are (`get_set`).
-/

set_option autoImplicit false

namespace DialF.Lib

mutual

/-- A YAML document. -/
inductive Yaml where
  | null
  | bool (b : Bool)
  | number (text : Str)
  | string (s : Str)
  | sequence (items : YamlItems)
  | mapping (entries : YamlEntries)
  | tagged (tag : Str) (value : Yaml)

/-- The items of a sequence. -/
inductive YamlItems where
  | nil
  | cons (item : Yaml) (items : YamlItems)

/-- The entries of a mapping, in order. -/
inductive YamlEntries where
  | nil
  | cons (key value : Yaml) (entries : YamlEntries)

end

deriving instance DecidableEq for Yaml, YamlItems, YamlEntries

namespace YamlItems

/-- The items as a list. -/
def toList : YamlItems → List Yaml
  | nil => []
  | cons item items => item :: toList items

/-- The items of a list. -/
def ofList : List Yaml → YamlItems
  | [] => nil
  | item :: items => cons item (ofList items)

end YamlItems

namespace YamlEntries

/-- The value of the first entry with the string as its key. -/
def get (key : Str) : YamlEntries → Option Yaml
  | nil => none
  | cons k v entries => if k = .string key then some v else get key entries

/-- The entries as a list. -/
def toList : YamlEntries → List (Yaml × Yaml)
  | nil => []
  | cons k v entries => (k, v) :: toList entries

/-- A key that is there gets a new value. -/
def set (key : Str) (new : Yaml) : YamlEntries → YamlEntries
  | nil => nil
  | cons k v entries =>
      if k = .string key then cons k new entries else cons k v (set key new entries)

/-- A key gets a value, at its place or at the end. -/
def insert (key : Str) (new : Yaml) : YamlEntries → YamlEntries
  | nil => cons (.string key) new nil
  | cons k v entries =>
      if k = .string key then cons k new entries else cons k v (insert key new entries)

end YamlEntries

namespace Yaml

/-- The value behind its tags. -/
def untag : Yaml → Yaml
  | tagged _ value => untag value
  | value => value

/-- A string, under any tag. -/
def asStr (v : Yaml) : Option Str :=
  match v.untag with
  | string s => some s
  | _ => none

/-- A mapping, under any tag. -/
def asMapping (v : Yaml) : Option YamlEntries :=
  match v.untag with
  | mapping entries => some entries
  | _ => none

/-- A sequence, under any tag. -/
def asSequence (v : Yaml) : Option (List Yaml) :=
  match v.untag with
  | sequence items => some items.toList
  | _ => none

/-- The same value, tags and all, with other entries. -/
def withEntries (entries : YamlEntries) : Yaml → Yaml
  | tagged tag value => tagged tag (withEntries entries value)
  | mapping _ => mapping entries
  | value => value

/-- The value of a key, of a mapping. -/
def get (key : Str) (v : Yaml) : Option Yaml := v.asMapping.bind (YamlEntries.get key)

/-- The value of a key replaced where the mapping has the key. -/
def set (key : Str) (v new : Yaml) : Yaml :=
  match v.asMapping with
  | some entries => v.withEntries (entries.set key new)
  | none => v

/-- The value of a key replaced, or added at the end of the mapping. -/
def insert (key : Str) (v new : Yaml) : Yaml :=
  match v.asMapping with
  | some entries => v.withEntries (entries.insert key new)
  | none => v

end Yaml

section Keys

variable {key key' : Str} {new v old : Yaml} {entries : YamlEntries}

/-- Induction on the entries of a mapping. -/
@[elab_as_elim]
theorem entries_rec {motive : YamlEntries → Prop} (nil : motive .nil)
    (cons : ∀ k v entries, motive entries → motive (.cons k v entries)) :
    ∀ entries, motive entries
  | .nil => nil
  | .cons k v entries => cons k v entries (entries_rec nil cons entries)

/-- Induction on the tags of a value. -/
@[elab_as_elim]
theorem untag_rec {motive : Yaml → Prop} (tagged : ∀ tag v, motive v → motive (.tagged tag v))
    (plain : ∀ v : Yaml, v.untag = v → motive v) : ∀ v, motive v
  | .tagged tag v => tagged tag v (untag_rec tagged plain v)
  | .null => plain _ rfl
  | .bool _ => plain _ rfl
  | .number _ => plain _ rfl
  | .string _ => plain _ rfl
  | .sequence _ => plain _ rfl
  | .mapping _ => plain _ rfl

theorem YamlEntries.get_set (h : (entries.get key).isSome) :
    (entries.set key new).get key' = if key' = key then some new else entries.get key' := by
  induction entries using entries_rec with
  | nil => simp [get] at h
  | cons k v entries ih =>
      rw [set, get] at *
      by_cases hk : k = .string key
      · subst hk
        rw [if_pos rfl, get]
        by_cases hkey : key' = key
        · rw [if_pos hkey, if_pos (by rw [hkey])]
        · have hne : Yaml.string key ≠ .string key' := fun heq => hkey (Yaml.string.inj heq).symm
          rw [if_neg hkey, if_neg hne, if_neg hne]
      · rw [if_neg hk] at h ⊢
        rw [get]
        by_cases hk' : k = .string key'
        · have hne : key' ≠ key := by
            rintro rfl
            exact hk hk'
          rw [if_pos hk', if_neg hne, if_pos hk']
        · rw [if_neg hk', if_neg hk', ih h]

theorem Yaml.asMapping_withEntries {entries' : YamlEntries} (h : v.asMapping = some entries) :
    (v.withEntries entries').asMapping = some entries' := by
  induction v using untag_rec with
  | tagged tag v ih => exact ih h
  | plain v hv =>
      rw [asMapping, hv] at h
      cases v with
      | mapping _ => rfl
      | _ => simp at h

theorem Yaml.isSome_asMapping_set : (v.set key new).asMapping.isSome = v.asMapping.isSome := by
  cases hmap : v.asMapping with
  | none => rw [set, hmap, hmap]
  | some entries =>
      rw [set, hmap, asMapping_withEntries hmap]
      rfl

/-- **A key that gets a new value** has it, and the other keys have what they had. -/
theorem Yaml.get_set (h : (v.get key).isSome) :
    (v.set key new).get key' = if key' = key then some new else v.get key' := by
  cases hmap : v.asMapping with
  | none => simp [get, hmap] at h
  | some entries =>
      rw [get, hmap, Option.bind_some] at h
      rw [set, hmap, get, asMapping_withEntries hmap, Option.bind_some, YamlEntries.get_set h, get,
        hmap, Option.bind_some]

theorem YamlEntries.get_insert :
    (entries.insert key new).get key' = if key' = key then some new else entries.get key' := by
  induction entries using entries_rec with
  | nil =>
      rw [insert, get, get]
      by_cases hkey : key' = key
      · rw [if_pos hkey, if_pos (by rw [hkey])]
      · rw [if_neg hkey, if_neg fun heq => hkey (Yaml.string.inj heq).symm]
        rfl
  | cons k v entries ih =>
      rw [insert, get]
      by_cases hk : k = .string key
      · subst hk
        rw [if_pos rfl, get]
        by_cases hkey : key' = key
        · rw [if_pos hkey, if_pos (by rw [hkey])]
        · have hne : Yaml.string key ≠ .string key' := fun heq => hkey (Yaml.string.inj heq).symm
          rw [if_neg hkey, if_neg hne, if_neg hne]
      · rw [if_neg hk, get, ih]
        by_cases hk' : k = .string key'
        · have hne : key' ≠ key := by
            rintro rfl
            exact hk hk'
          rw [if_pos hk', if_pos hk', if_neg hne]
        · rw [if_neg hk', if_neg hk']

theorem Yaml.get_insert (h : v.asMapping = some entries) :
    (v.insert key new).get key' = if key' = key then some new else v.get key' := by
  rw [insert, h, get, asMapping_withEntries h, Option.bind_some, YamlEntries.get_insert, get, h,
    Option.bind_some]

end Keys

end DialF.Lib
