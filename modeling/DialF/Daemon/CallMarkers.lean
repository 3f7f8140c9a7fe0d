import DialF.Lib.Text
import Mathlib.Data.List.AList

/-!
# Call markers

A marker on disk records a call that a job drives, so that a daemon that starts after a crash can
find it. There is one file for each device, named after the device with all unusual characters
replaced, and the daemon reads the device and the call back from the first two lines of the text.
-/

set_option autoImplicit false

namespace DialF.Daemon

/-- The marker directory: file names and texts. -/
abbrev MarkerDir := AList fun _ : String => List Char

/-- What `call_marker_file` makes of a character of a device id. -/
def sanitize (c : Char) : Char :=
  if ('a' ≤ c ∧ c ≤ 'z') ∨ ('A' ≤ c ∧ c ≤ 'Z') ∨ ('0' ≤ c ∧ c ≤ '9') ∨ c = '-' ∨ c = '_' then c
  else '_'

/-- `call_marker_file`: the file's name, from the device. -/
def callMarkerFile (deviceId : String) : String :=
  String.ofList ("call-".toList ++ deviceId.toList.map sanitize)

/-- What the marker holds: the device and the call, a line each. -/
def markerText (deviceId callId : String) : List Char :=
  deviceId.toList ++ '\n' :: callId.toList

/-- The next line of a text and what follows it; a text that is used up has none. -/
def takeLine (text : List Char) : Option (List Char × List Char) :=
  match text with
  | [] => none
  | _ :: _ =>
      match text.span fun c => c ≠ '\n' with
      | (line, _ :: rest) => some (Lib.stripCr line, rest)
      | (line, []) => some (line, [])

/-- The device and the call that a marker names: its first two lines. -/
def readMarker (text : List Char) : Option (String × String) :=
  match takeLine text with
  | some (dev, rest) =>
      match takeLine rest with
      | some (call, _) => some (String.ofList dev, String.ofList call)
      | none => none
  | none => none

/-- What is found after an erase was there before. -/
theorem lookup_of_lookup_erase {β : String → Type} {m : AList β} {a b : String} {v : β b}
    (h : (m.erase a).lookup b = some v) : m.lookup b = some v := by
  by_cases hab : b = a
  · subst hab
    rw [AList.lookup_erase] at h
    exact absurd h (by simp)
  · rwa [AList.lookup_erase_ne hab] at h

namespace MarkerDir

/-- `write_call_marker`. -/
def writeCallMarker (dir : MarkerDir) (deviceId callId : String) : MarkerDir :=
  dir.insert (callMarkerFile deviceId) (markerText deviceId callId)

/-- `remove_call_marker`. -/
def removeCallMarker (dir : MarkerDir) (deviceId : String) : MarkerDir :=
  dir.erase (callMarkerFile deviceId)

/-- `load_call_markers`: of two files that name one device, the one read later counts. -/
def loadCallMarkers (dir : MarkerDir) : AList fun _ : String => String :=
  (dir.entries.filterMap fun e => readMarker e.2).foldl (fun out m => out.insert m.1 m.2) ∅

/-- Some file names the call as the device's. -/
def Marks (dir : MarkerDir) (deviceId callId : String) : Prop :=
  ∃ e ∈ dir.entries, readMarker e.2 = some (deviceId, callId)

instance (dir : MarkerDir) (deviceId callId : String) : Decidable (dir.Marks deviceId callId) :=
  inferInstanceAs (Decidable (∃ e ∈ dir.entries, readMarker e.2 = some (deviceId, callId)))

variable {dir : MarkerDir} {deviceId callId other otherCall : String}

theorem marks_iff :
    dir.Marks deviceId callId ↔
      ∃ file text, dir.lookup file = some text ∧ readMarker text = some (deviceId, callId) := by
  constructor
  · rintro ⟨⟨file, text⟩, hmem, hread⟩
    exact ⟨file, text, AList.mem_lookup_iff.2 hmem, hread⟩
  · rintro ⟨file, text, hlookup, hread⟩
    exact ⟨⟨file, text⟩, AList.mem_lookup_iff.1 hlookup, hread⟩

/-- A write adds what its text is read as. -/
theorem marks_writeCallMarker
    (h : (dir.writeCallMarker other otherCall).Marks deviceId callId) :
    dir.Marks deviceId callId ∨
      readMarker (markerText other otherCall) = some (deviceId, callId) := by
  obtain ⟨file, text, hlookup, hread⟩ := marks_iff.1 h
  by_cases hfile : file = callMarkerFile other
  · subst hfile
    rw [writeCallMarker, AList.lookup_insert] at hlookup
    obtain rfl := Option.some.inj hlookup
    exact Or.inr hread
  · rw [writeCallMarker, AList.lookup_insert_ne hfile] at hlookup
    exact Or.inl (marks_iff.2 ⟨file, text, hlookup, hread⟩)

theorem marks_removeCallMarker (h : (dir.removeCallMarker other).Marks deviceId callId) :
    dir.Marks deviceId callId := by
  obtain ⟨file, text, hlookup, hread⟩ := marks_iff.1 h
  exact marks_iff.2 ⟨file, text, lookup_of_lookup_erase hlookup, hread⟩

theorem lookup_foldl_insert (ms : List (String × String)) {out : AList fun _ : String => String}
    (h : (ms.foldl (fun out m => out.insert m.1 m.2) out).lookup deviceId = some callId) :
    out.lookup deviceId = some callId ∨ (deviceId, callId) ∈ ms := by
  induction ms generalizing out with
  | nil => exact Or.inl h
  | cons m ms ih =>
      rw [List.foldl_cons] at h
      rcases ih h with hout | hmem
      · by_cases hdev : deviceId = m.1
        · subst hdev
          rw [AList.lookup_insert] at hout
          obtain rfl := Option.some.inj hout
          exact Or.inr (List.mem_cons_self ..)
        · rw [AList.lookup_insert_ne hdev] at hout
          exact Or.inl hout
      · exact Or.inr (List.mem_cons_of_mem _ hmem)

/-- What is loaded is marked. -/
theorem marks_of_load (h : dir.loadCallMarkers.lookup deviceId = some callId) :
    dir.Marks deviceId callId := by
  rcases lookup_foldl_insert _ h with hempty | hmem
  · simp at hempty
  · obtain ⟨e, he, hread⟩ := List.mem_filterMap.1 hmem
    exact ⟨e, he, hread⟩

end MarkerDir

end DialF.Daemon
