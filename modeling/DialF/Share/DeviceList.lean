import Mathlib.Data.List.Flatten
import DialF.Share.Gate

/-!
# Filtered device lists

The parser of a device list, and what the filter makes of a list: a text of lines, each with a line
feed at its end (`IsListing`), comes out as those of its lines whose first word is shared, and
parsing it gives the devices of the whole list that are shared. `filterDeviceList_exact` says this
of every list, and of the stream of lists that a tracking peer is sent.
-/

set_option autoImplicit false

namespace DialF.Share

open DialF.Lib

/-! ## Parsing -/

/-- One device as the adb server reports it. -/
structure Device where
  serial : Str
  state : Str
  model : Option Str
  deriving DecidableEq

/-- `Device::is_ready`. -/
def Device.isReady (d : Device) : Bool := d.state == "device".toList

/-- The words of a line, `word` read so far of the one at its head. -/
def wordsGo (word : Str) : Str → List Str
  | [] => if word.isEmpty then [] else [word]
  | c :: s =>
      if isWhitespace c then
        if word.isEmpty then wordsGo [] s else word :: wordsGo [] s
      else wordsGo (word ++ [c]) s

/-- `split_whitespace`. -/
def words (line : Str) : List Str := wordsGo [] line

/-- One line of the list. -/
def parseDevice (line : Str) : Option Device :=
  match words line with
  | [] => none
  | serial :: parts =>
      some {
        serial
        state := parts.headD "unknown".toList
        model := (parts.tail.findSome? (stripPrefix "model:".toList)).map fun m =>
          m.map fun c => if c = '_' then ' ' else c }

/-- Parse a `host:devices-l` payload. -/
def parseDeviceList (payload : Str) : List Device :=
  ((lines payload).filter fun line => !(trim line).isEmpty).filterMap parseDevice

/-! ## Lists of lines -/

/-- The first word of a line is a shared serial. -/
def isShared (list : List Str) (line : Str) : Bool :=
  !(firstWord line).isEmpty && (Targets.only list).allows (firstWord line)

/-- Lines with a line feed at the end of each, and no carriage return. -/
structure IsListing (t : Str) : Prop where
  ends : t = [] ∨ t.getLast? = some '\n'
  noCr : '\r' ∉ t

/-- The lines of a list that are kept are the shared ones, as they are and in their order. -/
structure FiltersExactly (list : List Str) (t : Str) : Prop where
  whole : t = (lines t).flatMap (· ++ ['\n'])
  kept : filterDeviceList t (.only list) = ((lines t).filter (isShared list)).flatMap (· ++ ['\n'])
  lines : lines (filterDeviceList t (.only list)) = (lines t).filter (isShared list)
  parsed : parseDeviceList (filterDeviceList t (.only list)) =
    (parseDeviceList t).filter fun d => (Targets.only list).allows d.serial
  again : filterDeviceList (filterDeviceList t (.only list)) (.only list) =
    filterDeviceList t (.only list)

variable {list : List Str} {t : Str}

theorem stripCr_of_not_mem {line : Str} (h : '\r' ∉ line) : stripCr line = line :=
  if_neg fun hlast => h (List.mem_of_getLast? hlast)

/-- The lines of a list, put together again, are the list. -/
theorem flatMap_linesGo {line : Str} (hline : '\r' ∉ line) (hcr : '\r' ∉ t) (hne : t ≠ [])
    (hends : t.getLast? = some '\n') :
    (linesGo line t).flatMap (· ++ ['\n']) = line ++ t := by
  induction t generalizing line with
  | nil => exact absurd rfl hne
  | cons c t ih =>
      simp only [List.mem_cons, not_or] at hcr
      rw [linesGo]
      split
      · rename_i hc
        subst hc
        rw [List.flatMap_cons, stripCr_of_not_mem hline]
        cases t with
        | nil => simp [linesGo]
        | cons d t =>
            rw [ih (by simp) hcr.2 (by simp) (by simpa using hends)]
            simp
      · rename_i hc
        have hline' : '\r' ∉ line ++ [c] := by
          simp only [List.mem_append, List.mem_singleton, not_or]
          exact ⟨hline, hcr.1⟩
        cases t with
        | nil => exact absurd (by simpa using hends) hc
        | cons d t =>
            rw [ih hline' hcr.2 (by simp) (by simpa using hends)]
            simp

theorem IsListing.whole (h : IsListing t) : (lines t).flatMap (· ++ ['\n']) = t := by
  rcases h.ends with rfl | hends
  · rfl
  · have hne : t ≠ [] := by
      rintro rfl
      simp at hends
    exact flatMap_linesGo (by simp) h.noCr hne hends

theorem IsListing.not_mem_line (h : IsListing t) {line : Str} (hline : line ∈ lines t) :
    '\n' ∉ line ∧ '\r' ∉ line := by
  refine ⟨newline_not_mem_of_mem_linesGo (by simp) hline, fun hcr => h.noCr ?_⟩
  rw [← h.whole]
  exact List.mem_flatMap.2 ⟨line, hline, by simp [hcr]⟩

/-- The lines of some of the lines are these. -/
theorem IsListing.lines_flatMap (h : IsListing t) {ls : List Str} (hls : ∀ l ∈ ls, l ∈ lines t) :
    lines (ls.flatMap (· ++ ['\n'])) = ls := by
  rw [lines_flatMap_newline fun l hl => (h.not_mem_line (hls l hl)).1]
  conv_rhs => rw [← List.map_id ls]
  exact List.map_congr_left fun l hl => stripCr_of_not_mem (h.not_mem_line (hls l hl)).2

/-! ## The first word -/

theorem firstWord_cons_of_blank {c : Char} (hc : isWhitespace c = true) (line : Str) :
    firstWord (c :: line) = firstWord line := by
  rw [firstWord, List.dropWhile_cons_of_pos hc, firstWord]

theorem firstWord_cons_of_not_blank {c : Char} (hc : ¬ isWhitespace c = true) (line : Str) :
    firstWord (c :: line) = c :: line.takeWhile fun c => !isWhitespace c := by
  rw [firstWord, List.dropWhile_cons_of_neg hc, List.takeWhile_cons_of_pos (by simpa using hc)]

theorem head?_wordsGo (word line : Str) :
    (wordsGo word line).head? =
      if word = [] then if firstWord line = [] then none else some (firstWord line)
      else some (word ++ line.takeWhile fun c => !isWhitespace c) := by
  induction line generalizing word with
  | nil => cases word <;> simp [wordsGo, firstWord]
  | cons c line ih =>
      rw [wordsGo]
      by_cases hc : isWhitespace c = true
      · rw [if_pos hc, firstWord_cons_of_blank hc]
        cases word with
        | nil => simp [ih]
        | cons d word => simp [hc]
      · rw [if_neg hc, ih, if_neg (by simp), firstWord_cons_of_not_blank hc]
        cases word with
        | nil => simp
        | cons d word => simp [hc]

/-- A parsed device has the first word of its line for a serial. -/
theorem serial_of_parseDevice {line : Str} {d : Device} (h : parseDevice line = some d) :
    d.serial = firstWord line ∧ firstWord line ≠ [] := by
  have hhead := head?_wordsGo [] line
  rw [if_pos rfl] at hhead
  rw [parseDevice, words] at h
  cases hwords : wordsGo [] line with
  | nil => simp [hwords] at h
  | cons serial parts =>
      rw [hwords, List.head?_cons] at hhead
      rw [hwords] at h
      obtain rfl := Option.some.inj h
      split at hhead
      · cases hhead
      · rename_i hne
        exact ⟨Option.some.inj hhead, hne⟩

/-- A line is kept and parsed, or parsed and kept. -/
theorem filterMap_parseDevice (ls : List Str) :
    ((ls.filter (isShared list)).filter fun line => !(trim line).isEmpty).filterMap parseDevice =
      ((ls.filter fun line => !(trim line).isEmpty).filterMap parseDevice).filter
        fun d => (Targets.only list).allows d.serial := by
  induction ls with
  | nil => rfl
  | cons line ls ih =>
      cases hblank : !(trim line).isEmpty with
      | false =>
          rw [List.filter_cons (p := fun line => !(trim line).isEmpty), hblank]
          cases hshared : isShared list line with
          | false => simpa [List.filter_cons, hshared] using ih
          | true => simpa [List.filter_cons, hshared, hblank] using ih
      | true =>
          cases hparse : parseDevice line with
          | none =>
              cases hshared : isShared list line with
              | false => simpa [List.filter_cons, hshared, hblank, hparse] using ih
              | true => simpa [List.filter_cons, hshared, hblank, hparse] using ih
          | some d =>
              obtain ⟨hserial, hne⟩ := serial_of_parseDevice hparse
              have hkept : (Targets.only list).allows d.serial = isShared list line := by
                rw [isShared, hserial]
                simp [hne]
              cases hshared : isShared list line with
              | false =>
                  rw [hshared] at hkept
                  simpa [List.filter_cons, hshared, hblank, hparse, hkept] using ih
              | true =>
                  rw [hshared] at hkept
                  simpa [List.filter_cons, hshared, hblank, hparse, hkept] using ih

/-- **A list is filtered exactly.** -/
theorem filtersExactly (h : IsListing t) : FiltersExactly list t := by
  have hsub : ∀ l ∈ (lines t).filter (isShared list), l ∈ lines t :=
    fun l hl => (List.mem_filter.1 hl).1
  have hkept : filterDeviceList t (.only list) =
      ((lines t).filter (isShared list)).flatMap (· ++ ['\n']) := rfl
  have hlines : lines (filterDeviceList t (.only list)) = (lines t).filter (isShared list) := by
    rw [hkept, h.lines_flatMap hsub]
  refine ⟨h.whole.symm, hkept, hlines, ?_, ?_⟩
  · rw [parseDeviceList, hlines, filterMap_parseDevice, parseDeviceList]
  · show ((lines (filterDeviceList t (.only list))).filter (isShared list)).flatMap _ = _
    rw [hlines, List.filter_filter, hkept]
    simp

/-! ## The stream of lists -/

theorem length_utf8_le {s s' : Str} (h : s.Sublist s') : (utf8 s).length ≤ (utf8 s').length :=
  (h.flatMap String.utf8EncodeChar).length_le

/-- A filtered list is no longer than the list. -/
theorem fits_filterDeviceList (h : IsListing t) (hfit : Fits t) (targets : Targets) :
    Fits (filterDeviceList t targets) := by
  cases targets with
  | all => exact hfit
  | only list =>
      refine Nat.lt_of_le_of_lt (length_utf8_le ?_) hfit
      have hsub := (List.filter_sublist (p := isShared list) (l := lines t)).flatMap (· ++ ['\n'])
      rw [h.whole] at hsub
      exact hsub

/-- The upstream closes within a message, or between two. -/
def IsCutShort (tail : Bytes) : Prop :=
  tail = [] ∨ ∃ t rest, Fits t ∧ writeMessage t = tail ++ rest ∧ rest ≠ []

/-- The messages that are relayed: all of a stream, or the one reply. -/
def relayed (streaming : Bool) (messages : List Str) : List Str :=
  if streaming then messages else messages.take 1

/-- What the peer is sent is the filtered messages, each a frame of its own length. -/
structure RelaysExactly (targets : Targets) (request : Str) (rest : Bytes) (messages : List Str)
    (tail : Bytes) (streaming : Bool) : Prop where
  down : (relayFilteredList request rest (okay ++ messages.flatMap writeMessage ++ tail) targets
      streaming).down.flatMap Write.bytes =
    okay ++ (relayed streaming messages).flatMap fun t => writeMessage (filterDeviceList t targets)
  fits : ∀ t ∈ relayed streaming messages, Fits (filterDeviceList t targets)

theorem relaysExactly (targets : Targets) (request : Str) (rest : Bytes) {messages : List Str}
    {tail : Bytes} (streaming : Bool) (hmessages : ∀ t ∈ messages, IsListing t ∧ Fits t)
    (htail : IsCutShort tail) : RelaysExactly targets request rest messages tail streaming := by
  -- nothing more is read from a message that is not all there
  have hcut : Frame.cut readLength tail = none := by
    rcases htail with rfl | ⟨t, after, hfit, hsplit, hafter⟩
    · rfl
    · exact Frame.cut_of_short readLength_hex04 hfit hsplit hafter
  have hfit : ∀ p ∈ messages.map utf8, p.length < 65536 := by
    intro p hp
    obtain ⟨t, ht, rfl⟩ := List.mem_map.1 hp
    exact (hmessages t ht).2
  have hframes : messages.flatMap writeMessage = (messages.map utf8).flatMap Frame.encode := by
    rw [List.flatMap_map]
    rfl
  have hdrop : (okay ++ messages.flatMap writeMessage ++ tail).drop 4 =
      (messages.map utf8).flatMap Frame.encode ++ tail := by
    rw [hframes, List.append_assoc]
    rfl
  have htake : (okay ++ messages.flatMap writeMessage ++ tail).take 4 = okay := rfl
  have hlen : ¬ (okay ++ messages.flatMap writeMessage ++ tail).length < 4 := by
    have hokay : okay.length = 4 := rfl
    simp only [List.length_append, hokay]
    omega
  constructor
  · rw [relayFilteredList, if_neg hlen, htake, if_neg (by simp), hdrop,
      Frame.payloads_flatMap_encode readLength_hex04 hfit hcut]
    rw [List.flatMap_cons, List.flatMap_map]
    congr 1
    rw [relayed]
    cases streaming with
    | true => simp [List.flatMap_map, Write.bytes]
    | false =>
        cases messages with
        | nil => rfl
        | cons t messages => simp [Write.bytes]
  · intro t ht
    have hmem : t ∈ messages := by
      rw [relayed] at ht
      split at ht
      · exact ht
      · exact List.mem_of_mem_take ht
    exact fits_filterDeviceList (hmessages t hmem).1 (hmessages t hmem).2 targets

/-- **Device-list filtering is exact**, list by list and along the stream. -/
theorem filterDeviceList_exact :
    (∀ list t, IsListing t → FiltersExactly list t) ∧
      (∀ t, filterDeviceList t .all = t) ∧
        ∀ (targets : Targets) (request : Str) (rest : Bytes) (messages : List Str) (tail : Bytes)
          (streaming : Bool), (∀ t ∈ messages, IsListing t ∧ Fits t) → IsCutShort tail →
            RelaysExactly targets request rest messages tail streaming :=
  ⟨fun _ _ h => filtersExactly h, fun _ => rfl,
    fun targets request rest _ _ streaming hmessages htail =>
      relaysExactly targets request rest streaming hmessages htail⟩

/-- Two devices, one of which is shared. -/
def twoDevices : Str := "A\tdevice\nB\toffline\n".toList

theorem filterDeviceList_exact_twoDevices :
    FiltersExactly ["A".toList] twoDevices ∧
      RelaysExactly (.only ["A".toList]) "host:track-devices".toList [] [twoDevices, []] [] true ∧
        filterDeviceList twoDevices (.only ["A".toList]) = "A\tdevice\n".toList := by
  have htwo : IsListing twoDevices := ⟨by decide, by decide⟩
  have hempty : IsListing [] := ⟨Or.inl rfl, by simp⟩
  refine ⟨filterDeviceList_exact.1 _ _ htwo, ?_, by decide⟩
  apply filterDeviceList_exact.2.2
  · intro t ht
    simp only [List.mem_cons, List.not_mem_nil, or_false] at ht
    rcases ht with rfl | rfl
    · exact ⟨htwo, by unfold Fits; decide⟩
    · exact ⟨hempty, by unfold Fits; decide⟩
  · exact Or.inl rfl

end DialF.Share
