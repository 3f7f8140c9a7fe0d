import Mathlib.Algebra.Order.BigOperators.Group.List
import Mathlib.Algebra.Order.Group.Nat
import Mathlib.Data.List.TakeDrop
import Mathlib.Data.List.TakeWhile
import DialF.Daemon.CallMarkers
import DialF.Lib.LastWrite

/-!
# The marker store as a map

Markers are written and removed; what is loaded from the directory, whatever the order it is read
in, ought to be the live entries (`LoadsLive`). A file system need not take every file name, and may
take two for one (`entry`).

`loadsLive_iff`: it is, exactly where each live entry can be read back from its text (`Plain`) and
no later operation on another device has come to its file (`Survives`). A text never names a device
with a longer id than its own, so that what is lost of one entry cannot be made up for by others.
-/

set_option autoImplicit false

namespace DialF.Daemon

open DialF.Lib

/-- A write or a remove, of a device's marker. -/
abbrev MarkerOp := MapOp String String

namespace MarkerDir

/-- The entry of the directory that a device's file name stands for, if the file system takes it. -/
def place (entry : String → Option String) (deviceId : String) : Option String :=
  entry (callMarkerFile deviceId)

/-- An operation; one on a name that is not taken is lost. -/
def apply (entry : String → Option String) (dir : MarkerDir) : MarkerOp → MarkerDir
  | .write deviceId callId =>
      match place entry deviceId with
      | some name => dir.insert name (markerText deviceId callId)
      | none => dir
  | .remove deviceId =>
      match place entry deviceId with
      | some name => dir.erase name
      | none => dir

/-- The directory after operations; at first it is not there. -/
def after (entry : String → Option String) (ops : List MarkerOp) : MarkerDir :=
  ops.foldl (apply entry) ∅

/-- `load_call_markers`, with the files in the order in which the directory is read. -/
def loadFiles (files : List (Sigma fun _ : String => List Char)) : AList fun _ : String => String :=
  (files.filterMap fun e => readMarker e.2).foldl (fun out m => out.insert m.1 m.2) ∅

/-- On a file system that takes every name for itself, operations are those of the daemon. -/
theorem apply_some (dir : MarkerDir) (op : MarkerOp) :
    dir.apply some op =
      match op with
      | .write deviceId callId => dir.writeCallMarker deviceId callId
      | .remove deviceId => dir.removeCallMarker deviceId := by
  cases op with
  | write deviceId callId => rfl
  | remove deviceId => rfl

end MarkerDir

/-- What is loaded are the live entries, in whatever order the files are read. -/
def LoadsLive (entry : String → Option String) (ops : List MarkerOp) : Prop :=
  ∀ files, files.Perm (MarkerDir.after entry ops).entries →
    ∀ deviceId, (MarkerDir.loadFiles files).lookup deviceId = live ops deviceId

/-- The marker of the device and the call can be read back. -/
structure Plain (deviceId callId : String) : Prop where
  device : '\n' ∉ deviceId.toList
  end_device : deviceId.toList.getLast? ≠ some '\r'
  call : '\n' ∉ callId.toList
  call_ne : callId ≠ ""

/-- The device's marker has been written, and no operation since has come to its file. -/
def Survives (entry : String → Option String) (ops : List MarkerOp) (deviceId callId : String) :
    Prop :=
  ∃ name, MarkerDir.place entry deviceId = some name ∧
    ∃ before after, ops = before ++ .write deviceId callId :: after ∧
      ∀ op ∈ after, MarkerDir.place entry op.key ≠ some name

/-! ## Texts -/

section Texts

variable {line rest text : List Char} {deviceId callId other otherCall : String}

theorem ne_feed_of_mem (h : '\n' ∉ line) : ∀ c ∈ line, decide (c ≠ '\n') = true := by
  intro c hc
  rw [decide_eq_true_eq]
  rintro rfl
  exact h hc

theorem takeLine_append (h : '\n' ∉ line) :
    takeLine (line ++ '\n' :: rest) = some (stripCr line, rest) := by
  have hspan : (line ++ '\n' :: rest).span (fun c => c ≠ '\n') = (line, '\n' :: rest) := by
    rw [List.span_eq_takeWhile_dropWhile, List.takeWhile_append_of_pos (ne_feed_of_mem h),
      List.dropWhile_append_of_pos (ne_feed_of_mem h)]
    simp
  cases hline : line ++ '\n' :: rest with
  | nil => simp at hline
  | cons c l =>
      rw [takeLine, ← hline, hspan]

theorem takeLine_of_not_mem (hne : line ≠ []) (h : '\n' ∉ line) : takeLine line = some (line, []) := by
  have hspan : line.span (fun c => c ≠ '\n') = (line, []) := by
    rw [List.span_eq_takeWhile_dropWhile, List.takeWhile_eq_self_iff.2 (ne_feed_of_mem h),
      List.dropWhile_eq_nil_iff.2 (ne_feed_of_mem h)]
  cases line with
  | nil => exact absurd rfl hne
  | cons c l => rw [takeLine, hspan]

theorem stripCr_isPrefix (line : List Char) : stripCr line <+: line := by
  rw [stripCr]
  split
  · exact List.dropLast_prefix line
  · exact List.prefix_refl line

theorem stripCr_eq_self_iff : stripCr line = line ↔ line.getLast? ≠ some '\r' := by
  rw [stripCr]
  split
  · rename_i h
    refine iff_of_false (fun heq => ?_) (not_not_intro h)
    have hlen := congrArg List.length heq
    have hne : line ≠ [] := by
      rintro rfl
      simp at h
    have hpos := List.length_pos_of_ne_nil hne
    rw [List.length_dropLast] at hlen
    omega
  · rename_i h
    exact iff_of_true rfl h

/-- A text up to its first line feed. -/
theorem exists_split (h : '\n' ∈ text) : ∃ line rest, text = line ++ '\n' :: rest ∧ '\n' ∉ line := by
  induction text with
  | nil => simp at h
  | cons c text ih =>
      by_cases hc : c = '\n'
      · exact ⟨[], text, by rw [hc]; rfl, by simp⟩
      · obtain ⟨line, rest, rfl, hline⟩ := ih (List.mem_of_ne_of_mem (Ne.symm hc) h)
        refine ⟨c :: line, rest, rfl, ?_⟩
        rw [List.mem_cons, not_or]
        exact ⟨Ne.symm hc, hline⟩

/-- The first line of a marker is one of its device id. -/
theorem takeLine_markerText (deviceId callId : String) :
    ∃ line rest, takeLine (markerText deviceId callId) = some (line, rest) ∧
      line <+: deviceId.toList ∧
        (line = deviceId.toList ↔
          '\n' ∉ deviceId.toList ∧ deviceId.toList.getLast? ≠ some '\r') ∧
          ('\n' ∉ deviceId.toList → rest = callId.toList) := by
  by_cases hfeed : '\n' ∈ deviceId.toList
  · obtain ⟨line, rest, hsplit, hline⟩ := exists_split hfeed
    refine ⟨stripCr line, rest ++ '\n' :: callId.toList, ?_, ?_, ?_, absurd hfeed⟩
    · rw [markerText, hsplit, List.append_assoc]
      exact takeLine_append hline
    · rw [hsplit]
      exact (stripCr_isPrefix line).trans (List.prefix_append _ _)
    · refine iff_of_false (fun heq => ?_) fun h => h.1 hfeed
      have hlen := (stripCr_isPrefix line).length_le
      rw [heq, hsplit, List.length_append, List.length_cons] at hlen
      omega
  · refine ⟨stripCr deviceId.toList, callId.toList, takeLine_append hfeed, stripCr_isPrefix _, ?_,
      fun _ => rfl⟩
    rw [stripCr_eq_self_iff]
    exact (and_iff_right hfeed).symm

/-- **A marker is read back** exactly where it is plain. -/
theorem readMarker_markerText_iff :
    readMarker (markerText deviceId callId) = some (deviceId, callId) ↔ Plain deviceId callId := by
  obtain ⟨line, rest, htake, -, hline, hrest⟩ := takeLine_markerText deviceId callId
  rw [readMarker, htake]
  constructor
  · intro h
    cases hcall : takeLine rest with
    | none => simp [hcall] at h
    | some second =>
        simp only [hcall, Option.some.injEq, Prod.mk.injEq] at h
        obtain ⟨hdev, hcallId⟩ := h
        have hdev' : line = deviceId.toList := by rw [← hdev, String.toList_ofList]
        obtain ⟨hfeed, hcr⟩ := hline.1 hdev'
        obtain rfl := hrest hfeed
        have hsecond : second.1 = callId.toList := by rw [← hcallId, String.toList_ofList]
        refine ⟨hfeed, hcr, fun hmem => ?_, ?_⟩
        · obtain ⟨first, more, hsplit, hfirst⟩ := exists_split hmem
          rw [hsplit, takeLine_append hfirst] at hcall
          have hlen := (stripCr_isPrefix first).length_le
          rw [(Prod.mk.inj (Option.some.inj hcall)).1, hsecond, hsplit, List.length_append,
            List.length_cons] at hlen
          omega
        · rintro rfl
          simp [takeLine] at hcall
  · intro h
    obtain rfl := hrest h.device
    have hne : callId.toList ≠ [] := by
      intro hnil
      exact h.call_ne (String.toList_eq_nil_iff.1 hnil)
    simp only [takeLine_of_not_mem hne h.call, hline.2 ⟨h.device, h.end_device⟩,
      String.ofList_toList]

/-- A marker names no device with a longer id. -/
theorem prefix_of_readMarker (h : readMarker (markerText other otherCall) = some (deviceId, callId)) :
    deviceId.toList <+: other.toList := by
  obtain ⟨line, rest, htake, hp, -⟩ := takeLine_markerText other otherCall
  rw [readMarker, htake] at h
  cases hcall : takeLine rest with
  | none => simp [hcall] at h
  | some second =>
      simp only [hcall, Option.some.injEq, Prod.mk.injEq] at h
      rw [← h.1, String.toList_ofList]
      exact hp

end Texts

/-! ## Loading -/

section Loading

variable {ms : List (String × String)} {out : AList fun _ : String => String}
  {deviceId callId : String}

theorem lookup_foldl_concat (ms : List (String × String)) (deviceId callId : String) :
    ((ms ++ [(deviceId, callId)]).foldl (fun out m => out.insert m.1 m.2) out).lookup deviceId =
      some callId := by
  rw [List.foldl_append, List.foldl_cons, List.foldl_nil, AList.lookup_insert]

/-- Where no two markers of a device name two calls, one of them is loaded. -/
theorem lookup_foldl_of_mem (hmem : (deviceId, callId) ∈ ms)
    (hone : ∀ callId', (deviceId, callId') ∈ ms → callId' = callId) :
    (ms.foldl (fun out m => out.insert m.1 m.2) out).lookup deviceId = some callId := by
  induction ms using List.reverseRecOn with
  | nil => simp at hmem
  | append_singleton ms m ih =>
      obtain ⟨dev, call⟩ := m
      by_cases hdev : dev = deviceId
      · subst hdev
        rw [lookup_foldl_concat, hone call (by simp)]
      · have hmem' : (deviceId, callId) ∈ ms := by
          rcases List.mem_append.1 hmem with h | h
          · exact h
          · exact absurd (Prod.mk.inj (List.mem_singleton.1 h)).1.symm hdev
        rw [List.foldl_append, List.foldl_cons, List.foldl_nil,
          AList.lookup_insert_ne (Ne.symm hdev)]
        exact ih hmem' fun callId' h => hone callId' (List.mem_append_left _ h)

end Loading

/-! ## Runs -/

section Runs

variable {entry : String → Option String} {ops : List MarkerOp}
  {deviceId callId other otherCall : String}

theorem lookup_apply (dir : MarkerDir) (op : MarkerOp) (name : String) :
    (dir.apply entry op).lookup name =
      if MarkerDir.place entry op.key = some name then op.value.map (markerText op.key)
      else dir.lookup name := by
  cases op with
  | write deviceId callId =>
      rw [MarkerDir.apply, MapOp.key, MapOp.value, Option.map_some]
      cases MarkerDir.place entry deviceId with
      | none => rfl
      | some name' =>
          by_cases hname : name = name'
          · rw [hname, if_pos rfl]
            exact AList.lookup_insert _
          · rw [if_neg fun h => hname (Option.some.inj h).symm]
            exact AList.lookup_insert_ne hname
  | remove deviceId =>
      rw [MarkerDir.apply, MapOp.key, MapOp.value, Option.map_none]
      cases MarkerDir.place entry deviceId with
      | none => rfl
      | some name' =>
          by_cases hname : name = name'
          · rw [hname, if_pos rfl]
            exact AList.lookup_erase _ _
          · rw [if_neg fun h => hname (Option.some.inj h).symm]
            exact AList.lookup_erase_ne hname

/-- **The directory**: a file holds what the last operation on it has left. -/
theorem lookup_after (entry : String → Option String) (ops : List MarkerOp) (name : String) :
    (MarkerDir.after entry ops).lookup name =
      (lastWhere (fun op => decide (MarkerDir.place entry op.key = some name)) ops).bind fun op =>
        op.value.map (markerText op.key) := by
  induction ops using List.reverseRecOn with
  | nil => rfl
  | append_singleton ops op ih =>
      rw [MarkerDir.after, List.foldl_append, List.foldl_cons, List.foldl_nil, lookup_apply,
        lastWhere_concat]
      by_cases hplace : MarkerDir.place entry op.key = some name
      · rw [if_pos hplace, if_pos (decide_eq_true hplace), Option.bind_some]
      · rw [if_neg hplace, if_neg (by simpa using hplace)]
        exact ih

/-- The markers of the directory are the texts of the markers that survive. -/
theorem marks_after_iff :
    (MarkerDir.after entry ops).Marks deviceId callId ↔
      ∃ other otherCall, Survives entry ops other otherCall ∧
        readMarker (markerText other otherCall) = some (deviceId, callId) := by
  rw [MarkerDir.marks_iff]
  constructor
  · rintro ⟨name, text, hlookup, hread⟩
    rw [lookup_after, Option.bind_eq_some_iff] at hlookup
    obtain ⟨op, hlast, htext⟩ := hlookup
    obtain ⟨otherCall, hvalue, rfl⟩ := Option.map_eq_some_iff.1 htext
    obtain ⟨hplace, before, after, hops, hnot⟩ := lastWhere_eq_some_iff.1 hlast
    refine ⟨op.key, otherCall, ⟨name, of_decide_eq_true hplace, before, after, ?_, ?_⟩, hread⟩
    · rw [← MapOp.value_eq_some_iff.1 hvalue]
      exact hops
    · intro op' hop'
      exact of_decide_eq_false (hnot op' hop')
  · rintro ⟨other, otherCall, ⟨name, hplace, before, after, hops, hnot⟩, hread⟩
    refine ⟨name, markerText other otherCall, ?_, hread⟩
    have hlast : lastWhere (fun op => decide (MarkerDir.place entry op.key = some name)) ops =
        some (.write other otherCall) := by
      refine lastWhere_eq_some_iff.2 ⟨decide_eq_true hplace, before, after, hops, ?_⟩
      intro op hop
      exact decide_eq_false (hnot op hop)
    rw [lookup_after, hlast]
    rfl

/-- What survives is live. -/
theorem Survives.live_eq (h : Survives entry ops deviceId callId) :
    live ops deviceId = some callId := by
  obtain ⟨name, hplace, before, after, hops, hnot⟩ := h
  refine live_eq_some_iff.2 ⟨before, after, hops, ?_⟩
  rintro op hop rfl
  exact hnot op hop hplace

/-- Live entries are what is marked. -/
theorem loadsLive_iff_marks :
    LoadsLive entry ops ↔
      ∀ deviceId callId,
        (MarkerDir.after entry ops).Marks deviceId callId ↔ live ops deviceId = some callId := by
  have hmem : ∀ {files : List (Sigma fun _ : String => List Char)} {deviceId callId},
      files.Perm (MarkerDir.after entry ops).entries →
        ((deviceId, callId) ∈ files.filterMap (fun e => readMarker e.2) ↔
          (MarkerDir.after entry ops).Marks deviceId callId) := by
    intro files deviceId callId hperm
    rw [List.mem_filterMap]
    exact exists_congr fun e => and_congr_left fun _ => hperm.mem_iff
  constructor
  · intro h deviceId callId
    constructor
    · -- whichever marker is read last counts
      rintro ⟨e, he, hread⟩
      obtain ⟨front, back, hentries⟩ := List.append_of_mem he
      have hperm : (front ++ back ++ [e]).Perm (MarkerDir.after entry ops).entries := by
        rw [hentries, List.append_assoc]
        exact List.Perm.append_left front (List.perm_append_singleton e back)
      rw [← h _ hperm deviceId, MarkerDir.loadFiles, List.filterMap_append]
      simp only [List.filterMap_cons, hread, List.filterMap_nil]
      exact lookup_foldl_concat _ _ _
    · intro hlive
      rw [← h _ (List.Perm.refl _)] at hlive
      exact MarkerDir.marks_of_load hlive
  · intro h files hperm deviceId
    cases hlive : live ops deviceId with
    | some callId =>
        refine lookup_foldl_of_mem ((hmem hperm).2 ((h _ _).2 hlive)) ?_
        intro callId' hmarked
        have hlive' := (h _ _).1 ((hmem hperm).1 hmarked)
        exact Option.some.inj (hlive'.symm.trans hlive)
    | none =>
        rw [Option.eq_none_iff_forall_ne_some]
        intro callId hload
        rcases MarkerDir.lookup_foldl_insert _ hload with hempty | hmarked
        · simp at hempty
        · have hlive' := (h _ _).1 ((hmem hperm).1 hmarked)
          rw [hlive] at hlive'
          cases hlive'

/-- Where what is loaded are the live entries, each of them is loaded from its own file. -/
theorem plain_and_survives (h : LoadsLive entry ops) (hlive : live ops deviceId = some callId) :
    Plain deviceId callId ∧ Survives entry ops deviceId callId := by
  rw [loadsLive_iff_marks] at h
  obtain ⟨bound, hbound⟩ : ∃ bound, ∀ op ∈ ops, op.key.length ≤ bound :=
    ⟨(ops.map fun op => op.key.length).sum, fun op hop =>
      List.single_le_sum (by simp) _ (List.mem_map_of_mem hop)⟩
  -- by how much longer the ids of other devices are: the longest ones have no other file
  induction hn : bound - deviceId.length using Nat.strong_induction_on generalizing deviceId callId with
  | h n ih =>
      obtain ⟨other, otherCall, hsurvives, hread⟩ := marks_after_iff.1 ((h _ _).2 hlive)
      by_cases hself : other = deviceId
      · subst hself
        obtain rfl := Option.some.inj (hsurvives.live_eq.symm.trans hlive)
        exact ⟨readMarker_markerText_iff.1 hread, hsurvives⟩
      · exfalso
        have hp := prefix_of_readMarker hread
        have hlt : deviceId.length < other.length := by
          rw [← String.length_toList, ← String.length_toList]
          refine Nat.lt_of_le_of_ne hp.length_le fun heq => hself ?_
          exact String.toList_inj.1 (hp.eq_of_length heq).symm
        obtain ⟨op, hop, hkey⟩ := exists_mem_of_live hsurvives.live_eq
        have hle := hbound op hop
        rw [hkey] at hle
        obtain ⟨hplain, -⟩ := ih (bound - other.length) (by omega) hsurvives.live_eq rfl
        rw [readMarker_markerText_iff.2 hplain] at hread
        exact hself (Prod.mk.inj (Option.some.inj hread)).1

end Runs

/-- **The marker store is a map** exactly where every live entry can be read back from its text and
no later operation has come to its file. -/
theorem loadsLive_iff (entry : String → Option String) (ops : List MarkerOp) :
    LoadsLive entry ops ↔
      ∀ deviceId callId, live ops deviceId = some callId →
        Plain deviceId callId ∧ Survives entry ops deviceId callId := by
  constructor
  · intro h deviceId callId hlive
    exact plain_and_survives h hlive
  · intro h
    refine loadsLive_iff_marks.2 fun deviceId callId => ?_
    rw [marks_after_iff]
    constructor
    · rintro ⟨other, otherCall, hsurvives, hread⟩
      obtain ⟨hplain, -⟩ := h _ _ hsurvives.live_eq
      rw [readMarker_markerText_iff.2 hplain] at hread
      obtain ⟨rfl, rfl⟩ := Prod.mk.inj (Option.some.inj hread)
      exact hsurvives.live_eq
    · intro hlive
      obtain ⟨hplain, hsurvives⟩ := h _ _ hlive
      exact ⟨deviceId, callId, hsurvives, readMarker_markerText_iff.2 hplain⟩

/-- Two ids that differ in one unusual character share a file. -/
theorem not_loadsLive_sharedFile :
    ¬ LoadsLive some [.write "pixel 9" "call-abc", .write "pixel_9" "call-xyz"] := by
  intro h
  have hload := h _ (List.Perm.refl _) "pixel 9"
  revert hload
  decide

end DialF.Daemon
