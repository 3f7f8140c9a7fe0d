import DialF.Audio.Detector

/-!
# Waiting for speech to start

`run_wait_for_speech_start` counts two windows in hops: one for the onset, and one from the onset on,
in which it lingers. The detector has a cap of its own. `runWaitForSpeechStart` is the loop over
reads; what it does is decided by the hops alone, however they are cut (`run_eq_hears`), and by the
decisions on them (`waitHops_eq_waitOn`).

The window in which it lingers counts the hop of the onset, so that one hop less than it should
follows; `honours_iff_harmless` says when that shows.
-/

set_option autoImplicit false

namespace DialF.Audio

open DialF.Lib
open DialF.Jobs (TurnConfig EndReason)

variable {H P : Type}

/-! ## The loop -/

/-- Only onset matters: the turn of the silence and of the cap are pushed beyond the window. -/
def startTurn (timeoutMs onsetDurationMs : Nat) : TurnConfig where
  onsetDurationMs := onsetDurationMs
  endTimeoutMs := timeoutMs
  silenceDurationMs := 2 ^ 64 - 1

/-- The length of a hop. -/
def hopMs (hop : Nat) : Nat := max (hop * 1000 / targetRate) 1

/-- Both windows, in hops. -/
structure Windows where
  timeoutHops : Nat
  lingerHops : Nat
  deriving DecidableEq

/-- The windows of a wait in whole hops. -/
def Windows.new (hop timeoutMs waitAfterStartMs : Nat) : Windows where
  timeoutHops := timeoutMs / hopMs hop
  lingerHops := waitAfterStartMs / hopMs hop

/-- How a wait ends: after it has lingered, with the window for the onset, with the stream, because
the job was cancelled, with an error of the voice detector or of the capture, or because no audio
came for too long. -/
inductive StartVerdict where
  | started
  | timedOut
  | ended (heard : Bool)
  | cancelled (heard : Bool)
  | failed
  | stalled
  deriving DecidableEq

/-- What the caller gets. -/
def StartVerdict.result : StartVerdict → Option Bool
  | .started => some true
  | .timedOut => some false
  | .ended heard => some heard
  | .cancelled heard => some heard
  | .failed | .stalled => none

/-- The hops so far, and the one at which the far end started talking. -/
structure StartCount where
  hopsSeen : Nat
  onsetAt : Option Nat
  deriving DecidableEq

/-- A hop has been pushed. -/
def StartCount.hop (c : StartCount) (event : Option TurnEvent) : StartCount where
  hopsSeen := c.hopsSeen + 1
  onsetAt := if event = some .speechStarted ∧ c.onsetAt = none then some c.hopsSeen else c.onsetAt

/-- The windows, after a hop. -/
def StartCount.over (w : Windows) (c : StartCount) : Option StartVerdict :=
  match c.onsetAt with
  | some onset => if w.lingerHops ≤ c.hopsSeen - onset then some .started else none
  | none => if w.timeoutHops ≤ c.hopsSeen then some .timedOut else none

/-- The loop over whole hops. -/
def waitHops (N : NativeVad H) (w : Windows) :
    Segmenter H → StartCount → List (List Int16) → Segmenter H × StartCount × Option StartVerdict
  | seg, c, [] => (seg, c, none)
  | seg, c, hop :: hops =>
      match seg.pushHop N hop with
      | none => (seg, c, some .failed)
      | some (seg, event) =>
          match (c.hop event).over w with
          | some verdict => (seg, c.hop event, some verdict)
          | none => waitHops N w seg (c.hop event) hops

/-- What a turn of the loop over reads meets: the job is cancelled, or a read of the source. -/
inductive StartRead where
  | data (buf : List Int16)
  | wouldBlock
  | stalled
  | failed
  | eof
  | cancelled
  deriving DecidableEq

/-- The loop over reads. It has no result where there are no more of them, or the resampler does not
return. -/
def waitReads (N : NativeVad H) (F : Floats P) (w : Windows) :
    Segmenter H → StartCount → Resampler P → List Int16 → List StartRead →
      Option (StartCount × StartVerdict)
  | _, _, _, _, [] => none
  | seg, c, rs, pending, .wouldBlock :: reads => waitReads N F w seg c rs pending reads
  | _, c, _, _, .stalled :: _ => some (c, .stalled)
  | _, c, _, _, .failed :: _ => some (c, .failed)
  | _, c, _, _, .eof :: _ => some (c, .ended c.onsetAt.isSome)
  | _, c, _, _, .cancelled :: _ => some (c, .cancelled c.onsetAt.isSome)
  | seg, c, rs, pending, .data buf :: reads =>
      match rs.process F buf with
      | none => none
      | some (rs, out) =>
          match waitHops N w seg c (blocks seg.hopSize (pending ++ out)).1 with
          | (_, c, some verdict) => some (c, verdict)
          | (seg', c, none) =>
              waitReads N F w seg' c rs (blocks seg.hopSize (pending ++ out)).2 reads

theorem startTurn_pos (timeoutMs onsetDurationMs : Nat) :
    0 < (startTurn timeoutMs onsetDurationMs).hopSize := by
  show 0 < 256
  decide

/-- `run_wait_for_speech_start`, on a source of a given rate. -/
def runWaitForSpeechStart (N : NativeVad H) (F : Floats P)
    (sampleRate timeoutMs waitAfterStartMs onsetDurationMs : Nat) (reads : List StartRead) :
    Option (StartCount × StartVerdict) :=
  match Segmenter.new N F (startTurn timeoutMs onsetDurationMs) (startTurn_pos _ _) with
  | none => some (⟨0, none⟩, .failed)
  | some seg =>
      waitReads N F (.new seg.hopSize timeoutMs waitAfterStartMs) seg ⟨0, none⟩
        (.new16k F sampleRate) [] reads

/-! ## What there is to hear -/

/-- The samples at the voice detector's rate, and how it goes on behind them. -/
def StartRead.samples (F : Floats P) :
    Resampler P → List StartRead → List Int16 × Option StartRead
  | _, [] => ([], none)
  | rs, .wouldBlock :: reads => samples F rs reads
  | rs, .data buf :: reads =>
      match rs.process F buf with
      | none => ([], none)
      | some (rs, out) => (out ++ (samples F rs reads).1, (samples F rs reads).2)
  | _, read :: _ => ([], some read)

/-- The decisions on hops, up to one that the voice detector fails on. -/
def TenVad.decisions (N : NativeVad H) : TenVad H → List (List Int16) → List Bool × Bool
  | _, [] => ([], false)
  | vad, hop :: hops =>
      match vad.process N hop with
      | none => ([], true)
      | some (vad, voiced) => (voiced :: (vad.decisions N hops).1, (vad.decisions N hops).2)

/-- How a wait that has come to no verdict by its hops ends by what is behind them. -/
def StartCount.behind (c : StartCount) : Option StartRead → Option (StartCount × StartVerdict)
  | some .eof => some (c, .ended c.onsetAt.isSome)
  | some .cancelled => some (c, .cancelled c.onsetAt.isSome)
  | some .stalled => some (c, .stalled)
  | some .failed => some (c, .failed)
  | some .wouldBlock | some (.data _) | none => none

/-- How a wait ends that has come so far by its hops. -/
def conclude (r : StartCount × Option StartVerdict) (read : Option StartRead) :
    Option (StartCount × StartVerdict) :=
  match r.2 with
  | some verdict => some (r.1, verdict)
  | none => r.1.behind read

/-! ## Chunks do not matter -/

section Chunks

variable {N : NativeVad H} {F : Floats P} {w : Windows}

/-- **Hops are pushed one after the other**, until there is a verdict. -/
theorem waitHops_append (seg : Segmenter H) (c : StartCount) (hops more : List (List Int16)) :
    waitHops N w seg c (hops ++ more) =
      if (waitHops N w seg c hops).2.2 = none then
        waitHops N w (waitHops N w seg c hops).1 (waitHops N w seg c hops).2.1 more
      else waitHops N w seg c hops := by
  induction hops generalizing seg c with
  | nil => rfl
  | cons hop hops ih =>
      rw [List.cons_append, waitHops, waitHops]
      cases seg.pushHop N hop with
      | none => rfl
      | some r =>
          obtain ⟨seg, event⟩ := r
          simp only
          cases (c.hop event).over w with
          | some verdict => rfl
          | none => exact ih seg (c.hop event)

theorem hopSize_waitHops (seg : Segmenter H) (c : StartCount) (hops : List (List Int16)) :
    (waitHops N w seg c hops).1.hopSize = seg.hopSize := by
  induction hops generalizing seg c with
  | nil => rfl
  | cons hop hops ih =>
      rw [waitHops]
      cases hpush : seg.pushHop N hop with
      | none => rfl
      | some r =>
          obtain ⟨r', -, rfl⟩ := Option.map_eq_some_iff.1 hpush
          simp only
          split
          · rfl
          · exact ih _ _

/-- **The reads come to what their samples do**, cut into hops as one. -/
theorem waitReads_eq (seg : Segmenter H) (c : StartCount) (rs : Resampler P)
    {pending : List Int16} (hpending : blocks seg.hopSize pending = ([], pending))
    (reads : List StartRead) :
    waitReads N F w seg c rs pending reads =
      conclude (waitHops N w seg c
        (blocks seg.hopSize (pending ++ (StartRead.samples F rs reads).1)).1).2
          (StartRead.samples F rs reads).2 := by
  induction reads generalizing seg c rs pending with
  | nil =>
      rw [StartRead.samples, List.append_nil, hpending]
      rfl
  | cons read reads ih =>
      cases read with
      | wouldBlock => rw [waitReads, ih seg c rs hpending, StartRead.samples]
      | data buf =>
          rw [waitReads, StartRead.samples]
          cases hprocess : rs.process F buf with
          | none =>
              simp only [List.append_nil, hpending]
              rfl
          | some r =>
              obtain ⟨rs, out⟩ := r
              have hsplit := blocks_append (n := seg.hopSize) (pending ++ out)
                (StartRead.samples F rs reads).1
              have hsize := hopSize_waitHops (N := N) (w := w) seg c
                (blocks seg.hopSize (pending ++ out)).1
              simp only
              rw [← List.append_assoc, hsplit, waitHops_append]
              rcases hhops : waitHops N w seg c (blocks seg.hopSize (pending ++ out)).1 with
                ⟨seg', c', _ | verdict⟩
              · rw [hhops] at hsize
                have hsize' : seg'.hopSize = seg.hopSize := hsize
                have hrest : blocks seg'.hopSize (blocks seg.hopSize (pending ++ out)).2 =
                    ([], (blocks seg.hopSize (pending ++ out)).2) := by
                  rw [hsize']
                  exact blocks_of_lt (length_blocks_lt seg.pos _)
                rw [if_pos rfl]
                simp only
                rw [ih seg' c' rs hrest, hsize']
              · rfl
      | _ =>
          rw [StartRead.samples, List.append_nil, hpending]
          · rfl
          · simp
          · simp

/-- The decisions on the hops of a source, and what is behind them. -/
def heard (N : NativeVad H) (F : Floats P) (sampleRate : Nat) (reads : List StartRead) :
    List Bool × Option StartRead :=
  match TenVad.new N 256 (1 / 2) with
  | none => ([], some .failed)
  | some vad =>
      let (samples, behind) := StartRead.samples F (.new16k F sampleRate) reads
      let (decisions, fails) := vad.decisions N (blocks 256 samples).1
      (decisions, if fails then some .failed else behind)

/-- The loop over whole hops, by the decisions on them. -/
def waitOn (w : Windows) : TurnDetector → StartCount → List Bool → StartCount × Option StartVerdict
  | _, c, [] => (c, none)
  | d, c, voiced :: hops =>
      match (c.hop (d.push voiced).2).over w with
      | some verdict => (c.hop (d.push voiced).2, some verdict)
      | none => waitOn w (d.push voiced).1 (c.hop (d.push voiced).2) hops

/-- **The decisions decide.** -/
theorem conclude_waitHops (seg : Segmenter H) (c : StartCount) (hops : List (List Int16))
    (behind : Option StartRead) :
    conclude (waitHops N w seg c hops).2 behind =
      conclude (waitOn w seg.detector c (seg.vad.decisions N hops).1)
        (if (seg.vad.decisions N hops).2 then some .failed else behind) := by
  induction hops generalizing seg c with
  | nil => rfl
  | cons hop hops ih =>
      rw [waitHops, TenVad.decisions, Segmenter.pushHop]
      cases seg.vad.process N hop with
      | none => rfl
      | some r =>
          obtain ⟨vad, voiced⟩ := r
          simp only [Option.map_some, waitOn]
          cases (c.hop (seg.detector.push voiced).2).over w with
          | some verdict => rfl
          | none => exact ih _ _

/-- **A wait is decided by what there is to hear.** -/
theorem run_eq_waitOn (sampleRate timeoutMs waitAfterStartMs onsetDurationMs : Nat)
    (reads : List StartRead) :
    runWaitForSpeechStart N F sampleRate timeoutMs waitAfterStartMs onsetDurationMs reads =
      conclude (waitOn (.new 256 timeoutMs waitAfterStartMs)
        (.new F (startTurn timeoutMs onsetDurationMs)) ⟨0, none⟩ (heard N F sampleRate reads).1)
          (heard N F sampleRate reads).2 := by
  rw [runWaitForSpeechStart, Segmenter.new, heard]
  have hnew : TenVad.new N (startTurn timeoutMs onsetDurationMs).hopSize
      (startTurn timeoutMs onsetDurationMs).threshold = TenVad.new N 256 (1 / 2) := rfl
  rw [hnew]
  cases TenVad.new N 256 (1 / 2) with
  | none => rfl
  | some vad =>
      simp only [Option.map_some]
      rw [waitReads_eq, conclude_waitHops, List.nil_append]
      · rfl
      · exact blocks_of_lt (startTurn_pos timeoutMs onsetDurationMs)

end Chunks

/-! ## What the windows come to -/

section Windows

variable {w : Windows}

/-- After the onset, it lingers. -/
theorem waitOn_of_onset (d : TurnDetector) {n onset : Nat} (hops : List Bool) (hon : onset < n)
    (hn : n < onset + w.lingerHops) :
    waitOn w d ⟨n, some onset⟩ hops =
      if onset + w.lingerHops ≤ n + hops.length then
        (⟨onset + w.lingerHops, some onset⟩, some .started)
      else (⟨n + hops.length, some onset⟩, none) := by
  induction hops generalizing d n with
  | nil =>
      rw [if_neg (by simpa using hn)]
      rfl
  | cons voiced hops ih =>
      have hhop : StartCount.hop ⟨n, some onset⟩ (d.push voiced).2 = ⟨n + 1, some onset⟩ := by
        simp [StartCount.hop]
      have hover : StartCount.over w ⟨n + 1, some onset⟩ =
          if w.lingerHops ≤ n + 1 - onset then some .started else none := rfl
      rw [waitOn, hhop, hover, List.length_cons]
      by_cases hlinger : w.lingerHops ≤ n + 1 - onset
      · have heq : onset + w.lingerHops = n + 1 := by omega
        rw [if_pos hlinger, if_pos (by omega), heq]
      · rw [if_neg hlinger]
        simp only
        rw [ih _ (by omega) (by omega)]
        have hsum : n + 1 + hops.length = n + (hops.length + 1) := by omega
        rw [hsum]

/-- Before the onset, the window for it runs. -/
theorem over_of_no_onset {n : Nat} :
    StartCount.over w ⟨n, none⟩ = if w.timeoutHops ≤ n then some .timedOut else none := rfl

/-- A hop without an onset. -/
theorem hop_of_no_onset {n : Nat} {event : Option TurnEvent} (h : event ≠ some .speechStarted) :
    StartCount.hop ⟨n, none⟩ event = ⟨n + 1, none⟩ := by
  simp [StartCount.hop, h]

/-- **Where speech starts in the window**, it lingers from there. -/
theorem waitOn_of_started {d : TurnDetector} {n p : Nat} {hops : List Bool}
    (hp : (d.events hops)[p]? = some (some .speechStarted))
    (hfirst : ∀ i < p, (d.events hops)[i]? ≠ some (some .speechStarted))
    (hwindow : n + p < max w.timeoutHops 1) :
    waitOn w d ⟨n, none⟩ hops =
      if p + max w.lingerHops 1 ≤ hops.length then
        (⟨n + p + max w.lingerHops 1, some (n + p)⟩, some .started)
      else (⟨n + hops.length, some (n + p)⟩, none) := by
  induction hops generalizing d n p with
  | nil => simp [TurnDetector.events] at hp
  | cons voiced hops ih =>
      rw [TurnDetector.events] at hp hfirst
      rw [waitOn, List.length_cons]
      cases p with
      | zero =>
          have hevent : (d.push voiced).2 = some .speechStarted := by simpa using hp
          have hhop : StartCount.hop ⟨n, none⟩ (d.push voiced).2 = ⟨n + 1, some n⟩ := by
            simp [StartCount.hop, hevent]
          have hover : StartCount.over w ⟨n + 1, some n⟩ =
              if w.lingerHops ≤ n + 1 - n then some .started else none := rfl
          rw [hhop, hover]
          by_cases hlinger : w.lingerHops ≤ n + 1 - n
          · have hmax : max w.lingerHops 1 = 1 := by omega
            rw [if_pos hlinger, hmax, if_pos (by omega)]
            rfl
          · have hmax : max w.lingerHops 1 = w.lingerHops := by omega
            rw [if_neg hlinger, hmax]
            simp only
            rw [waitOn_of_onset _ hops (Nat.lt_succ_self n) (by omega)]
            have hsum : n + 1 + hops.length = n + (hops.length + 1) := by omega
            simp only [Nat.zero_add, Nat.add_zero, hsum]
            by_cases hlen : n + w.lingerHops ≤ n + (hops.length + 1)
            · rw [if_pos hlen, if_pos (Nat.le_of_add_le_add_left hlen)]
            · rw [if_neg hlen, if_neg fun h => hlen (Nat.add_le_add_left h n)]
      | succ p =>
          have hevent : (d.push voiced).2 ≠ some .speechStarted := by
            have hzero := hfirst 0 (Nat.succ_pos p)
            simpa using hzero
          have hopen : ¬ w.timeoutHops ≤ n + 1 := by omega
          rw [hop_of_no_onset hevent, over_of_no_onset, if_neg hopen]
          simp only
          rw [ih (by simpa using hp) (fun i hi => by simpa using hfirst (i + 1) (by omega))
            (by omega)]
          have hlen : p + max w.lingerHops 1 ≤ hops.length ↔
              p + 1 + max w.lingerHops 1 ≤ hops.length + 1 := by omega
          have hsum : n + 1 + p = n + (p + 1) := by omega
          have hall : n + 1 + hops.length = n + (hops.length + 1) := by omega
          simp only [hlen, hsum, hall]

/-- **Where it does not**, the window runs out. -/
theorem waitOn_of_not_started {d : TurnDetector} {n : Nat} {hops : List Bool}
    (hnone : ∀ i, n + i < max w.timeoutHops 1 →
      (d.events hops)[i]? ≠ some (some .speechStarted)) (hn : n < max w.timeoutHops 1) :
    waitOn w d ⟨n, none⟩ hops =
      if max w.timeoutHops 1 ≤ n + hops.length then
        (⟨max w.timeoutHops 1, none⟩, some .timedOut)
      else (⟨n + hops.length, none⟩, none) := by
  induction hops generalizing d n with
  | nil =>
      rw [List.length_nil, Nat.add_zero, if_neg (Nat.not_le_of_lt hn)]
      rfl
  | cons voiced hops ih =>
      rw [TurnDetector.events] at hnone
      have hevent : (d.push voiced).2 ≠ some .speechStarted := by
        have hzero := hnone 0 (by omega)
        simpa using hzero
      rw [waitOn, hop_of_no_onset hevent, over_of_no_onset, List.length_cons]
      by_cases hover : w.timeoutHops ≤ n + 1
      · have heq : max w.timeoutHops 1 = n + 1 := by omega
        rw [if_pos hover, if_pos (by omega), heq]
      · rw [if_neg hover]
        simp only
        rw [ih (fun i hi => by simpa using hnone (i + 1) (by omega)) (by omega)]
        have hall : n + 1 + hops.length = n + (hops.length + 1) := by omega
        rw [hall]

end Windows

/-! ## Both windows -/

/-- The onset is on the hop `p`. -/
def OnsetAt (k : Nat) (hops : List Bool) (p : Nat) : Prop :=
  p < hops.length ∧ Onset k (hops.take (p + 1))

/-- **A wait honours both windows**: it answers that there was no speech where there is no onset in the
window for it, or in the hops there are; and where it has lingered, so many hops have followed that
of the onset. -/
structure Honours (k window linger : Nat) (hops : List Bool) (ended : Prop)
    (r : Option (StartCount × StartVerdict)) : Prop where
  noOnset : (∃ c v, r = some (c, v) ∧ v.result = some false) ↔
    (∀ p < window, ¬ OnsetAt k hops p) ∧ (window ≤ hops.length ∨ ended)
  lingers : ∀ c, r = some (c, .started) →
    ∃ p, OnsetAt k hops p ∧ p + 1 + linger ≤ c.hopsSeen

/-- An onset in the window is none behind the cap of the detector, unless the wait fails before its
window is over; and there are too few hops from it on for the wait to have lingered, unless it is not
to linger. -/
def SparesOnset (k window linger cap : Nat) (hops : List Bool) (ended : Prop) : Prop :=
  ∀ p < window, OnsetAt k hops p →
    (window ≤ hops.length ∨ ended → p < cap) ∧ (p < cap → linger = 0 ∨ hops.length < p + linger)

section Both

variable {k : Nat} {hops : List Bool}

theorem OnsetAt.unique {p q : Nat} (hp : OnsetAt k hops p) (hq : OnsetAt k hops q) : p = q := by
  have heq := congrArg List.length
    (hp.2.unique hq.2 (List.take_prefix _ hops) (List.take_prefix _ hops))
  rw [List.length_take, List.length_take] at heq
  have hplt := hp.1
  have hqlt := hq.1
  omega

/-- A detector reports the onset, up to its cap. -/
theorem events_new_eq_speechStarted_iff (F : Floats P) (cfg : TurnConfig) (hops : List Bool)
    (p : Nat) :
    ((TurnDetector.new F cfg).events hops)[p]? = some (some .speechStarted) ↔
      OnsetAt (TurnDetector.new F cfg).onsetHopsNeeded hops p ∧
        p < max (TurnDetector.new F cfg).timeoutHops 1 := by
  have hk : 1 ≤ (TurnDetector.new F cfg).onsetHopsNeeded := Nat.le_max_right _ 1
  have hneeds : Needs (TurnDetector.new F cfg).onsetHopsNeeded
      (TurnDetector.new F cfg).silenceHopsNeeded (TurnDetector.new F cfg).timeoutHops
      (TurnDetector.new F cfg) := ⟨rfl, rfl, rfl⟩
  by_cases hp : p < hops.length
  · have hlen : (hops.take (p + 1)).length = p + 1 := by
      rw [List.length_take]
      omega
    rw [reports_events hk hneeds (phase_start hk rfl rfl rfl rfl rfl) hp]
    constructor
    · intro h
      cases h with
      | speechStarted honset hle => exact ⟨⟨hp, honset⟩, by omega⟩
    · rintro ⟨⟨-, honset⟩, hcap⟩
      exact .speechStarted honset (by omega)
  · refine iff_of_false (fun h => hp (lt_length_of_events h)) fun h => hp h.1.1

/-- How a wait ends that has heard no onset. -/
theorem behind_result_none {n : Nat} {behind : Option StartRead} :
    (∃ c v, StartCount.behind ⟨n, none⟩ behind = some (c, v) ∧ v.result = some false) ↔
      behind = some .eof ∨ behind = some .cancelled := by
  cases behind with
  | none => simp [StartCount.behind]
  | some read => cases read <;> simp [StartCount.behind, StartVerdict.result]

/-- And one that has heard one. -/
theorem behind_result_some {n p : Nat} {behind : Option StartRead} :
    ¬ ∃ c v, StartCount.behind ⟨n, some p⟩ behind = some (c, v) ∧ v.result = some false := by
  cases behind with
  | none => simp [StartCount.behind]
  | some read => cases read <;> simp [StartCount.behind, StartVerdict.result]

theorem behind_ne_started {c c' : StartCount} {behind : Option StartRead} :
    c.behind behind ≠ some (c', .started) := by
  cases behind with
  | none => simp [StartCount.behind]
  | some read => cases read <;> simp [StartCount.behind]

/-- **Both windows are honoured where the onset is spared, and nowhere else.** -/
theorem honours_waitOn_iff (F : Floats P) (cfg : TurnConfig) (w : Windows) (hops : List Bool)
    (behind : Option StartRead) :
    Honours (TurnDetector.new F cfg).onsetHopsNeeded (max w.timeoutHops 1) w.lingerHops hops
        (behind = some .eof ∨ behind = some .cancelled)
        (conclude (waitOn w (.new F cfg) ⟨0, none⟩ hops) behind) ↔
      SparesOnset (TurnDetector.new F cfg).onsetHopsNeeded (max w.timeoutHops 1) w.lingerHops
        (max (TurnDetector.new F cfg).timeoutHops 1) hops
        (behind = some .eof ∨ behind = some .cancelled) := by
  have hevents := events_new_eq_speechStarted_iff F cfg hops
  by_cases hseen : ∃ p < max w.timeoutHops 1,
      OnsetAt (TurnDetector.new F cfg).onsetHopsNeeded hops p ∧
        p < max (TurnDetector.new F cfg).timeoutHops 1
  · obtain ⟨p, hwindow, honset, hcap⟩ := hseen
    have hfirst : ∀ i < p, ((TurnDetector.new F cfg).events hops)[i]? ≠
        some (some .speechStarted) := by
      intro i hi h
      exact absurd (((hevents i).1 h).1.unique honset) (Nat.ne_of_lt hi)
    have hwait := waitOn_of_started (n := 0) ((hevents p).2 ⟨honset, hcap⟩) hfirst
      (by rwa [Nat.zero_add])
    simp only [Nat.zero_add] at hwait
    have hspares : SparesOnset (TurnDetector.new F cfg).onsetHopsNeeded (max w.timeoutHops 1)
        w.lingerHops (max (TurnDetector.new F cfg).timeoutHops 1) hops
        (behind = some .eof ∨ behind = some .cancelled) ↔
          (w.lingerHops = 0 ∨ hops.length < p + w.lingerHops) := by
      constructor
      · exact fun h => (h p hwindow honset).2 hcap
      · intro h q _ hq
        obtain rfl := hq.unique honset
        exact ⟨fun _ => hcap, fun _ => h⟩
    have hnot : ¬ ((∀ q < max w.timeoutHops 1,
        ¬ OnsetAt (TurnDetector.new F cfg).onsetHopsNeeded hops q) ∧
          (max w.timeoutHops 1 ≤ hops.length ∨ behind = some .eof ∨ behind = some .cancelled)) :=
      fun h => h.1 p hwindow honset
    rw [hspares, hwait]
    by_cases hlen : p + max w.lingerHops 1 ≤ hops.length
    · rw [if_pos hlen]
      constructor
      · intro h
        obtain ⟨q, hq, hle⟩ := h.lingers _ rfl
        obtain rfl := hq.unique honset
        change q + 1 + w.lingerHops ≤ q + max w.lingerHops 1 at hle
        omega
      · intro h
        refine ⟨iff_of_false ?_ hnot, fun c hc => ⟨p, honset, ?_⟩⟩
        · rintro ⟨c, v, hcv, hv⟩
          obtain ⟨-, rfl⟩ := Prod.mk.inj (Option.some.inj hcv)
          exact absurd hv (by decide)
        · obtain ⟨rfl, -⟩ := Prod.mk.inj (Option.some.inj hc)
          show p + 1 + w.lingerHops ≤ p + max w.lingerHops 1
          omega
    · rw [if_neg hlen]
      refine iff_of_true ⟨iff_of_false behind_result_some hnot, fun c hc => ?_⟩ (by omega)
      exact absurd hc behind_ne_started
  · have hnone : ∀ i, 0 + i < max w.timeoutHops 1 →
        ((TurnDetector.new F cfg).events hops)[i]? ≠ some (some .speechStarted) := by
      intro i hi h
      rw [Nat.zero_add] at hi
      exact hseen ⟨i, hi, (hevents i).1 h⟩
    have hwait := waitOn_of_not_started (w := w) hnone (by omega)
    simp only [Nat.zero_add] at hwait
    have hspares : SparesOnset (TurnDetector.new F cfg).onsetHopsNeeded (max w.timeoutHops 1)
        w.lingerHops (max (TurnDetector.new F cfg).timeoutHops 1) hops
        (behind = some .eof ∨ behind = some .cancelled) ↔
          (max w.timeoutHops 1 ≤ hops.length ∨ behind = some .eof ∨ behind = some .cancelled →
            ∀ p < max w.timeoutHops 1,
              ¬ OnsetAt (TurnDetector.new F cfg).onsetHopsNeeded hops p) := by
      constructor
      · intro h hover p hp honset
        exact hseen ⟨p, hp, honset, (h p hp honset).1 hover⟩
      · intro h p hp honset
        refine ⟨fun hover => absurd honset (h hover p hp), fun hcap => ?_⟩
        exact absurd ⟨p, hp, honset, hcap⟩ hseen
    have hfalse : (∃ c v, conclude (waitOn w (.new F cfg) ⟨0, none⟩ hops) behind = some (c, v) ∧
        v.result = some false) ↔
          (max w.timeoutHops 1 ≤ hops.length ∨ behind = some .eof ∨ behind = some .cancelled) := by
      rw [hwait]
      by_cases hlen : max w.timeoutHops 1 ≤ hops.length
      · rw [if_pos hlen]
        exact iff_of_true ⟨_, _, rfl, rfl⟩ (.inl hlen)
      · rw [if_neg hlen, or_iff_right hlen]
        exact behind_result_none
    rw [hspares]
    constructor
    · intro h hover
      exact (h.noOnset.1 (hfalse.2 hover)).1
    · intro h
      refine ⟨hfalse.trans ⟨fun hover => ⟨h hover, hover⟩, fun h => h.2⟩, fun c hc => ?_⟩
      rw [hwait] at hc
      split at hc
      · exact absurd (Prod.mk.inj (Option.some.inj hc)).2 (by decide)
      · exact absurd hc behind_ne_started

end Both

/-- **Waiting for speech to start**, with both of its windows, whatever the reads: it honours them
where the onset is spared, and nowhere else. -/
theorem honours_iff_spares (N : NativeVad H) (F : Floats P)
    (sampleRate timeoutMs waitAfterStartMs onsetDurationMs : Nat) (reads : List StartRead) :
    Honours (max (F.msToHops 256 onsetDurationMs) 1) (max 1 (timeoutMs / 16))
        (waitAfterStartMs / 16) (heard N F sampleRate reads).1
        ((heard N F sampleRate reads).2 = some .eof ∨
          (heard N F sampleRate reads).2 = some .cancelled)
        (runWaitForSpeechStart N F sampleRate timeoutMs waitAfterStartMs onsetDurationMs reads) ↔
      SparesOnset (max (F.msToHops 256 onsetDurationMs) 1) (max 1 (timeoutMs / 16))
        (waitAfterStartMs / 16) (max (F.msToHops 256 timeoutMs) 1) (heard N F sampleRate reads).1
        ((heard N F sampleRate reads).2 = some .eof ∨
          (heard N F sampleRate reads).2 = some .cancelled) := by
  have hhop : hopMs 256 = 16 := by decide
  have h := honours_waitOn_iff F (startTurn timeoutMs onsetDurationMs)
    (.new 256 timeoutMs waitAfterStartMs) (heard N F sampleRate reads).1
    (heard N F sampleRate reads).2
  simp only [Windows.new, hhop] at h
  rw [Nat.max_comm 1, run_eq_waitOn]
  simp only [Windows.new, hhop]
  exact h

/-- A voice detector that takes everything for speech. -/
def eagerVad : NativeVad Unit where
  create _ _ := some ()
  process _ _ := some ((), true)

theorem decisions_eagerVad {hops : List (List Int16)} (h : ∀ hop ∈ hops, hop.length = 256) :
    TenVad.decisions eagerVad ⟨256, ()⟩ hops = (List.replicate hops.length true, false) := by
  induction hops with
  | nil => rfl
  | cons hop hops ih =>
      have hvoiced : TenVad.process eagerVad ⟨256, ()⟩ hop = some (⟨256, ()⟩, true) := by
        rw [TenVad.process, if_neg (not_not.2 (h hop List.mem_cons_self))]
        rfl
      rw [TenVad.decisions, hvoiced]
      simp only
      rw [ih fun hop hmem => h hop (List.mem_cons_of_mem _ hmem)]
      rfl

/-- Whole hops in one read. -/
def inOneRead (hops : List (List Int16)) : List StartRead := [.data hops.flatten]

theorem heard_inOneRead {hops : List (List Int16)} (h : ∀ hop ∈ hops, hop.length = 256) :
    heard eagerVad exactFloats 16000 (inOneRead hops) =
      (List.replicate hops.length true, none) := by
  have hpass : Resampler.new16k exactFloats 16000 = .passthrough := by
    rw [Resampler.new16k, Resampler.new, if_pos (by decide)]
  have hsamples : StartRead.samples exactFloats (.new16k exactFloats 16000) (inOneRead hops) =
      (hops.flatten, none) := by
    rw [hpass]
    simp [inOneRead, StartRead.samples, Resampler.process]
  have hnew : TenVad.new eagerVad 256 (1 / 2) = some ⟨256, ()⟩ := rfl
  simp only [heard, hnew, hsamples, blocks_flatten (by decide : 0 < 256) h, decisions_eagerVad h]
  rfl

/-- Three hops of silence. -/
def threeHops : List StartRead := inOneRead (List.replicate 3 (List.replicate 256 0))

theorem heard_threeHops :
    heard eagerVad exactFloats 16000 threeHops = ([true, true, true], none) :=
  heard_inOneRead fun hop hmem => by rw [List.eq_of_mem_replicate hmem, List.length_replicate]

/-- Three hops of speech from the start, of which two should follow the onset. -/
theorem exists_not_honours :
    runWaitForSpeechStart eagerVad exactFloats 16000 1000 32 16 threeHops =
      some (⟨2, some 0⟩, .started) ∧
    ¬ Honours (max (exactFloats.msToHops 256 16) 1) (max 1 (1000 / 16)) (32 / 16)
      (heard eagerVad exactFloats 16000 threeHops).1
      ((heard eagerVad exactFloats 16000 threeHops).2 = some .eof ∨
        (heard eagerVad exactFloats 16000 threeHops).2 = some .cancelled)
      (runWaitForSpeechStart eagerVad exactFloats 16000 1000 32 16 threeHops) := by
  have hrun : runWaitForSpeechStart eagerVad exactFloats 16000 1000 32 16 threeHops =
      some (⟨2, some 0⟩, .started) := by
    rw [run_eq_waitOn, heard_threeHops]
    decide
  refine ⟨hrun, fun h => ?_⟩
  obtain ⟨p, -, hle⟩ := h.lingers _ hrun
  change p + 1 + 2 ≤ 2 at hle
  omega

end DialF.Audio
