import DialF.Audio.Resample
import DialF.Jobs.Runner

/-!
# Turn taking

`TurnDetector` and `Segmenter` of `audio/vad.rs`, and the loop of `run_wait_for_speech`, which
resamples what a source gives it, cuts it into hops and stops where the turn ends. The native voice
detector is a parameter (`NativeVad`).

A wait keeps, beside the code's state, the hops that have reached the detector. `hear_append` says
that hops are heard one after the other; `Tracks` relates a wait to the samples it has been given,
and `tracks_feed` keeps the relation.
-/

set_option autoImplicit false

namespace DialF.Audio

open DialF.Lib
open DialF.Jobs (TurnConfig EndReason)

/-! ## The voice detector -/

/-- The C library: a handle for a hop size and a threshold, and the decision on a hop. -/
structure NativeVad (H : Type) where
  create : Nat → Rat → Option H
  process : H → List Int16 → Option (H × Bool)

variable {H P : Type}

/-- `TenVad`: the size of a hop and the native handle. -/
structure TenVad (H : Type) where
  hopSize : Nat
  handle : H
  deriving DecidableEq

/-- `TenVad::new`; the native library may refuse. -/
def TenVad.new (N : NativeVad H) (hopSize : Nat) (threshold : Rat) : Option (TenVad H) :=
  (N.create hopSize threshold).map fun handle => { hopSize, handle }

/-- The decision on a frame; one of a wrong length is refused. -/
def TenVad.process (N : NativeVad H) (v : TenVad H) (frame : List Int16) :
    Option (TenVad H × Bool) :=
  if frame.length ≠ v.hopSize then none
  else (N.process v.handle frame).map fun r => ({ v with handle := r.1 }, r.2)

/-! ## The turn detector -/

/-- `TurnEvent`. -/
inductive TurnEvent where
  | speechStarted
  | ended (reason : EndReason)
  deriving DecidableEq

/-- `TurnDetector`: the limits in hops, and the runs counted so far. -/
structure TurnDetector where
  silenceHopsNeeded : Nat
  timeoutHops : Nat
  onsetHopsNeeded : Nat
  started : Bool
  voicedRun : Nat
  silenceRun : Nat
  elapsedHops : Nat
  finished : Bool
  deriving DecidableEq

namespace TurnDetector

/-- `TurnDetector::new`: no hop counted yet. -/
def new (F : Floats P) (cfg : TurnConfig) : TurnDetector where
  silenceHopsNeeded := F.msToHops cfg.hopSize cfg.silenceDurationMs
  timeoutHops := F.msToHops cfg.hopSize cfg.endTimeoutMs
  onsetHopsNeeded := max (F.msToHops cfg.hopSize cfg.onsetDurationMs) 1
  started := false
  voicedRun := 0
  silenceRun := 0
  elapsedHops := 0
  finished := false

/-- The overall cap. -/
def cap (d : TurnDetector) : TurnDetector × Option TurnEvent :=
  if d.timeoutHops ≤ d.elapsedHops then ({ d with finished := true }, some (.ended .timeout))
  else (d, none)

/-- `TurnDetector::push`: one hop, voiced or not. -/
def push (d : TurnDetector) (voiced : Bool) : TurnDetector × Option TurnEvent :=
  if d.finished then (d, none)
  else
    let d := { d with elapsedHops := d.elapsedHops + 1 }
    if ¬ d.started then
      if voiced then
        let d := { d with voicedRun := d.voicedRun + 1 }
        if d.onsetHopsNeeded ≤ d.voicedRun then ({ d with started := true }, some .speechStarted)
        else d.cap
      else { d with voicedRun := 0 }.cap
    else if voiced then { d with silenceRun := 0 }.cap
    else
      let d := { d with silenceRun := d.silenceRun + 1 }
      if d.silenceHopsNeeded ≤ d.silenceRun then
        ({ d with finished := true }, some (.ended .silence))
      else d.cap

/-- `TurnDetector::finish`: the end of the stream ends a turn that is still open. -/
def finish (d : TurnDetector) : TurnDetector × Option TurnEvent :=
  if d.finished then (d, none) else ({ d with finished := true }, some (.ended .endOfStream))

end TurnDetector

/-! ## The segmenter -/

/-- A detector on top of the native one. A hop has samples. -/
structure Segmenter (H : Type) where
  vad : TenVad H
  detector : TurnDetector
  cfg : TurnConfig
  pos : 0 < cfg.hopSize
  deriving DecidableEq

namespace Segmenter

/-- `Segmenter::new`. -/
def new (N : NativeVad H) (F : Floats P) (cfg : TurnConfig) (pos : 0 < cfg.hopSize) :
    Option (Segmenter H) :=
  (TenVad.new N cfg.hopSize cfg.threshold).map fun vad => { vad, detector := .new F cfg, cfg, pos }

/-- `Segmenter::hop_size`. -/
def hopSize (seg : Segmenter H) : Nat :=
  seg.cfg.hopSize

/-- `Segmenter::push_hop`: classify the hop, and push the answer to the detector. -/
def pushHop (N : NativeVad H) (seg : Segmenter H) (hop : List Int16) :
    Option (Segmenter H × Option TurnEvent) :=
  (seg.vad.process N hop).map fun r =>
    ({ seg with vad := r.1, detector := (seg.detector.push r.2).1 }, (seg.detector.push r.2).2)

end Segmenter

/-! ## Waiting for the end of a turn -/

/-- How a wait ends: with the turn, with an error of the voice detector, because the job was
cancelled, or because no audio came for too long. -/
inductive Verdict where
  | ended (reason : EndReason)
  | failed
  | cancelled
  | stalled
  deriving DecidableEq

/-- What the caller gets; a cancelled wait ends as the stream would. -/
def Verdict.result : Verdict → Option EndReason
  | .ended reason => some reason
  | .cancelled => some .endOfStream
  | .failed => none
  | .stalled => none

/-- The verdict is about what has been heard. -/
def Verdict.ByEar : Verdict → Prop
  | .ended _ => True
  | .failed => True
  | .cancelled => False
  | .stalled => False

/-- A wait: `heard` are the hops that have reached the detector. -/
structure Wait (H P : Type) where
  seg : Segmenter H
  resampler : Resampler P
  pending : List Int16
  heard : List (List Int16)
  verdict : Option Verdict
  deriving DecidableEq

/-- Push a hop: the turn goes on, or ends. -/
def Segmenter.hearHop (N : NativeVad H) (seg : Segmenter H) (hop : List Int16) :
    Segmenter H × Option Verdict :=
  match seg.pushHop N hop with
  | none => (seg, some .failed)
  | some (seg, some (.ended reason)) => (seg, some (.ended reason))
  | some (seg, _) => (seg, none)

/-- Push hops until the turn ends: the segmenter, the hops it has heard, and how it ended. -/
def hear (N : NativeVad H) :
    Segmenter H → List (List Int16) → Segmenter H × List (List Int16) × Option Verdict
  | seg, [] => (seg, [], none)
  | seg, hop :: hops =>
      match seg.hearHop N hop with
      | (seg, some verdict) => (seg, [hop], some verdict)
      | (seg, none) => ((hear N seg hops).1, hop :: (hear N seg hops).2.1, (hear N seg hops).2.2)

namespace Wait

/-- The start, for a source of a given rate. -/
def new (F : Floats P) (seg : Segmenter H) (sampleRate : Nat) : Wait H P where
  seg := seg
  resampler := .new16k F sampleRate
  pending := []
  heard := []
  verdict := none

/-- A read that returns samples: they are resampled, and the whole hops are pushed. It has no
result where the resampler does not return. -/
def feed (N : NativeVad H) (F : Floats P) (w : Wait H P) (buf : List Int16) : Option (Wait H P) :=
  (w.resampler.process F buf).map fun r =>
    let (hops, pending) := blocks w.seg.hopSize (w.pending ++ r.2)
    let (seg, heard, verdict) := hear N w.seg hops
    { seg, resampler := r.1, pending, heard := w.heard ++ heard, verdict }

/-- The end of the stream: a whole hop that is left is pushed, and the detector is flushed. -/
def eof (N : NativeVad H) (w : Wait H P) : Wait H P :=
  let hops := if w.seg.hopSize ≤ w.pending.length then [w.pending.take w.seg.hopSize] else []
  match hear N w.seg hops with
  | (seg, heard, some verdict) =>
      { w with seg, heard := w.heard ++ heard, verdict := some verdict }
  | (seg, heard, none) =>
      let reason :=
        match seg.detector.finish with
        | (_, some (.ended reason)) => reason
        | _ => EndReason.endOfStream
      { w with
        seg := { seg with detector := seg.detector.finish.1 }
        heard := w.heard ++ heard
        verdict := some (.ended reason) }

end Wait

/-! ## What has been heard -/

section Hear

variable {N : NativeVad H} {F : Floats P}

/-- **Hops are heard one after the other**, until the turn ends. -/
theorem hear_append (seg : Segmenter H) (hops more : List (List Int16)) :
    hear N seg (hops ++ more) =
      match hear N seg hops with
      | (seg, heard, some verdict) => (seg, heard, some verdict)
      | (seg, heard, none) =>
          ((hear N seg more).1, heard ++ (hear N seg more).2.1, (hear N seg more).2.2) := by
  induction hops generalizing seg with
  | nil => rfl
  | cons hop hops ih =>
      rw [List.cons_append, hear, hear]
      rcases seg.hearHop N hop with ⟨seg', _ | verdict⟩
      · simp only [ih]
        rcases hear N seg' hops with ⟨seg'', heard, _ | verdict⟩ <;> rfl
      · rfl

/-- More hops change nothing where the turn has ended. -/
theorem hear_of_verdict {seg : Segmenter H} {hops more : List (List Int16)} {verdict : Verdict}
    (h : (hear N seg hops).2.2 = some verdict) :
    hear N seg (hops ++ more) = hear N seg hops := by
  rw [hear_append]
  rcases hhear : hear N seg hops with ⟨seg', heard, v⟩
  rw [hhear] at h
  obtain rfl : v = some verdict := h
  rfl

theorem heard_prefix (seg : Segmenter H) {hops hops' : List (List Int16)} (h : hops <+: hops') :
    (hear N seg hops).2.1 <+: (hear N seg hops').2.1 := by
  obtain ⟨more, rfl⟩ := h
  rw [hear_append]
  rcases hear N seg hops with ⟨seg', heard, _ | verdict⟩
  · exact List.prefix_append _ _
  · exact List.prefix_refl _

@[simp] theorem cfg_hearHop (seg : Segmenter H) (hop : List Int16) :
    (seg.hearHop N hop).1.cfg = seg.cfg := by
  rw [Segmenter.hearHop, Segmenter.pushHop]
  cases seg.vad.process N hop with
  | none => rfl
  | some r =>
      obtain ⟨vad, voiced⟩ := r
      simp only [Option.map_some]
      cases (seg.detector.push voiced).2 with
      | none => rfl
      | some event => cases event <;> rfl

@[simp] theorem cfg_hear (seg : Segmenter H) (hops : List (List Int16)) :
    (hear N seg hops).1.cfg = seg.cfg := by
  induction hops generalizing seg with
  | nil => rfl
  | cons hop hops ih =>
      have hcfg := cfg_hearHop (N := N) seg hop
      rw [hear]
      rcases hhop : seg.hearHop N hop with ⟨seg', _ | verdict⟩
      · rw [hhop] at hcfg
        exact (ih seg').trans hcfg
      · rw [hhop] at hcfg
        exact hcfg

/-- The verdict of a wait, after the samples `given`, of which there are no more where `exhausted`. -/
inductive Judged (N : NativeVad H) (seg : Segmenter H) (given : List Int16) (exhausted : Prop) :
    Option Verdict → Prop where
  | waiting : (hear N seg (blocks seg.hopSize given).1).2.2 = none → Judged N seg given exhausted none
  | turn {verdict : Verdict} :
      (hear N seg (blocks seg.hopSize given).1).2.2 = some verdict →
        Judged N seg given exhausted (some verdict)
  | exhausted : exhausted → (hear N seg (blocks seg.hopSize given).1).2.2 = none →
      Judged N seg given exhausted (some (.ended .endOfStream))
  | cancelled : (hear N seg (blocks seg.hopSize given).1).2.2 = none →
      Judged N seg given exhausted (some .cancelled)
  | stalled : (hear N seg (blocks seg.hopSize given).1).2.2 = none →
      Judged N seg given exhausted (some .stalled)

/-- A wait that began with `seg` has been given these samples at the voice detector's rate. -/
structure Tracks (N : NativeVad H) (seg : Segmenter H) (given : List Int16) (exhausted : Prop)
    (w : Wait H P) : Prop where
  heard : w.heard = (hear N seg (blocks seg.hopSize given).1).2.1
  judged : Judged N seg given exhausted w.verdict
  waiting : w.verdict = none →
    w.seg = (hear N seg (blocks seg.hopSize given).1).1 ∧ w.pending = (blocks seg.hopSize given).2

variable {seg : Segmenter H} {given : List Int16} {exhausted : Prop} {w w' : Wait H P}

theorem tracks_new (sampleRate : Nat) : Tracks N seg [] exhausted (Wait.new F seg sampleRate) := by
  have hnil : blocks seg.hopSize ([] : List Int16) = ([], []) := by
    rw [blocks, if_neg]
    intro h
    have hlen : seg.hopSize ≤ 0 := h.2
    omega
  refine ⟨?_, .waiting ?_, fun _ => ?_⟩
  · rw [hnil]
    rfl
  · rw [hnil]
    rfl
  · rw [hnil]
    exact ⟨rfl, rfl⟩

theorem Judged.of_waiting (h : Judged N seg given exhausted none) :
    (hear N seg (blocks seg.hopSize given).1).2.2 = none := by
  cases h with
  | waiting h => exact h

/-- A verdict by the hops, or none yet. -/
theorem judged_hear (N : NativeVad H) (seg : Segmenter H) (given : List Int16) (exhausted : Prop) :
    Judged N seg given exhausted (hear N seg (blocks seg.hopSize given).1).2.2 := by
  cases h : (hear N seg (blocks seg.hopSize given).1).2.2 with
  | none => exact .waiting h
  | some verdict => exact .turn h

/-- **A wait that is given more** has heard the hops of all it was given. -/
theorem tracks_feed {buf : List Int16} (h : Tracks N seg given exhausted w) (hw : w.verdict = none)
    (hfeed : w.feed N F buf = some w') :
    ∃ out, w.resampler.process F buf = some (w'.resampler, out) ∧
      ∀ exhausted', Tracks N seg (given ++ out) exhausted' w' := by
  obtain ⟨⟨resampler, out⟩, hout, rfl⟩ := Option.map_eq_some_iff.1 hfeed
  obtain ⟨hseg, hpending⟩ := h.waiting hw
  have hnone := Judged.of_waiting (hw ▸ h.judged)
  have hhop : w.seg.hopSize = seg.hopSize := by
    rw [Segmenter.hopSize, hseg, cfg_hear, Segmenter.hopSize]
  have hblocks := blocks_append (n := seg.hopSize) given out
  rw [← hpending] at hblocks
  have hhear : hear N seg (blocks seg.hopSize (given ++ out)).1 =
      ((hear N w.seg (blocks seg.hopSize (w.pending ++ out)).1).1,
        w.heard ++ (hear N w.seg (blocks seg.hopSize (w.pending ++ out)).1).2.1,
        (hear N w.seg (blocks seg.hopSize (w.pending ++ out)).1).2.2) := by
    rw [hblocks, hear_append, hseg, h.heard]
    rcases hx : hear N seg (blocks seg.hopSize given).1 with ⟨seg', heard, v⟩
    rw [hx] at hnone
    obtain rfl : v = none := hnone
    rfl
  refine ⟨out, hout, fun exhausted' => ⟨?_, ?_, fun _ => ⟨?_, ?_⟩⟩⟩
  · rw [hhear]
    simp only [hhop]
  · have hjudged := judged_hear N seg (given ++ out) exhausted'
    rw [hhear] at hjudged
    simpa only [hhop] using hjudged
  · rw [hhear]
    simp only [hhop]
  · rw [hblocks]
    simp only [hhop]

theorem resampler_eof (w : Wait H P) : (w.eof N).resampler = w.resampler := by
  rw [Wait.eof]
  split <;> rfl

/-- At its end, what is left is no hop, and a wait that is still going on ends with the stream. -/
theorem tracks_eof (h : Tracks N seg given exhausted w) (hw : w.verdict = none) (hover : exhausted) :
    Tracks N seg given exhausted (w.eof N) ∧ (w.eof N).verdict = some (.ended .endOfStream) := by
  obtain ⟨hseg, hpending⟩ := h.waiting hw
  have hnone := Judged.of_waiting (hw ▸ h.judged)
  have hhop : w.seg.hopSize = seg.hopSize := by
    rw [Segmenter.hopSize, hseg, cfg_hear, Segmenter.hopSize]
  have hrest : ¬ w.seg.hopSize ≤ w.pending.length := by
    rw [hhop, hpending]
    exact Nat.not_le_of_lt (length_blocks_lt seg.pos given)
  have hreason : (match w.seg.detector.finish with
      | (_, some (.ended reason)) => reason
      | _ => EndReason.endOfStream) = .endOfStream := by
    rw [TurnDetector.finish]
    cases w.seg.detector.finished <;> rfl
  have hverdict : (w.eof N).verdict = some (.ended .endOfStream) := by
    rw [Wait.eof, if_neg hrest]
    simp only [hear, hreason]
  refine ⟨⟨?_, ?_, fun hnot => ?_⟩, hverdict⟩
  · rw [Wait.eof, if_neg hrest]
    simp only [hear, List.append_nil, h.heard]
  · rw [hverdict]
    exact .exhausted hover hnone
  · rw [hverdict] at hnot
    exact absurd hnot (by simp)

/-- A wait that is stopped has heard what it had. -/
theorem tracks_stop {v : Verdict} (h : Tracks N seg given exhausted w) (hw : w.verdict = none)
    (hv : v = .cancelled ∨ v = .stalled) :
    Tracks N seg given exhausted { w with verdict := some v } := by
  have hnone := Judged.of_waiting (hw ▸ h.judged)
  refine ⟨h.heard, ?_, by simp⟩
  rcases hv with rfl | rfl
  · exact .cancelled hnone
  · exact .stalled hnone

/-- Of two waits that began alike, the one that was given less has heard as much, as far as it
goes. -/
theorem Tracks.heard_prefix {given' : List Int16} {exhausted' : Prop}
    (h : Tracks N seg given exhausted w) (h' : Tracks N seg given' exhausted' w') (hgiven : given <+: given') :
    w.heard <+: w'.heard := by
  rw [h.heard, h'.heard]
  exact DialF.Audio.heard_prefix seg (blocks_isPrefix hgiven)

/-- Where it has come to its verdict by a hop, so has the other. -/
theorem Tracks.turn_of_prefix {given' : List Int16} {exhausted' : Prop} {v v' : Verdict}
    (hturn : (hear N seg (blocks seg.hopSize given).1).2.2 = some v)
    (h' : Tracks N seg given' exhausted' w') (hgiven : given <+: given') (hv' : w'.verdict = some v')
    (hear' : v'.ByEar) : v = v' := by
  obtain ⟨more, hmore⟩ := blocks_isPrefix (n := seg.hopSize) hgiven
  have hturn' : (hear N seg (blocks seg.hopSize given').1).2.2 = some v := by
    rw [← hmore, hear_of_verdict hturn, hturn]
  have hjudged := h'.judged
  rw [hv'] at hjudged
  cases hjudged with
  | turn h => exact Option.some.inj (hturn'.symm.trans h)
  | exhausted _ h => exact absurd (hturn'.symm.trans h) (by simp)
  | cancelled => exact hear'.elim
  | stalled => exact hear'.elim

end Hear

end DialF.Audio
