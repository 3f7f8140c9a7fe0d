import DialF.Audio.Resample
import DialF.Lib.Machine

/-!
# Full-duplex recording

`DuplexSession` of `audio/record.rs`. A capture thread writes everything it reads to the rx track,
in whole frames, publishes the frame count as the clock, and forwards a mono copy at 16 kHz while a
listener is armed. The job's thread writes prompts to the tx track, each at the clock it reads, and
finishes the recording: both tracks are padded to one length and mixed.

The threads share the clock, the flag of the listener and the channel to it; every access to one of
these is a step of its own, and the steps interleave freely. Sinks and sources do not fail here, and
what is measured of loudness and of lost time is left out.
-/

set_option autoImplicit false

namespace DialF.Audio

open DialF.Lib

/-! ## Sound files -/

/-- A sound file, or the sink that writes one. -/
structure WavFileSink where
  sampleRate : Nat
  channels : Nat
  samples : List Int16
  deriving DecidableEq

namespace WavFileSink

/-- `WavFileSink::create`: at least one channel, and no samples yet. -/
def create (sampleRate channels : Nat) : WavFileSink where
  sampleRate := sampleRate
  channels := max channels 1
  samples := []

/-- `write`: the samples go behind those already written. -/
def write (sink : WavFileSink) (samples : List Int16) : WavFileSink :=
  { sink with samples := sink.samples ++ samples }

/-- A file is whole frames, or it is refused. -/
def finalize (sink : WavFileSink) : Option WavFileSink :=
  if sink.samples.length % sink.channels = 0 then some sink else none

/-- The length of the scratch buffer of zeros. -/
def scratch : Nat := 4096

/-- The loop of `pad_to`: zeros are written a buffer at a time. -/
def padBy (sink : WavFileSink) (remaining : Nat) : WavFileSink :=
  if 0 < remaining then
    let chunk := min remaining scratch
    padBy (sink.write (List.replicate chunk 0)) (remaining - chunk)
  else sink
termination_by remaining
decreasing_by
  simp only [scratch]
  omega

/-- Silence from frame `have` up to frame `want`. -/
def padTo (sink : WavFileSink) («have» want : Nat) : WavFileSink :=
  if want ≤ «have» then sink
  else sink.padBy ((want - «have») * max sink.channels 1)

end WavFileSink

/-- A frame of the mix. -/
def mixFrame (txLeft : Bool) (t r : Int16) : List Int16 :=
  if txLeft then [t, r] else [r, t]

/-- The loop of `mix_wavs`: the leg that is over is silent. -/
def mixLoop (txLeft : Bool) : List Int16 → List Int16 → List Int16
  | [], rx => rx.flatMap fun r => mixFrame txLeft 0 r
  | t :: tx, [] => mixFrame txLeft t 0 ++ mixLoop txLeft tx []
  | t :: tx, r :: rx => mixFrame txLeft t r ++ mixLoop txLeft tx rx

/-- Channel 0 of both legs, side by side. -/
def mixWavs (tx rx : WavFileSink) (txLeft : Bool) : Option WavFileSink :=
  if tx.sampleRate = rx.sampleRate then
    let mix : WavFileSink := { sampleRate := rx.sampleRate, channels := 2, samples := [] }
    (mix.write (mixLoop txLeft (stepBy (max tx.channels 1) tx.samples)
      (stepBy (max rx.channels 1) rx.samples))).finalize
  else none

/-! ## The session -/

/-- Where the capture thread is: a chunk has been written and counted, the clock has been stored, a
frame for the listener has come out. It is `stuck` where the resampler does not return. -/
inductive CaptureStage where
  | reading
  | wrote (chunk : List Int16)
  | clocked (chunk : List Int16)
  | tapped (frame : List Int16)
  | stuck
  | ended
  deriving DecidableEq

variable {P : Type}

/-- The capture thread. -/
structure CaptureThread (P : Type) where
  srcRate : Nat
  srcChannels : Nat
  rx : WavFileSink
  rs : Resampler P
  carry : List Int16
  total : Nat
  wasActive : Bool
  stage : CaptureStage
  deriving DecidableEq

/-- Bound of the channel to the listener. -/
def vadChannelBound : Nat := 64

/-- The session; `finishing` from when `finish` has begun. -/
structure DuplexSession (P : Type) where
  thread : CaptureThread P
  rxLen : Nat
  vadActive : Bool
  vadRx : List (List Int16)
  tx : WavFileSink
  txLen : Nat
  mix : Bool
  mixTxLeft : Bool
  finishing : Bool
  deriving DecidableEq

/-- The files of a recording: one a side, and the mix when it is asked for. -/
structure RecordOutput where
  rx : WavFileSink
  tx : WavFileSink
  mix : Option WavFileSink
  deriving DecidableEq

/-- Cut a chunk and the remainder before it into whole frames and a remainder. -/
def wholeFrames (channels : Nat) (carry buf : List Int16) : List Int16 × List Int16 :=
  if carry = [] ∧ buf.length % channels = 0 then (buf, carry)
  else
    let carry := carry ++ buf
    let whole := carry.length / channels * channels
    (carry.take whole, carry.drop whole)

/-- A read that returns `buf`. -/
def CaptureThread.read (c : CaptureThread P) (buf : List Int16) : CaptureThread P :=
  let (chunk, carry) := wholeFrames c.srcChannels c.carry buf
  if chunk = [] then { c with carry }
  else
    { c with
      carry
      rx := c.rx.write chunk
      total := c.total + chunk.length / c.srcChannels
      stage := .wrote chunk }

/-- The copy for the listener, where one is armed: channel 0, at 16 kHz. -/
def CaptureThread.tap (F : Floats P) (c : CaptureThread P) (chunk : List Int16) (active : Bool) :
    CaptureThread P :=
  let rs := if active ∧ ¬ c.wasActive then Resampler.new16k F c.srcRate else c.rs
  if active then
    match rs.process F (stepBy c.srcChannels chunk) with
    | none => { c with rs, wasActive := active, stage := .stuck }
    | some (rs, frame) =>
        { c with rs, wasActive := active, stage := if frame = [] then .reading else .tapped frame }
  else { c with rs, wasActive := active, stage := .reading }

/-- Steps of the capture thread. -/
inductive CaptureLabel where
  | captured (buf : List Int16)
  | eof
  | stored
  | tapped
  | sent
  deriving DecidableEq

/-- Steps of the job's thread; `vadDrained` and `vadArmed` are the two of `vad_begin`. -/
inductive JobLabel where
  | pushTx (samples : List Int16)
  | vadDrained
  | vadArmed
  | vadEnd
  | vadRecv
  | finish
  deriving DecidableEq

namespace DuplexSession

/-- `start_duplex`: both sinks have the shape of the capture. -/
def start (F : Floats P) (rate channels : Nat) (mix mixTxLeft : Bool) : DuplexSession P where
  thread :=
    { srcRate := rate
      srcChannels := max channels 1
      rx := .create rate channels
      rs := .new16k F rate
      carry := []
      total := 0
      wasActive := false
      stage := .reading }
  rxLen := 0
  vadActive := false
  vadRx := []
  tx := .create rate channels
  txLen := 0
  mix := mix
  mixTxLeft := mixTxLeft
  finishing := false

/-- One step of the capture thread, on its own or at a sink that it shares with the job. -/
def captureStep (F : Floats P) (s : DuplexSession P) : CaptureLabel → Option (DuplexSession P)
  | .captured buf =>
      if s.thread.stage = .reading ∧ buf ≠ [] then some { s with thread := s.thread.read buf }
      else none
  | .eof =>
      if s.thread.stage = .reading then some { s with thread := { s.thread with stage := .ended } }
      else none
  | .stored =>
      match s.thread.stage with
      | .wrote chunk =>
          some { s with rxLen := s.thread.total, thread := { s.thread with stage := .clocked chunk } }
      | _ => none
  | .tapped =>
      match s.thread.stage with
      | .clocked chunk => some { s with thread := s.thread.tap F chunk s.vadActive }
      | _ => none
  | .sent =>
      match s.thread.stage with
      | .tapped frame =>
          -- `try_send`: a full channel loses the frame
          some { s with
            vadRx := if s.vadRx.length < vadChannelBound then s.vadRx ++ [frame] else s.vadRx
            thread := { s.thread with stage := .reading } }
      | _ => none

/-- What a step of the capture thread does, case by case. -/
inductive CaptureMoves (F : Floats P) (s : DuplexSession P) :
    CaptureLabel → DuplexSession P → Prop where
  | captured {buf : List Int16} : s.thread.stage = .reading → buf ≠ [] →
      CaptureMoves F s (.captured buf) { s with thread := s.thread.read buf }
  | eof : s.thread.stage = .reading →
      CaptureMoves F s .eof { s with thread := { s.thread with stage := .ended } }
  | stored {chunk : List Int16} : s.thread.stage = .wrote chunk →
      CaptureMoves F s .stored
        { s with rxLen := s.thread.total, thread := { s.thread with stage := .clocked chunk } }
  | tapped {chunk : List Int16} : s.thread.stage = .clocked chunk →
      CaptureMoves F s .tapped { s with thread := s.thread.tap F chunk s.vadActive }
  | sent {frame : List Int16} : s.thread.stage = .tapped frame →
      CaptureMoves F s .sent
        { s with
          vadRx := if s.vadRx.length < vadChannelBound then s.vadRx ++ [frame] else s.vadRx
          thread := { s.thread with stage := .reading } }

theorem captureStep_eq_some {F : Floats P} {s t : DuplexSession P} {a : CaptureLabel}
    (h : s.captureStep F a = some t) : CaptureMoves F s a t := by
  cases a with
  | captured buf =>
      obtain ⟨⟨hstage, hbuf⟩, h⟩ := Option.ite_none_right_eq_some.1 h
      obtain rfl := Option.some.inj h
      exact .captured hstage hbuf
  | eof =>
      obtain ⟨hstage, h⟩ := Option.ite_none_right_eq_some.1 h
      obtain rfl := Option.some.inj h
      exact .eof hstage
  | stored =>
      cases hstage : s.thread.stage <;> simp only [captureStep, hstage, reduceCtorEq] at h
      case wrote chunk =>
        obtain rfl := Option.some.inj h
        exact .stored hstage
  | tapped =>
      cases hstage : s.thread.stage <;> simp only [captureStep, hstage, reduceCtorEq] at h
      case clocked chunk =>
        obtain rfl := Option.some.inj h
        exact .tapped hstage
  | sent =>
      cases hstage : s.thread.stage <;> simp only [captureStep, hstage, reduceCtorEq] at h
      case tapped frame =>
        obtain rfl := Option.some.inj h
        exact .sent hstage

/-- `push_tx`: the prompt lands at the clock, or behind the prompt before it. -/
def pushTx (s : DuplexSession P) (samples : List Int16) : DuplexSession P :=
  let target := s.rxLen
  let tx := s.tx.padTo s.txLen target
  { s with
    tx := tx.write samples
    txLen := max s.txLen target + samples.length / max tx.channels 1 }

/-- One step of the job thread at the session. -/
def jobStep (s : DuplexSession P) : JobLabel → Option (DuplexSession P)
  | .pushTx samples => some (s.pushTx samples)
  | .vadDrained => some { s with vadRx := [] }
  | .vadArmed => some { s with vadActive := true }
  | .vadEnd => some { s with vadActive := false }
  | .vadRecv =>
      match s.vadRx with
      | [] => none
      | _ :: rest => some { s with vadRx := rest }
  | .finish => some { s with vadActive := false, finishing := true }

/-- What `finish` returns once it has joined the capture thread. -/
def finish (s : DuplexSession P) : Option RecordOutput :=
  if s.finishing ∧ s.thread.stage = .ended then
    let total := max s.thread.total s.txLen
    match (s.thread.rx.padTo s.thread.total total).finalize, (s.tx.padTo s.txLen total).finalize with
    | some rx, some tx =>
        if s.mix then (mixWavs tx rx s.mixTxLeft).map fun mix => { rx, tx, mix := some mix }
        else some { rx, tx, mix := none }
    | _, _ => none
  else none

end DuplexSession

/-- Steps of a recording. -/
inductive RecordLabel where
  | capture (a : CaptureLabel)
  | job (b : JobLabel)
  deriving DecidableEq

/-- A recording: `finish` takes the session from the job. -/
def recording (F : Floats P) (rate channels : Nat) (mix mixTxLeft : Bool) :
    Machine (DuplexSession P) RecordLabel where
  Init s := s = .start F rate channels mix mixTxLeft
  step s
    | .capture a => s.captureStep F a
    | .job b => if s.finishing then none else s.jobStep b

end DialF.Audio
