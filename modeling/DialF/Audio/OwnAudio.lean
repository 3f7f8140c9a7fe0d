import Mathlib.Data.List.Forall2
import DialF.Audio.Record

/-!
# What a turn hears

A recording's capture thread forwards frames while a listener is armed; on the job's thread a turn
drains the channel, arms the listener, reads frames and disarms it. The machine takes every access
to the flag, the channel and the clock as a step of its own, and adds to the session what none of
the threads records: the chunks that were read, those that the resampler in use has been fed with,
the chunk that each frame in the channel is of, and where the capture was when the turn began.

`HearsOwn` is what a turn should hear: frames out of a resampler that was made anew and has been fed
with chunks of the turn alone, which were read behind its beginning, but for the one that was being
processed then; in the order of the capture, and each but once.

The capture thread makes a new resampler where it finds the flag up that it found down before. A
turn that ends and another one that begins between two looks at the flag share a resampler, and the
second hears what is left of the first. `Clean` is where a turn is armed apart from the one before
it, and `hearsOwn_along_of_clean` has `HearsOwn` in every state of such runs.
-/

set_option autoImplicit false

namespace DialF.Audio

open DialF.Lib

variable {P : Type}

/-- Where the job's thread is in a turn; `draining` and `drained` are in `vad_begin`. -/
inductive TurnPhase where
  | idle
  | draining
  | drained
  | listening
  deriving DecidableEq

/-- What has become of the chunks, by their numbers; `begun` is how many had been read when the turn
began, and `processing` the one that was being processed then. -/
structure TurnHistory where
  chunks : List (List Int16)
  fed : List Nat
  sources : List Nat
  begun : Nat
  processing : Option Nat
  frames : List (Nat × List Int16)
  heard : List (Nat × Int16)
  deriving DecidableEq

/-- A recording, the turn of its job, and what is left over of the frame that it is reading. -/
structure Turns (P : Type) where
  session : DuplexSession P
  phase : TurnPhase
  leftover : List (Nat × Int16)
  history : TurnHistory
  deriving DecidableEq

/-- A step of the capture thread, or of a turn: `vad_begin` is `begin`, `drain`s, `drained` and
`armed`, a read of `VadFrameSource` is a `recv` where nothing is left over and a `take`. -/
inductive TurnsLabel where
  | capture (a : CaptureLabel)
  | begin
  | drain
  | drained
  | armed
  | recv
  | take (n : Nat)
  | finish
  deriving DecidableEq

/-- The capture thread is at work on a chunk. -/
def CaptureStage.busy : CaptureStage → Bool
  | .wrote _ | .clocked _ | .tapped _ => true
  | .reading | .stuck | .ended => false

namespace Turns

/-- The last chunk that was read. -/
def current (s : Turns P) : Nat := s.history.chunks.length - 1

/-- A step of the capture thread, in the history. -/
def captured (s : Turns P) (a : CaptureLabel) (session : DuplexSession P) : TurnHistory :=
  match a with
  | .captured _ =>
      match session.thread.stage with
      | .wrote chunk => { s.history with chunks := s.history.chunks ++ [chunk] }
      | _ => s.history
  | .tapped =>
      if s.session.vadActive then
        { s.history with
          fed := (if s.session.thread.wasActive then s.history.fed else []) ++ [s.current] }
      else s.history
  | .sent =>
      if s.session.vadRx.length < vadChannelBound then
        { s.history with sources := s.history.sources ++ [s.current] }
      else s.history
  | .eof | .stored => s.history

/-- A turn begins. -/
def beginTurn (s : Turns P) : Turns P :=
  { s with
    phase := .draining
    leftover := []
    history := { s.history with
      begun := s.history.chunks.length
      processing := if s.session.thread.stage.busy then some s.current else none
      frames := []
      heard := [] } }

/-- A frame has been received. -/
def received (s : Turns P) (session : DuplexSession P) (frame : List Int16) : Turns P :=
  let k := s.history.sources.headD 0
  { s with
    session
    leftover := frame.map fun x => (k, x)
    history := { s.history with
      sources := s.history.sources.tail
      frames := s.history.frames ++ [(k, frame)] } }

/-- One step of the session or of its turns, with what it adds to the history. -/
def step (F : Floats P) (s : Turns P) : TurnsLabel → Option (Turns P)
  | .capture a =>
      (s.session.captureStep F a).map fun session =>
        { s with session, history := s.captured a session }
  | .begin => if s.phase = .idle then some s.beginTurn else none
  | .drain =>
      if s.phase = .draining then
        (s.session.jobStep .vadRecv).map fun session =>
          { s with session, history := { s.history with sources := s.history.sources.tail } }
      else none
  | .drained =>
      if s.phase = .draining ∧ s.session.vadRx = [] then some { s with phase := .drained } else none
  | .armed =>
      if s.phase = .drained then
        (s.session.jobStep .vadArmed).map fun session => { s with session, phase := .listening }
      else none
  | .recv =>
      if s.phase = .listening ∧ s.leftover = [] then
        (s.session.jobStep .vadRecv).map fun session =>
          s.received session (s.session.vadRx.headD [])
      else none
  | .take n =>
      if s.phase = .listening ∧ 0 < n ∧ n ≤ s.leftover.length then
        some { s with
          leftover := s.leftover.drop n
          history := { s.history with heard := s.history.heard ++ s.leftover.take n } }
      else none
  | .finish =>
      if s.phase = .listening then
        (s.session.jobStep .vadEnd).map fun session => { s with session, phase := .idle }
      else none

/-- A recording that has begun, with no turn yet. -/
def start (F : Floats P) (rate channels : Nat) (mix mixTxLeft : Bool) : Turns P where
  session := .start F rate channels mix mixTxLeft
  phase := .idle
  leftover := []
  history := ⟨[], [], [], 0, none, [], []⟩

/-- All runs of a session and its turns from the start of a recording. -/
def machine (F : Floats P) (rate channels : Nat) (mix mixTxLeft : Bool) :
    Machine (Turns P) TurnsLabel where
  Init s := s = start F rate channels mix mixTxLeft
  step s a := s.step F a

/-! ## What a turn should hear -/

/-- The frame is what a resampler, made anew and fed with the chunks from one on, makes of a chunk;
all of them are `own`. -/
def Made (F : Floats P) (rate channels : Nat) (chunks : List (List Int16)) (own : Nat → Prop)
    (k : Nat) (frame : List Int16) : Prop :=
  ∃ a rs out rs' chunk, a ≤ k ∧ (∀ j, a ≤ j → j ≤ k → own j) ∧ chunks[k]? = some chunk ∧
    feed (Resampler.process F) (.new16k F rate) (((chunks.take k).drop a).map (stepBy channels)) =
      some (rs, out) ∧
    rs.process F (stepBy channels chunk) = some (rs', frame)

/-- The chunk is of the turn: it was read since the turn began, or was being processed then. -/
def Own (s : Turns P) (k : Nat) : Prop :=
  s.history.begun ≤ k ∨ s.history.processing = some k

/-- **A turn hears only its own audio.** -/
structure HearsOwn (F : Floats P) (rate channels : Nat) (s : Turns P) : Prop where
  own : ∀ f ∈ s.history.frames, Made F rate channels s.history.chunks s.Own f.1 f.2
  inOrder : (s.history.frames.map Prod.fst).Pairwise (· < ·)
  once : s.history.heard <+: s.history.frames.flatMap fun f => f.2.map fun x => (f.1, x)
  consecutive : ∃ a, s.history.fed = List.range' a s.history.fed.length

/-- A turn is armed apart from the one before it: the capture thread has found the flag down and
left nothing in the channel, or the resampler has been fed with nothing but the chunk that was being
processed as the turn began. At the target rate the resampler passes through what it is fed with. -/
def Clean (rate : Nat) (s : Turns P) : TurnsLabel → Prop
  | .armed =>
      rate = targetRate ∨ (s.session.thread.wasActive = false ∧ s.session.vadRx = []) ∨
        ∀ j ∈ s.history.fed, s.history.processing = some j
  | _ => True

instance (rate : Nat) (s : Turns P) : ∀ a, Decidable (s.Clean rate a)
  | .armed => inferInstanceAs (Decidable (_ ∨ _ ∨ _))
  | .capture _ | .begin | .drain | .drained | .recv | .take _ | .finish =>
      inferInstanceAs (Decidable True)

/-! ## The invariant -/

end Turns

/-- The chunk that has been read and not been tapped yet. -/
def CaptureStage.chunk : CaptureStage → Option (List Int16)
  | .wrote chunk | .clocked chunk => some chunk
  | .reading | .tapped _ | .stuck | .ended => none

namespace Turns

/-- How many chunks have been tapped. -/
def tapped (s : Turns P) : Nat :=
  s.history.chunks.length - (if s.session.thread.stage.chunk.isSome then 1 else 0)

/-- How many chunks the capture thread is done with. -/
def settled (s : Turns P) : Nat :=
  s.history.chunks.length - (if s.session.thread.stage.busy then 1 else 0)

section Made

variable {F : Floats P} {rate channels k : Nat} {chunks : List (List Int16)} {own own' : Nat → Prop}
variable {frame : List Int16}

/-- What is known of a frame that was made does not change as more chunks are read. -/
theorem Made.append (h : Made F rate channels chunks own k frame) (more : List (List Int16)) :
    Made F rate channels (chunks ++ more) own k frame := by
  obtain ⟨a, rs, out, rs', chunk, ha, hown, hchunk, hfeed, hframe⟩ := h
  obtain ⟨hlt, -⟩ := List.getElem?_eq_some_iff.1 hchunk
  refine ⟨a, rs, out, rs', chunk, ha, hown, ?_, ?_, hframe⟩
  · rw [List.getElem?_append_left hlt]
    exact hchunk
  · rw [List.take_append_of_le_length (Nat.le_of_lt hlt)]
    exact hfeed

theorem Made.mono (h : Made F rate channels chunks own k frame) (hown : ∀ j, own j → own' j) :
    Made F rate channels chunks own' k frame := by
  obtain ⟨a, rs, out, rs', chunk, ha, hall, hchunk, hfeed, hframe⟩ := h
  exact ⟨a, rs, out, rs', chunk, ha, fun j hj hjk => hown j (hall j hj hjk), hchunk, hfeed, hframe⟩

/-- What a resampler that passes through has been fed with leaves nothing behind. -/
theorem feed_passthrough {pieces : List (List Int16)} {rs : Resampler P} {out : List Int16}
    (h : feed (Resampler.process F) .passthrough pieces = some (rs, out)) :
    rs = .passthrough := by
  induction pieces generalizing out with
  | nil => exact (Prod.mk.inj (Option.some.inj h)).1.symm
  | cons p pieces ih =>
      rw [feed, Resampler.process, Option.bind_some] at h
      obtain ⟨r, hr, hout⟩ := Option.map_eq_some_iff.1 h
      obtain ⟨rfl, -⟩ := Prod.mk.inj hout
      exact ih hr

/-- At the target rate, a frame is made of its own chunk alone. -/
theorem Made.own_of_target (h : Made F rate channels chunks own k frame) (hrate : rate = targetRate)
    (hown : own' k) : Made F rate channels chunks own' k frame := by
  obtain ⟨a, rs, out, rs', chunk, ha, -, hchunk, hfeed, hframe⟩ := h
  have hnew : Resampler.new16k F rate = .passthrough := by
    rw [Resampler.new16k, Resampler.new, if_pos hrate]
  rw [hnew] at hfeed
  obtain rfl := feed_passthrough hfeed
  refine ⟨k, .passthrough, [], rs', chunk, Nat.le_refl k, fun j hj hjk => ?_, hchunk, ?_, hframe⟩
  · exact Nat.le_antisymm hj hjk ▸ hown
  · rw [List.drop_eq_nil_of_le (List.length_take_le k chunks), hnew]
    rfl

end Made

/-- The resampler in use: where it is fed without a break, it has been fed with the last chunks. -/
def Feeds (F : Floats P) (rate channels : Nat) (s : Turns P) : Prop :=
  ∃ a, s.history.fed = List.range' a s.history.fed.length ∧
    (s.session.thread.stage ≠ .stuck → s.session.thread.wasActive = true →
      a + s.history.fed.length = s.tapped ∧
        ∃ out, feed (Resampler.process F) (.new16k F rate)
          (((s.history.chunks.take s.tapped).drop a).map (stepBy channels)) =
            some (s.session.thread.rs, out))

/-- What the capture thread has done. -/
structure Captured (F : Floats P) (rate channels : Nat) (s : Turns P) : Prop where
  srcRate : s.session.thread.srcRate = rate
  srcChannels : s.session.thread.srcChannels = channels
  busy : s.session.thread.stage.busy = true → s.history.chunks ≠ []
  chunk : ∀ chunk, s.session.thread.stage.chunk = some chunk →
    s.history.chunks.getLast? = some chunk
  frame : ∀ frame, s.session.thread.stage = .tapped frame → s.session.thread.wasActive = true ∧
    Made F rate channels s.history.chunks (· ∈ s.history.fed) s.current frame
  feeds : s.Feeds F rate channels
  queued : s.history.sources.length = s.session.vadRx.length

/-- What a turn has received, and what it may receive yet. -/
structure Received (s : Turns P) : Prop where
  begun : s.history.begun ≤ s.history.chunks.length
  inOrder : (s.history.frames.map Prod.fst ++ s.history.sources).Pairwise (· < ·)
  past : ∀ k ∈ s.history.frames.map Prod.fst ++ s.history.sources, k < s.settled
  ownNow : s.session.thread.stage.busy = true → s.Own s.current
  ownQueue : s.phase ≠ .draining → ∀ k ∈ s.history.sources, s.Own k
  read : s.history.heard ++ s.leftover =
    s.history.frames.flatMap fun f => f.2.map fun x => (f.1, x)

/-- What the frames of a turn are made of. The flag is up only while it listens; until then, nothing
but what the resampler has been fed with comes into the channel. -/
structure Apart (F : Floats P) (rate channels : Nat) (s : Turns P) : Prop where
  unarmed : s.phase ≠ .listening → s.session.vadActive = false
  drained : s.phase = .drained →
    List.Forall₂ (Made F rate channels s.history.chunks (· ∈ s.history.fed)) s.history.sources
      s.session.vadRx
  queue : s.phase = .listening →
    List.Forall₂ (Made F rate channels s.history.chunks s.Own) s.history.sources s.session.vadRx
  frame : s.phase = .listening → ∀ frame, s.session.thread.stage = .tapped frame →
    Made F rate channels s.history.chunks s.Own s.current frame
  fed : s.phase = .listening → rate ≠ targetRate → s.session.thread.wasActive = true →
    ∀ j ∈ s.history.fed, s.Own j
  frames : ∀ f ∈ s.history.frames, Made F rate channels s.history.chunks s.Own f.1 f.2

variable {F : Floats P} {rate channels : Nat} {s t : Turns P}

theorem hearsOwn_of_inv (hc : Captured F rate channels s) (hr : Received s)
    (ha : Apart F rate channels s) : HearsOwn F rate channels s := by
  obtain ⟨a, hfed, -⟩ := hc.feeds
  exact ⟨ha.frames, (List.pairwise_append.1 hr.inOrder).1, ⟨s.leftover, hr.read⟩, ⟨a, hfed⟩⟩

/-! ## Steps of the capture thread -/

/-- A read leaves the resampler alone; it ends with a chunk, or goes on. -/
theorem read_cases (c : CaptureThread P) (buf : List Int16) :
    (c.read buf).srcRate = c.srcRate ∧ (c.read buf).srcChannels = c.srcChannels ∧
      (c.read buf).rs = c.rs ∧ (c.read buf).wasActive = c.wasActive ∧
        ((c.read buf).stage = c.stage ∨ ∃ chunk, (c.read buf).stage = .wrote chunk) := by
  rw [CaptureThread.read]
  generalize wholeFrames c.srcChannels c.carry buf = frames
  obtain ⟨chunk, carry⟩ := frames
  by_cases hchunk : chunk = []
  · simp [hchunk]
  · simp [hchunk]

/-- Fed with one more piece. -/
theorem feed_concat {σ α β : Type} {f : Pipe σ α β} {s : σ} {pieces : List (List α)} {p : List α}
    {r r' : σ × List β} (h : feed f s pieces = some r) (hp : f r.1 p = some r') :
    feed f s (pieces ++ [p]) = some (r'.1, r.2 ++ r'.2) := by
  rw [feed_append, h, Option.bind_some, feed, hp]
  simp [feed]

/-- The chunks that the resampler has been fed with as a chunk is tapped, where the listener is
armed: none where it was not armed before. -/
def fedBefore (s : Turns P) : List Nat :=
  if s.session.thread.wasActive then s.history.fed else []

/-- The resampler in use then. -/
def rsBefore (F : Floats P) (s : Turns P) : Resampler P :=
  if s.session.thread.wasActive then s.session.thread.rs
  else .new16k F s.session.thread.srcRate

theorem tap_armed (chunk : List Int16) :
    s.session.thread.tap F chunk true =
      (((s.rsBefore F).process F (stepBy s.session.thread.srcChannels chunk)).map fun r =>
        { s.session.thread with
          rs := r.1
          wasActive := true
          stage := if r.2 = [] then .reading else .tapped r.2 }).getD
        { s.session.thread with rs := s.rsBefore F, wasActive := true, stage := .stuck } := by
  have hrs : (if true = true ∧ ¬ s.session.thread.wasActive = true then
      Resampler.new16k F s.session.thread.srcRate else s.session.thread.rs) = s.rsBefore F := by
    rw [rsBefore]
    cases s.session.thread.wasActive <;> simp
  unfold CaptureThread.tap
  rw [hrs, if_pos rfl]
  cases (s.rsBefore F).process F (stepBy s.session.thread.srcChannels chunk) <;> rfl

theorem chunks_of_clocked {chunk : List Int16} (hc : Captured F rate channels s)
    (hstage : s.session.thread.stage = .clocked chunk) :
    ∃ front, s.history.chunks = front ++ [chunk] ∧ s.current = front.length ∧
      s.tapped = front.length := by
  have hlast := hc.chunk chunk (by rw [hstage]; rfl)
  obtain ⟨front, hfront⟩ := List.getLast?_eq_some_iff.1 hlast
  refine ⟨front, hfront, ?_, ?_⟩
  · rw [current, hfront, List.length_append, List.length_singleton, Nat.add_sub_cancel]
  · rw [tapped, hstage, hfront, List.length_append, List.length_singleton]
    exact Nat.add_sub_cancel _ _

/-- **Before a chunk is tapped**, the resampler has been fed with the chunks right before it. -/
theorem feeds_before {chunk : List Int16} {front : List (List Int16)}
    (hc : Captured F rate channels s) (hstage : s.session.thread.stage = .clocked chunk)
    (hfront : s.history.chunks = front ++ [chunk]) (htapped : s.tapped = front.length) :
    ∃ a out, s.fedBefore = List.range' a s.fedBefore.length ∧
      a + s.fedBefore.length = front.length ∧
        feed (Resampler.process F) (.new16k F rate) ((front.drop a).map (stepBy channels)) =
          some (s.rsBefore F, out) := by
  rw [fedBefore, rsBefore]
  cases hwas : s.session.thread.wasActive with
  | true =>
      obtain ⟨a, hfed, hfeeds⟩ := hc.feeds
      obtain ⟨hsum, out, hout⟩ := hfeeds (by rw [hstage]; simp) hwas
      rw [htapped, hfront, List.take_left] at hout
      exact ⟨a, out, hfed, hsum.trans htapped, hout⟩
  | false =>
      refine ⟨front.length, [], by simp, by simp, ?_⟩
      rw [List.drop_length, if_neg (by simp), hc.srcRate]
      rfl

/-- A step of the capture thread keeps what is known of what it has done. -/
theorem captured_capture {a : CaptureLabel} {session : DuplexSession P}
    (hc : Captured F rate channels s) (h : s.session.captureStep F a = some session) :
    Captured F rate channels { s with session, history := s.captured a session } := by
  cases DuplexSession.captureStep_eq_some h with
  | @captured buf hstage hbuf =>
      obtain ⟨hrate, hch, hrs, hwas, hcase⟩ := read_cases s.session.thread buf
      have htapped : s.tapped = s.history.chunks.length := by
        rw [tapped, hstage]
        rfl
      obtain ⟨b, hfed, hfeeds⟩ := hc.feeds
      rw [hstage, htapped, List.take_length] at hfeeds
      rcases hcase with hsame | ⟨chunk, hwrote⟩
      · -- there is no whole frame yet
        have hreading : (s.session.thread.read buf).stage = .reading := hsame.trans hstage
        have hhistory : s.captured (.captured buf)
            { s.session with thread := s.session.thread.read buf } = s.history := by
          simp only [Turns.captured, hreading]
        rw [hhistory]
        refine ⟨hrate.trans hc.srcRate, hch.trans hc.srcChannels, ?_, ?_, ?_, ⟨b, hfed, ?_⟩,
          hc.queued⟩
        · simp [hreading, CaptureStage.busy]
        · simp [hreading, CaptureStage.chunk]
        · simp [hreading]
        · intro _ hactive
          simp only [tapped, hreading, CaptureStage.chunk, Option.isSome_none, Bool.false_eq_true,
            if_false, Nat.sub_zero, List.take_length, hrs]
          exact hfeeds (by simp) (hwas.symm.trans hactive)
      · have hhistory : s.captured (.captured buf)
            { s.session with thread := s.session.thread.read buf } =
              { s.history with chunks := s.history.chunks ++ [chunk] } := by
          simp only [Turns.captured, hwrote]
        rw [hhistory]
        refine ⟨hrate.trans hc.srcRate, hch.trans hc.srcChannels, ?_, ?_, ?_, ⟨b, hfed, ?_⟩,
          hc.queued⟩
        · simp
        · intro chunk' hchunk'
          rw [hwrote] at hchunk'
          obtain rfl := Option.some.inj hchunk'
          exact List.getLast?_concat
        · simp [hwrote]
        · intro _ hactive
          simp only [tapped, hwrote, CaptureStage.chunk, Option.isSome_some, if_true,
            List.length_append, List.length_singleton, Nat.add_sub_cancel, List.take_left, hrs]
          exact hfeeds (by simp) (hwas.symm.trans hactive)
  | eof hstage =>
      obtain ⟨b, hfed, hfeeds⟩ := hc.feeds
      refine ⟨hc.srcRate, hc.srcChannels, ?_, ?_, ?_, ⟨b, hfed, ?_⟩, hc.queued⟩
      · simp [CaptureStage.busy]
      · simp [CaptureStage.chunk]
      · simp
      · intro _ hactive
        have hsame := hfeeds (by rw [hstage]; simp) hactive
        simp only [tapped, hstage, CaptureStage.chunk] at hsame
        exact hsame
  | @stored chunk hstage =>
      obtain ⟨b, hfed, hfeeds⟩ := hc.feeds
      refine ⟨hc.srcRate, hc.srcChannels, ?_, ?_, ?_, ⟨b, hfed, ?_⟩, hc.queued⟩
      · exact fun _ => hc.busy (by rw [hstage]; rfl)
      · exact fun chunk' hchunk' => hc.chunk chunk' (by rw [hstage]; exact hchunk')
      · simp
      · intro _ hactive
        have hsame := hfeeds (by rw [hstage]; simp) hactive
        simp only [tapped, hstage, CaptureStage.chunk] at hsame
        exact hsame
  | @tapped chunk hstage =>
      obtain ⟨front, hfront, hcurrent, htapped⟩ := chunks_of_clocked hc hstage
      cases hactive : s.session.vadActive with
      | false =>
          have htap : s.session.thread.tap F chunk false =
              { s.session.thread with wasActive := false, stage := .reading } := by
            simp [CaptureThread.tap]
          obtain ⟨b, hfed, -⟩ := hc.feeds
          simp only [Turns.captured, hactive, htap, Bool.false_eq_true, if_false]
          exact ⟨hc.srcRate, hc.srcChannels, by simp [CaptureStage.busy],
            by simp [CaptureStage.chunk], by simp, ⟨b, hfed, by simp⟩, hc.queued⟩
      | true =>
          obtain ⟨b, out, hfed, hsum, hfeed⟩ := feeds_before hc hstage hfront htapped
          have hfed' : s.fedBefore ++ [s.current] =
              List.range' b (s.fedBefore ++ [s.current]).length := by
            rw [List.length_append, List.length_singleton, List.range'_concat, Nat.one_mul,
              hsum, ← hcurrent, ← hfed]
          have hhistory : ∀ session, s.captured .tapped session =
              { s.history with fed := s.fedBefore ++ [s.current] } := by
            intro session
            simp [Turns.captured, hactive, fedBefore]
          rw [hhistory]
          cases hprocess : (s.rsBefore F).process F (stepBy channels chunk) with
          | none =>
              have htap : s.session.thread.tap F chunk true =
                  { s.session.thread with
                    rs := s.rsBefore F, wasActive := true, stage := .stuck } := by
                rw [tap_armed, hc.srcChannels, hprocess]
                rfl
              rw [htap]
              exact ⟨hc.srcRate, hc.srcChannels, by simp [CaptureStage.busy],
                by simp [CaptureStage.chunk], by simp, ⟨b, hfed', by simp⟩, hc.queued⟩
          | some r =>
              obtain ⟨rs, frame⟩ := r
              have htap : s.session.thread.tap F chunk true =
                  { s.session.thread with
                    rs, wasActive := true,
                    stage := if frame = [] then .reading else .tapped frame } := by
                rw [tap_armed, hc.srcChannels, hprocess]
                rfl
              have hchunk : s.history.chunks[front.length]? = some chunk := by
                rw [hfront]
                simp
              have hmade : Made F rate channels s.history.chunks (· ∈ s.fedBefore ++ [s.current])
                  s.current frame := by
                refine ⟨b, s.rsBefore F, out, rs, chunk, by omega, fun j hj hjk => ?_,
                  hcurrent ▸ hchunk, ?_, hprocess⟩
                · change j ∈ s.fedBefore ++ [s.current]
                  rw [hfed', List.mem_range'_1, List.length_append, List.length_singleton]
                  omega
                · rw [hcurrent, hfront, List.take_left]
                  exact hfeed
              have hstage' : ∀ stage : CaptureStage,
                  stage = (if frame = [] then .reading else .tapped frame) →
                    stage.chunk = none := by
                rintro _ rfl
                split <;> rfl
              rw [htap]
              refine ⟨hc.srcRate, hc.srcChannels, fun _ => hc.busy (by rw [hstage]; rfl), ?_, ?_,
                ⟨b, hfed', fun _ _ => ⟨?_, out ++ frame, ?_⟩⟩, hc.queued⟩
              · intro chunk' hchunk'
                rw [hstage' _ rfl] at hchunk'
                exact absurd hchunk' (by simp)
              · intro frame' hframe'
                change (if frame = [] then CaptureStage.reading else .tapped frame) = _ at hframe'
                split at hframe'
                · exact absurd hframe' (by simp)
                · obtain rfl := CaptureStage.tapped.inj hframe'
                  exact ⟨rfl, hmade⟩
              · simp only [tapped, hstage' _ rfl, List.length_append, List.length_singleton, hfront]
                simp only [Option.isSome_none, Bool.false_eq_true, if_false]
                omega
              · have hall := feed_concat hfeed hprocess
                rw [← List.map_singleton (f := stepBy channels), ← List.map_append] at hall
                simp only [tapped, hstage' _ rfl, Option.isSome_none, Bool.false_eq_true, if_false,
                  Nat.sub_zero, List.take_length]
                rw [hfront, List.drop_append_of_le_length (by omega)]
                exact hall
  | @sent frame hstage =>
      obtain ⟨b, hfed, hfeeds⟩ := hc.feeds
      have hrest : ∀ (sources : List Nat) (vadRx : List (List Int16)),
          sources.length = vadRx.length → Captured F rate channels { s with
            session := { s.session with
              vadRx, thread := { s.session.thread with stage := .reading } }
            history := { s.history with sources } } := by
        intro sources vadRx hqueued
        refine ⟨hc.srcRate, hc.srcChannels, by simp [CaptureStage.busy],
          by simp [CaptureStage.chunk], by simp, ⟨b, hfed, ?_⟩, hqueued⟩
        intro _ hactive
        have hsame := hfeeds (by rw [hstage]; simp) hactive
        simp only [tapped, hstage, CaptureStage.chunk] at hsame
        exact hsame
      by_cases hroom : s.session.vadRx.length < vadChannelBound
      · simp only [Turns.captured, if_pos hroom]
        exact hrest _ _ (by rw [List.length_append, List.length_append, hc.queued]; rfl)
      · simp only [Turns.captured, if_neg hroom]
        exact hrest _ _ hc.queued

/-- A step after which the history is the same, and no chunk is busy that was not. -/
theorem Received.same (hr : Received s) {session : DuplexSession P}
    {history : TurnHistory} (hhistory : history.chunks = s.history.chunks ∧
      history.sources = s.history.sources ∧ history.begun = s.history.begun ∧
        history.processing = s.history.processing ∧ history.frames = s.history.frames ∧
          history.heard = s.history.heard)
    (hbusy : session.thread.stage.busy = true → s.session.thread.stage.busy = true) :
    Received { s with session, history } := by
  obtain ⟨chunks, fed, sources, begun, processing, frames, heard⟩ := history
  obtain ⟨rfl, rfl, rfl, rfl, rfl, rfl⟩ := hhistory
  refine ⟨hr.begun, hr.inOrder, fun k hk => Nat.lt_of_lt_of_le (hr.past k hk) ?_,
    fun h => hr.ownNow (hbusy h), hr.ownQueue, hr.read⟩
  rw [settled, settled]
  cases hb : session.thread.stage.busy with
  | true => simp [hbusy hb]
  | false => simp

/-- A step of the capture thread keeps what is known of the turn. -/
theorem received_capture {a : CaptureLabel} {session : DuplexSession P}
    (hc : Captured F rate channels s) (hr : Received s)
    (h : s.session.captureStep F a = some session) :
    Received { s with session, history := s.captured a session } := by
  cases DuplexSession.captureStep_eq_some h with
  | @captured buf hstage hbuf =>
      obtain ⟨-, -, -, -, hcase⟩ := read_cases s.session.thread buf
      rcases hcase with hsame | ⟨chunk, hwrote⟩
      · have hhistory : s.captured (.captured buf)
            { s.session with thread := s.session.thread.read buf } = s.history := by
          simp only [Turns.captured, hsame, hstage]
        rw [hhistory]
        exact hr.same ⟨rfl, rfl, rfl, rfl, rfl, rfl⟩ fun hb => hsame ▸ hb
      · have hhistory : s.captured (.captured buf)
            { s.session with thread := s.session.thread.read buf } =
              { s.history with chunks := s.history.chunks ++ [chunk] } := by
          simp only [Turns.captured, hwrote]
        have hsettled : s.settled = s.history.chunks.length := by
          rw [settled, hstage]
          rfl
        have hbegun := hr.begun
        rw [hhistory]
        refine ⟨?_, hr.inOrder, fun k hk => ?_, fun _ => .inl ?_, hr.ownQueue, hr.read⟩
        · rw [List.length_append]
          exact Nat.le_add_right_of_le hbegun
        · have hlt := hr.past k hk
          simp only [settled, hwrote, CaptureStage.busy, List.length_append, List.length_singleton]
          simp only [if_true]
          omega
        · -- the new chunk was read behind the beginning of the turn
          simp only [current, List.length_append, List.length_singleton]
          omega
  | eof hstage =>
      exact hr.same ⟨rfl, rfl, rfl, rfl, rfl, rfl⟩ fun hb => nomatch hb
  | @stored chunk hstage =>
      exact hr.same ⟨rfl, rfl, rfl, rfl, rfl, rfl⟩ fun _ => by rw [hstage]; rfl
  | @tapped chunk hstage =>
      apply hr.same
      · simp only [Turns.captured]
        split <;> exact ⟨rfl, rfl, rfl, rfl, rfl, rfl⟩
      · exact fun _ => by rw [hstage]; rfl
  | @sent frame hstage =>
      have hbusy : s.session.thread.stage.busy = true := by
        rw [hstage]
        rfl
      by_cases hroom : s.session.vadRx.length < vadChannelBound
      · have hsettled : s.settled = s.current := by
          rw [settled, if_pos hbusy, current]
        have hlast : s.current + 1 = s.history.chunks.length :=
          Nat.succ_pred_eq_of_pos (List.length_pos_of_ne_nil (hc.busy hbusy))
        have hbefore : ∀ k ∈ s.history.frames.map Prod.fst ++ s.history.sources, k < s.current :=
          fun k hk => hsettled ▸ hr.past k hk
        simp only [Turns.captured, if_pos hroom]
        refine ⟨hr.begun, ?_, fun k hk => ?_, fun hb => (nomatch hb), fun hphase k hk => ?_,
          hr.read⟩
        · rw [← List.append_assoc, List.pairwise_append]
          refine ⟨hr.inOrder, List.pairwise_singleton _ _, fun k hk k' hk' => ?_⟩
          rw [List.mem_singleton.1 hk']
          exact hbefore k hk
        · change k < s.history.chunks.length
          rw [← List.append_assoc, List.mem_append] at hk
          rcases hk with hk | hk
          · have hlt := hbefore k hk
            omega
          · rw [List.mem_singleton.1 hk]
            omega
        · rcases List.mem_append.1 hk with hk | hk
          · exact hr.ownQueue hphase k hk
          · rw [List.mem_singleton.1 hk]
            exact hr.ownNow hbusy
      · simp only [Turns.captured, if_neg hroom]
        exact hr.same ⟨rfl, rfl, rfl, rfl, rfl, rfl⟩ fun _ => hbusy

/-! ## Steps of a turn -/

/-- A step of the job's thread leaves the capture thread alone. -/
theorem Captured.same (hc : Captured F rate channels s) {t : Turns P}
    (hthread : t.session.thread = s.session.thread)
    (hchunks : t.history.chunks = s.history.chunks) (hfed : t.history.fed = s.history.fed)
    (hqueued : t.history.sources.length = t.session.vadRx.length) : Captured F rate channels t := by
  have htapped : t.tapped = s.tapped := by rw [tapped, tapped, hthread, hchunks]
  have hcurrent : t.current = s.current := by rw [current, current, hchunks]
  refine ⟨hthread ▸ hc.srcRate, hthread ▸ hc.srcChannels, ?_, ?_, ?_, ?_, hqueued⟩
  · rw [hthread, hchunks]
    exact hc.busy
  · rw [hthread, hchunks]
    exact hc.chunk
  · rw [hthread, hchunks, hcurrent, hfed]
    exact hc.frame
  · rw [Feeds, hthread, hchunks, hfed, htapped]
    exact hc.feeds

/-- The front of the channel, and where it is from. -/
theorem queued_of_vadRecv {session : DuplexSession P} (hc : Captured F rate channels s)
    (h : s.session.jobStep .vadRecv = some session) :
    session.thread = s.session.thread ∧ session.vadActive = s.session.vadActive ∧
      ∃ k sources frame, s.history.sources = k :: sources ∧
        s.session.vadRx = frame :: session.vadRx ∧ sources.length = session.vadRx.length := by
  have hqueued := hc.queued
  simp only [DuplexSession.jobStep] at h
  cases hrx : s.session.vadRx with
  | nil =>
      rw [hrx] at h
      exact nomatch h
  | cons frame rest =>
      rw [hrx] at h hqueued
      obtain rfl := Option.some.inj h
      obtain ⟨k, sources, hsources⟩ := List.exists_cons_of_length_eq_add_one hqueued
      rw [hsources] at hqueued
      exact ⟨rfl, rfl, k, sources, frame, hsources, rfl, Nat.succ.inj hqueued⟩

/-- **A step keeps what is known.** -/
theorem inv_step {a : TurnsLabel} (hc : Captured F rate channels s) (hr : Received s)
    (h : s.step F a = some t) : Captured F rate channels t ∧ Received t := by
  cases a with
  | capture a =>
      obtain ⟨session, hsession, rfl⟩ := Option.map_eq_some_iff.1 h
      exact ⟨captured_capture hc hsession, received_capture hc hr hsession⟩
  | begin =>
      obtain ⟨-, h⟩ := Option.ite_none_right_eq_some.1 h
      obtain rfl := Option.some.inj h
      refine ⟨hc.same rfl rfl rfl hc.queued, Nat.le_refl _, ?_, fun k hk => ?_, fun hb => ?_,
        fun hphase => absurd rfl hphase, rfl⟩
      · exact (List.pairwise_append.1 hr.inOrder).2.1
      · exact hr.past k (List.mem_append_right _ hk)
      · -- what is being processed now is what was being processed as the turn began
        exact .inr (if_pos hb)
  | drain =>
      obtain ⟨hphase, h⟩ := Option.ite_none_right_eq_some.1 h
      obtain ⟨session, hsession, rfl⟩ := Option.map_eq_some_iff.1 h
      obtain ⟨hthread, -, k, sources, frame, hsources, -, hlength⟩ := queued_of_vadRecv hc hsession
      have htail : s.history.sources.tail = sources := by rw [hsources]; rfl
      have hsublist := (List.tail_sublist s.history.sources).append_left
        (s.history.frames.map Prod.fst)
      refine ⟨hc.same hthread rfl rfl (htail ▸ hlength), hr.begun, hr.inOrder.sublist hsublist,
        fun k hk => ?_, fun hb => ?_, fun hno => absurd hphase hno, hr.read⟩
      · rw [settled, hthread]
        exact hr.past k (hsublist.subset hk)
      · exact hr.ownNow (hthread ▸ hb)
  | drained =>
      obtain ⟨⟨-, hempty⟩, h⟩ := Option.ite_none_right_eq_some.1 h
      obtain rfl := Option.some.inj h
      have hnone : s.history.sources = [] := by
        have hqueued := hc.queued
        rw [hempty] at hqueued
        exact List.length_eq_zero_iff.1 hqueued
      refine ⟨hc.same rfl rfl rfl hc.queued, hr.begun, hr.inOrder, hr.past, hr.ownNow, ?_, hr.read⟩
      intro _ k hk
      exact absurd (hnone ▸ hk) List.not_mem_nil
  | armed =>
      obtain ⟨hphase, h⟩ := Option.ite_none_right_eq_some.1 h
      obtain rfl := Option.some.inj h
      refine ⟨hc.same rfl rfl rfl hc.queued, hr.begun, hr.inOrder, hr.past, hr.ownNow, ?_, hr.read⟩
      exact fun _ => hr.ownQueue (by rw [hphase]; simp)
  | recv =>
      obtain ⟨⟨hphase, hleft⟩, h⟩ := Option.ite_none_right_eq_some.1 h
      obtain ⟨session, hsession, rfl⟩ := Option.map_eq_some_iff.1 h
      obtain ⟨hthread, -, k, sources, frame, hsources, hrx, hlength⟩ :=
        queued_of_vadRecv hc hsession
      have hown := hr.ownQueue (by rw [hphase]; simp)
      have horder := hr.inOrder
      have hpast := hr.past
      rw [hsources] at hown horder hpast
      -- the frame goes from the front of the channel to the end of those received
      have hmove : (s.history.frames ++ [(k, frame)]).map Prod.fst ++ sources =
          s.history.frames.map Prod.fst ++ k :: sources := by simp
      simp only [received, hsources, hrx, List.headD_cons, List.tail_cons]
      refine ⟨hc.same hthread rfl rfl hlength, hr.begun, ?_, fun j hj => ?_, fun hb => ?_,
        fun _ j hj => hown j (List.mem_cons_of_mem _ hj), ?_⟩
      · simp only [hmove]
        exact horder
      · simp only [hmove] at hj
        rw [settled, hthread]
        exact hpast j hj
      · exact hr.ownNow (hthread ▸ hb)
      · have hread := hr.read
        rw [hleft, List.append_nil] at hread
        simp [hread]
  | take n =>
      obtain ⟨-, h⟩ := Option.ite_none_right_eq_some.1 h
      obtain rfl := Option.some.inj h
      refine ⟨hc.same rfl rfl rfl hc.queued, hr.begun, hr.inOrder, hr.past, hr.ownNow,
        hr.ownQueue, ?_⟩
      rw [List.append_assoc, List.take_append_drop]
      exact hr.read
  | finish =>
      obtain ⟨hphase, h⟩ := Option.ite_none_right_eq_some.1 h
      obtain rfl := Option.some.inj h
      refine ⟨hc.same rfl rfl rfl hc.queued, hr.begun, hr.inOrder, hr.past, hr.ownNow, ?_, hr.read⟩
      exact fun _ => hr.ownQueue (by rw [hphase]; simp)

/-! ## Where turns are armed apart -/

/-- A step of the capture thread that hands nothing on to the turn. -/
theorem Apart.grow (ha : Apart F rate channels s) {t : Turns P} (more : List (List Int16))
    (hphase : t.phase = s.phase) (hactive : t.session.vadActive = s.session.vadActive)
    (hrx : t.session.vadRx = s.session.vadRx)
    (hhistory : t.history = { s.history with chunks := s.history.chunks ++ more })
    (hwas : t.session.thread.wasActive = true → s.session.thread.wasActive = true)
    (hstage : ∀ frame, t.session.thread.stage ≠ .tapped frame) : Apart F rate channels t := by
  have hown : t.Own = s.Own := by
    funext k
    rw [Own, Own, hhistory]
  refine ⟨fun h => ?_, fun h => ?_, fun h => ?_, fun _ frame hframe => absurd hframe (hstage frame),
    fun h hrate hon => ?_, fun f hf => ?_⟩
  · rw [hactive]
    exact ha.unarmed (hphase ▸ h)
  · rw [hrx, hhistory]
    exact (ha.drained (hphase ▸ h)).imp fun _ _ hmade => hmade.append more
  · rw [hrx, hown, hhistory]
    exact (ha.queue (hphase ▸ h)).imp fun _ _ hmade => hmade.append more
  · rw [hown, hhistory]
    exact ha.fed (hphase ▸ h) hrate (hwas hon)
  · rw [hhistory] at hf
    rw [hown, hhistory]
    exact (ha.frames f hf).append more

/-- **Between two turns** nothing is fed to the resampler; in one, nothing but the turn's. -/
theorem apart_capture {a : CaptureLabel} {session : DuplexSession P}
    (hc : Captured F rate channels s) (hr : Received s) (ha : Apart F rate channels s)
    (h : s.session.captureStep F a = some session) :
    Apart F rate channels { s with session, history := s.captured a session } := by
  have hframe := (captured_capture hc h).frame
  have hall : ({ s.history with chunks := s.history.chunks ++ [] } : TurnHistory) = s.history := by
    rw [List.append_nil]
  cases DuplexSession.captureStep_eq_some h with
  | @captured buf hstage hbuf =>
      obtain ⟨-, -, -, hwas, hcase⟩ := read_cases s.session.thread buf
      rcases hcase with hsame | ⟨chunk, hwrote⟩
      · refine ha.grow [] rfl rfl rfl ?_ (fun hon => hwas.symm.trans hon) ?_
        · simp only [Turns.captured, hsame, hstage, hall]
        · simp [hsame, hstage]
      · refine ha.grow [chunk] rfl rfl rfl ?_ (fun hon => hwas.symm.trans hon) ?_
        · simp only [Turns.captured, hwrote]
        · simp [hwrote]
  | eof hstage => exact ha.grow [] rfl rfl rfl hall.symm id (by simp)
  | @stored chunk hstage => exact ha.grow [] rfl rfl rfl hall.symm id (by simp)
  | @tapped chunk hstage =>
      cases hactive : s.session.vadActive with
      | false =>
          refine ha.grow [] rfl hactive.symm rfl ?_ (by simp [CaptureThread.tap])
            (by simp [CaptureThread.tap])
          simp [Turns.captured, hactive]
      | true =>
          have hlistening : s.phase = .listening := by
            by_contra hphase
            exact absurd (ha.unarmed hphase) (by simp [hactive])
          have hnow : s.Own s.current := hr.ownNow (by rw [hstage]; rfl)
          have hhistory : ∀ session, s.captured .tapped session =
              { s.history with fed := s.fedBefore ++ [s.current] } := by
            intro session
            simp [Turns.captured, hactive, fedBefore]
          have hfed : rate ≠ targetRate → ∀ j ∈ s.fedBefore ++ [s.current], s.Own j := by
            intro hrate j hj
            rcases List.mem_append.1 hj with hj | hj
            · rw [fedBefore] at hj
              split at hj
              · rename_i hwas
                exact ha.fed hlistening hrate hwas j hj
              · exact absurd hj List.not_mem_nil
            · exact List.mem_singleton.1 hj ▸ hnow
          rw [hactive] at hframe
          rw [hhistory] at hframe ⊢
          refine ⟨fun hphase => absurd hlistening hphase, fun hphase => ?_,
            fun _ => ha.queue hlistening, fun _ frame hstage' => ?_, fun _ hrate _ => hfed hrate,
            ha.frames⟩
          · exact absurd (hlistening.symm.trans hphase) (by simp)
          · by_cases hrate : rate = targetRate
            · exact (hframe frame hstage').2.own_of_target hrate hnow
            · exact (hframe frame hstage').2.mono (hfed hrate)
  | @sent frame hstage =>
      obtain ⟨-, hmade⟩ := hc.frame frame hstage
      by_cases hroom : s.session.vadRx.length < vadChannelBound
      · simp only [Turns.captured, if_pos hroom]
        refine ⟨ha.unarmed, fun hphase => ?_, fun hphase => ?_, fun _ _ hno => (nomatch hno),
          ha.fed, ha.frames⟩
        · exact List.rel_append (ha.drained hphase) (.cons hmade .nil)
        · exact List.rel_append (ha.queue hphase) (.cons (ha.frame hphase frame hstage) .nil)
      · simp only [Turns.captured, if_neg hroom]
        exact ⟨ha.unarmed, ha.drained, ha.queue, fun _ _ hno => (nomatch hno), ha.fed, ha.frames⟩

/-- **A clean step keeps turns apart.** -/
theorem apart_step {a : TurnsLabel} (hc : Captured F rate channels s) (hr : Received s)
    (ha : Apart F rate channels s) (hclean : s.Clean rate a) (h : s.step F a = some t) :
    Apart F rate channels t := by
  cases a with
  | capture a =>
      obtain ⟨session, hsession, rfl⟩ := Option.map_eq_some_iff.1 h
      exact apart_capture hc hr ha hsession
  | begin =>
      obtain ⟨hphase, h⟩ := Option.ite_none_right_eq_some.1 h
      obtain rfl := Option.some.inj h
      refine ⟨fun _ => ha.unarmed (by simp [hphase]), fun hno => (nomatch hno),
        fun hno => (nomatch hno), fun hno => (nomatch hno), fun hno => (nomatch hno),
        fun f hf => ?_⟩
      exact absurd hf List.not_mem_nil
  | drain =>
      obtain ⟨hphase, h⟩ := Option.ite_none_right_eq_some.1 h
      obtain ⟨session, hsession, rfl⟩ := Option.map_eq_some_iff.1 h
      obtain ⟨-, hactive, -⟩ := queued_of_vadRecv hc hsession
      refine ⟨fun hno => hactive.trans (ha.unarmed hno), fun hno => ?_, fun hno => ?_,
        fun hno => ?_, fun hno => ?_, ha.frames⟩ <;> exact absurd (hphase.symm.trans hno) (by simp)
  | drained =>
      obtain ⟨⟨hphase, hempty⟩, h⟩ := Option.ite_none_right_eq_some.1 h
      obtain rfl := Option.some.inj h
      refine ⟨fun _ => ha.unarmed (by simp [hphase]), fun _ => ?_, fun hno => (nomatch hno),
        fun hno => (nomatch hno), fun hno => (nomatch hno), ha.frames⟩
      have hqueued := hc.queued
      rw [hempty] at hqueued
      rw [hempty, List.length_eq_zero_iff.1 hqueued]
      exact .nil
  | armed =>
      obtain ⟨hphase, h⟩ := Option.ite_none_right_eq_some.1 h
      obtain rfl := Option.some.inj h
      have hdrained := ha.drained hphase
      have hown := hr.ownQueue (by simp [hphase])
      have hnow : ∀ frame, s.session.thread.stage = .tapped frame → s.Own s.current :=
        fun frame hstage => hr.ownNow (by rw [hstage]; rfl)
      refine ⟨fun hno => absurd rfl hno, fun hno => (nomatch hno), fun _ => ?_,
        fun _ frame hstage => ?_, fun _ hrate hwas => ?_, ha.frames⟩
      · rcases hclean with hrate | ⟨-, hempty⟩ | hfed
        · refine List.forall₂_iff_get.2 ⟨hc.queued, fun i hi hi' => ?_⟩
          exact ((List.forall₂_iff_get.1 hdrained).2 i hi hi').own_of_target hrate
            (hown _ (List.get_mem _ _))
        · change s.session.vadRx = [] at hempty
          have hqueued := hc.queued
          rw [hempty] at hqueued
          change List.Forall₂ _ s.history.sources s.session.vadRx
          rw [hempty, List.length_eq_zero_iff.1 hqueued]
          exact .nil
        · exact hdrained.imp fun _ _ hmade => hmade.mono fun j hj => .inr (hfed j hj)
      · obtain ⟨hwas, hmade⟩ := hc.frame frame hstage
        rcases hclean with hrate | ⟨hdown, -⟩ | hfed
        · exact hmade.own_of_target hrate (hnow frame hstage)
        · exact absurd (hdown.symm.trans hwas) (by simp)
        · exact hmade.mono fun j hj => .inr (hfed j hj)
      · rcases hclean with htarget | ⟨hdown, -⟩ | hfed
        · exact absurd htarget hrate
        · exact absurd (hdown.symm.trans hwas) (by simp)
        · exact fun j hj => .inr (hfed j hj)
  | recv =>
      obtain ⟨⟨hphase, -⟩, h⟩ := Option.ite_none_right_eq_some.1 h
      obtain ⟨session, hsession, rfl⟩ := Option.map_eq_some_iff.1 h
      obtain ⟨hthread, -, k, sources, frame, hsources, hrx, -⟩ :=
        queued_of_vadRecv hc hsession
      have hqueue := ha.queue hphase
      rw [hsources, hrx, List.forall₂_cons] at hqueue
      obtain ⟨hmade, hrest⟩ := hqueue
      simp only [received, hsources, hrx, List.headD_cons, List.tail_cons]
      refine ⟨fun hno => absurd hphase hno, fun hno => ?_, fun _ => hrest,
        fun _ frame' hstage => ?_, fun _ hrate hwas => ha.fed hphase hrate (hthread ▸ hwas),
        fun f hf => ?_⟩
      · exact absurd (hphase.symm.trans hno) (by simp)
      · exact ha.frame hphase frame' (hthread ▸ hstage)
      · rcases List.mem_append.1 hf with hf | hf
        · exact ha.frames f hf
        · rw [List.mem_singleton.1 hf]
          exact hmade
  | take n =>
      obtain ⟨-, h⟩ := Option.ite_none_right_eq_some.1 h
      obtain rfl := Option.some.inj h
      exact ⟨ha.unarmed, ha.drained, ha.queue, ha.frame, ha.fed, ha.frames⟩
  | finish =>
      obtain ⟨-, h⟩ := Option.ite_none_right_eq_some.1 h
      obtain rfl := Option.some.inj h
      exact ⟨fun _ => rfl, fun hno => (nomatch hno), fun hno => (nomatch hno),
        fun hno => (nomatch hno), fun hno => (nomatch hno), ha.frames⟩

/-! ## Runs -/

/-- All that is known of the states of a clean run. -/
structure Inv (F : Floats P) (rate channels : Nat) (s : Turns P) : Prop where
  captured : Captured F rate channels s
  received : Received s
  apart : Apart F rate channels s

theorem Inv.step {a : TurnsLabel} (hs : Inv F rate channels s) (hclean : s.Clean rate a)
    (h : s.step F a = some t) : Inv F rate channels t := by
  obtain ⟨hc, hr⟩ := inv_step hs.captured hs.received h
  exact ⟨hc, hr, apart_step hs.captured hs.received hs.apart hclean h⟩

theorem inv_start (rate channels : Nat) (mix mixTxLeft : Bool) :
    Inv F rate (max channels 1) (start F rate channels mix mixTxLeft) := by
  refine ⟨⟨rfl, rfl, fun hb => (nomatch hb), fun _ hc => (nomatch hc), fun _ hf => (nomatch hf), ?_,
    rfl⟩, ⟨Nat.le_refl _, .nil, fun k hk => absurd hk List.not_mem_nil, fun hb => (nomatch hb),
    fun _ k hk => absurd hk List.not_mem_nil, rfl⟩, ⟨fun _ => rfl, fun hno => (nomatch hno),
    fun hno => (nomatch hno), fun hno => (nomatch hno), fun hno => (nomatch hno),
    fun f hf => absurd hf List.not_mem_nil⟩⟩
  exact ⟨0, rfl, fun _ hactive => (nomatch hactive)⟩

/-- **A turn hears only its own audio**, whatever the order of the steps of both threads, where it
is armed apart from the turn before it. -/
theorem hearsOwn_along_of_clean (F : Floats P) (rate channels : Nat) (mix mixTxLeft : Bool)
    (as : List TurnsLabel)
    (hclean : (machine F rate channels mix mixTxLeft).Meets (Clean rate)
      (start F rate channels mix mixTxLeft) as) :
    (machine F rate channels mix mixTxLeft).Along (HearsOwn F rate (max channels 1))
      (start F rate channels mix mixTxLeft) as := by
  refine Machine.along_of_meets (I := Inv F rate (max channels 1)) (fun s a t hs hok h => ?_)
    (fun s hs => ?_) (inv_start rate channels mix mixTxLeft) hclean
  · exact hs.step hok h
  · exact hearsOwn_of_inv hs.captured hs.received hs.apart

/-- Two turns with no look at the flag between them: the second starts on a sample of the first. -/
theorem exists_not_ownAudio :
    ∃ s, (machine exactFloats 8000 1 false true).run (start exactFloats 8000 1 false true)
        [.begin, .drained, .armed, .capture (.captured [1000]), .capture .stored, .capture .tapped,
          .finish, .begin, .drained, .armed, .capture (.captured [10, 10]), .capture .stored,
          .capture .tapped, .capture .sent, .recv] = some s ∧
      s.history.begun = 1 ∧ s.history.processing = none ∧
        s.history.frames = [(1, [1000, 505, 10, 10])] ∧ ¬ HearsOwn exactFloats 8000 1 s := by
  obtain ⟨s, hrun, hhistory⟩ : ∃ s,
      (machine exactFloats 8000 1 false true).run (start exactFloats 8000 1 false true)
        [.begin, .drained, .armed, .capture (.captured [1000]), .capture .stored, .capture .tapped,
          .finish, .begin, .drained, .armed, .capture (.captured [10, 10]), .capture .stored,
          .capture .tapped, .capture .sent, .recv] = some s ∧
      s.history =
        ⟨[[1000], [10, 10]], [0, 1], [], 1, none, [(1, [1000, 505, 10, 10])], []⟩ :=
    Option.map_eq_some_iff.1 (by decide +kernel)
  refine ⟨s, hrun, by rw [hhistory], by rw [hhistory], by rw [hhistory], fun h => ?_⟩
  obtain ⟨a, rs, out, rs', chunk, ha, hown, hchunk, hfeed, hframe⟩ :=
    h.own (1, [1000, 505, 10, 10]) (by simp [hhistory])
  -- none but the second chunk is the turn's, and a new resampler makes something else of it
  have hbegun : 1 ≤ a := by simpa [Own, hhistory] using hown a (Nat.le_refl a) ha
  obtain rfl : a = 1 := Nat.le_antisymm ha hbegun
  rw [hhistory] at hchunk hfeed
  obtain rfl := Option.some.inj hchunk
  obtain ⟨rfl, -⟩ := Prod.mk.inj (Option.some.inj hfeed)
  have hnew : ((Resampler.new16k exactFloats 8000).process exactFloats (stepBy 1 [10, 10])).map
      Prod.snd = some [10, 10] := by decide +kernel
  rw [hframe] at hnew
  have hsame : ([1000, 505, 10, 10] : List Int16) = [10, 10] := Option.some.inj hnew
  exact absurd hsame (by decide)

/-- Two turns, and a chunk between them that finds the flag down. -/
theorem hearsOwn_along_of_clean_between :
    (∃ s, (machine exactFloats 8000 1 false true).run (start exactFloats 8000 1 false true)
        [.begin, .drained, .armed, .capture (.captured [1000]), .capture .stored, .capture .tapped,
          .finish, .capture (.captured [500]), .capture .stored, .capture .tapped, .begin, .drained,
          .armed, .capture (.captured [10, 10]), .capture .stored, .capture .tapped,
          .capture .sent, .recv, .take 2] = some s ∧ s.history.heard = [(2, 10), (2, 10)]) ∧
    (machine exactFloats 8000 1 false true).Along (HearsOwn exactFloats 8000 1)
      (start exactFloats 8000 1 false true)
      [.begin, .drained, .armed, .capture (.captured [1000]), .capture .stored, .capture .tapped,
        .finish, .capture (.captured [500]), .capture .stored, .capture .tapped, .begin, .drained,
        .armed, .capture (.captured [10, 10]), .capture .stored, .capture .tapped,
        .capture .sent, .recv, .take 2] := by
  refine ⟨Option.map_eq_some_iff.1 (by decide +kernel), ?_⟩
  exact hearsOwn_along_of_clean exactFloats 8000 1 false true _ (by decide +kernel)

end Turns

end DialF.Audio
