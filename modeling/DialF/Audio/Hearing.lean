import Mathlib.Tactic.FieldSimp
import DialF.Audio.Record
import DialF.Audio.Turn

/-!
# Listening with and without a recording

Turn taking hears the card in two ways: `Direct` reads it, reduces it to channel 0 and resamples it
in the wait; `Listening` takes the frames that the capture thread of a recording has reduced and
resampled already. Both begin with the same stream, and both leave open how it is cut into reads.

Either way, what a wait has been given is a prefix of what the resampler makes of channel 0 of the
stream (`Hears`). `hears_alike` compares any two waits on one stream: their hops agree as far as
they go, so do their verdicts, and where the resampler returns each wait comes to its verdict.
-/

set_option autoImplicit false

namespace DialF.Audio

open DialF.Lib
open DialF.Jobs (EndReason)

variable {H P : Type}

/-! ## The card -/

/-- The length of the buffer that a wait reads into. -/
def readLen : Nat := 4096

/-- A read of `DownmixMono`, where the source returns `buf`. -/
def downmixMono (channels outLen : Nat) (buf : List Int16) : List Int16 :=
  if channels = 1 then buf
  else (List.range (min (buf.length / channels) outLen)).map fun f => buf.getD (f * channels) 0

/-- A wait on the card, with the stream that is still to come. -/
structure Direct (H P : Type) where
  rest : List Int16
  wait : Wait H P
  deriving DecidableEq

/-- What happens to a wait that reads the card itself. -/
inductive DirectLabel where
  | read (frames : Nat)
  | eof
  | cancelled
  deriving DecidableEq

namespace Direct

/-- The wait before its first read of the stream. -/
def start (F : Floats P) (seg : Segmenter H) (rate : Nat) (stream : List Int16) : Direct H P where
  rest := stream
  wait := .new F seg rate

/-- One step: a read goes through the segmenter hop by hop. -/
def step (N : NativeVad H) (F : Floats P) (ch : Nat) (d : Direct H P) :
    DirectLabel → Option (Direct H P)
  | .read frames =>
      if d.wait.verdict = none ∧ 0 < frames ∧ frames ≤ readLen ∧ frames * ch ≤ d.rest.length then
        (d.wait.feed N F (downmixMono ch readLen (d.rest.take (frames * ch)))).map fun wait =>
          { rest := d.rest.drop (frames * ch), wait }
      else none
  | .eof =>
      if d.wait.verdict = none ∧ d.rest = [] then some { d with wait := d.wait.eof N } else none
  | .cancelled =>
      if d.wait.verdict = none then
        some { d with wait := { d.wait with verdict := some .cancelled } }
      else none

end Direct

/-- `wait_for_speech` without a recording. -/
def directPath (N : NativeVad H) (F : Floats P) (seg : Segmenter H) (rate channels : Nat)
    (stream : List Int16) : Machine (Direct H P) DirectLabel where
  Init d := d = .start F seg rate stream
  step d a := d.step N F (max channels 1) a

/-! ## The frames of a recording -/

/-- What a read of `VadFrameSource` returns, with what is left over and the frames to come. -/
inductive SourceRead where
  | data (buf leftover : List Int16) (frames : List (List Int16))
  | endOfStream
  | wouldBlock
  deriving DecidableEq

/-- A read: what is left over first, then the next frame. -/
def vadFrameRead (disconnected : Bool) : List (List Int16) → List Int16 → SourceRead
  | [], leftover =>
      if leftover = [] then if disconnected then .endOfStream else .wouldBlock
      else .data (leftover.take readLen) (leftover.drop readLen) []
  | frame :: frames, leftover =>
      if leftover = [] then vadFrameRead disconnected frames frame
      else .data (leftover.take readLen) (leftover.drop readLen) (frame :: frames)

/-- A wait on a recording, with the stream that is still to come. -/
structure Listening (H P : Type) where
  session : DuplexSession P
  rest : List Int16
  leftover : List Int16
  wait : Wait H P
  deriving DecidableEq

/-- What happens to a wait that listens through a session. -/
inductive ListeningLabel where
  | read (frames : Nat)
  | eof
  | stored
  | tapped
  | sent
  | poll
  | stalled
  | cancelled
  deriving DecidableEq

namespace Listening

/-- Armed before the first read; the frames are at the voice detector's rate. -/
def start (F : Floats P) (seg : Segmenter H) (rate channels : Nat) (stream : List Int16) :
    Listening H P where
  session := { DuplexSession.start F rate channels false true with vadActive := true }
  rest := stream
  leftover := []
  wait := .new F seg targetRate

/-- What `VadFrameSource::read` returns to the wait in this state. -/
def source (s : Listening H P) : SourceRead :=
  vadFrameRead (s.session.thread.stage = .ended) s.session.vadRx s.leftover

/-- One step of the capture thread or of the wait. -/
def step (N : NativeVad H) (F : Floats P) (s : Listening H P) :
    ListeningLabel → Option (Listening H P)
  | .read frames =>
      let n := frames * s.session.thread.srcChannels
      if 0 < frames ∧ n ≤ s.rest.length then
        (s.session.captureStep F (.captured (s.rest.take n))).map fun session =>
          { s with session, rest := s.rest.drop n }
      else none
  | .eof =>
      if s.rest = [] then (s.session.captureStep F .eof).map fun session => { s with session }
      else none
  | .stored => (s.session.captureStep F .stored).map fun session => { s with session }
  | .tapped => (s.session.captureStep F .tapped).map fun session => { s with session }
  | .sent => (s.session.captureStep F .sent).map fun session => { s with session }
  | .poll =>
      if s.wait.verdict = none then
        match s.source with
        | .data buf leftover vadRx =>
            (s.wait.feed N F buf).map fun wait =>
              { s with session := { s.session with vadRx }, leftover, wait }
        | .endOfStream => some { s with wait := s.wait.eof N }
        | .wouldBlock => none
      else none
  | .stalled =>
      if s.wait.verdict = none ∧ s.source = .wouldBlock then
        some { s with wait := { s.wait with verdict := some .stalled } }
      else none
  | .cancelled =>
      if s.wait.verdict = none then
        some { s with wait := { s.wait with verdict := some .cancelled } }
      else none

/-- The step loses no frame. -/
def NoDrop (s : Listening H P) (a : ListeningLabel) : Prop :=
  a = .sent → s.session.vadRx.length < vadChannelBound

instance (s : Listening H P) (a : ListeningLabel) : Decidable (s.NoDrop a) :=
  inferInstanceAs (Decidable (a = .sent → s.session.vadRx.length < vadChannelBound))

end Listening

/-- `wait_for_speech` with a recording. -/
def sessionPath (N : NativeVad H) (F : Floats P) (seg : Segmenter H) (rate channels : Nat)
    (stream : List Int16) : Machine (Listening H P) ListeningLabel where
  Init s := s = .start F seg rate channels stream
  step s a := s.step N F a

/-! ## What a wait is given -/

section Hears

variable {N : NativeVad H} {F : Floats P} {seg : Segmenter H} {rate ch : Nat}
variable {stream : List Int16} {w w₁ w₂ : Wait H P}

/-- What the resampler of the voice detector makes of channel 0 of a stream, where it returns. -/
def reduced (F : Floats P) (rate ch : Nat) (stream : List Int16) :
    Option (Resampler P × List Int16) :=
  (Resampler.new16k F rate).process F (stepBy ch stream)

/-- A wait on a stream: what it has been given is a prefix of what some whole frames of the stream
are reduced to, and it is over only with all of the stream. -/
structure Hears (N : NativeVad H) (F : Floats P) (seg : Segmenter H) (rate ch : Nat)
    (stream given : List Int16) (w : Wait H P) : Prop where
  whole : ∃ done more frames rs later, stream = done ++ more ∧ done.length = frames * ch ∧
    reduced F rate ch done = some (rs, given ++ later)
  tracks : Tracks N seg given (∃ rs, reduced F rate ch stream = some (rs, given)) w

theorem reduced_append (hch : 0 < ch) {done : List Int16} {frames : Nat}
    (hdone : done.length = frames * ch) (more : List Int16) :
    reduced F rate ch (done ++ more) =
      (reduced F rate ch done).bind fun r => behind r.2 (r.1.process F (stepBy ch more)) := by
  rw [reduced, stepBy_append hch hdone]
  exact (seamless_process F).append _ _ (Resampler.wf_new16k F rate)

/-- More of the stream adds to what it is reduced to. -/
theorem prefix_of_reduced (hch : 0 < ch) {done more out out' : List Int16} {frames : Nat}
    {rs rs' : Resampler P} (hdone : done.length = frames * ch)
    (h : reduced F rate ch done = some (rs, out))
    (h' : reduced F rate ch (done ++ more) = some (rs', out')) : out <+: out' := by
  rw [reduced_append hch hdone, h] at h'
  obtain ⟨r, -, hr⟩ := Option.map_eq_some_iff.1 h'
  obtain ⟨-, rfl⟩ := Prod.mk.inj hr
  exact List.prefix_append _ _

variable {given₁ given₂ : List Int16}

/-- Of two waits on a stream, one has been given a prefix of what the other has. -/
theorem given_prefix (hch : 0 < ch) (h₁ : Hears N F seg rate ch stream given₁ w₁)
    (h₂ : Hears N F seg rate ch stream given₂ w₂) : given₁ <+: given₂ ∨ given₂ <+: given₁ := by
  obtain ⟨done₁, more₁, frames₁, rs₁, later₁, hsplit₁, hdone₁, hred₁⟩ := h₁.whole
  obtain ⟨done₂, more₂, frames₂, rs₂, later₂, hsplit₂, hdone₂, hred₂⟩ := h₂.whole
  have hdone : done₁ <+: done₂ ∨ done₂ <+: done₁ :=
    List.prefix_or_prefix_of_prefix (hsplit₁ ▸ List.prefix_append _ _)
      (hsplit₂ ▸ List.prefix_append _ _)
  rcases hdone with ⟨more, rfl⟩ | ⟨more, rfl⟩
  · have hout := prefix_of_reduced hch hdone₁ hred₁ hred₂
    exact List.prefix_or_prefix_of_prefix ((List.prefix_append _ _).trans hout)
      (List.prefix_append _ _)
  · have hout := prefix_of_reduced hch hdone₂ hred₂ hred₁
    exact List.prefix_or_prefix_of_prefix (List.prefix_append _ _)
      ((List.prefix_append _ _).trans hout)

/-- No wait is given more than all of the stream. -/
theorem prefix_of_over (hch : 0 < ch) {rs : Resampler P} {out : List Int16}
    (hover : reduced F rate ch stream = some (rs, out))
    (h : Hears N F seg rate ch stream given₁ w) : given₁ <+: out := by
  obtain ⟨done, more, frames, rs', later, rfl, hdone, hred⟩ := h.whole
  exact (List.prefix_append _ _).trans (prefix_of_reduced hch hdone hred hover)

theorem verdict_of_isPrefix (hch : 0 < ch) (h₁ : Hears N F seg rate ch stream given₁ w₁)
    (h₂ : Hears N F seg rate ch stream given₂ w₂) (hgiven : given₁ <+: given₂) {v₁ v₂ : Verdict}
    (hv₁ : w₁.verdict = some v₁) (hv₂ : w₂.verdict = some v₂) (hear₁ : v₁.ByEar)
    (hear₂ : v₂.ByEar) : v₁ = v₂ := by
  have hjudged := h₁.tracks.judged
  rw [hv₁] at hjudged
  cases hjudged with
  | turn hturn => exact Tracks.turn_of_prefix hturn h₂.tracks hgiven hv₂ hear₂
  | exhausted hover hnone =>
      -- all of the stream has been heard, and so has the other wait
      obtain ⟨rs, hover⟩ := hover
      obtain rfl : given₁ = given₂ :=
        hgiven.eq_of_length_le (prefix_of_over hch hover h₂).length_le
      have hjudged₂ := h₂.tracks.judged
      rw [hv₂] at hjudged₂
      cases hjudged₂ with
      | turn hturn => exact absurd (hnone.symm.trans hturn) (by simp)
      | exhausted => rfl
      | cancelled => exact hear₂.elim
      | stalled => exact hear₂.elim
  | cancelled => exact hear₁.elim
  | stalled => exact hear₁.elim

/-- **Any two waits on a stream agree.** -/
theorem Hears.agree (hch : 0 < ch) (h₁ : Hears N F seg rate ch stream given₁ w₁)
    (h₂ : Hears N F seg rate ch stream given₂ w₂) :
    (w₁.heard <+: w₂.heard ∨ w₂.heard <+: w₁.heard) ∧
      ∀ v₁ v₂, w₁.verdict = some v₁ → w₂.verdict = some v₂ → v₁.ByEar → v₂.ByEar → v₁ = v₂ := by
  rcases given_prefix hch h₁ h₂ with hgiven | hgiven
  · refine ⟨Or.inl (h₁.tracks.heard_prefix h₂.tracks hgiven), ?_⟩
    intro v₁ v₂ hv₁ hv₂ hear₁ hear₂
    exact verdict_of_isPrefix hch h₁ h₂ hgiven hv₁ hv₂ hear₁ hear₂
  · refine ⟨Or.inr (h₂.tracks.heard_prefix h₁.tracks hgiven), ?_⟩
    intro v₁ v₂ hv₁ hv₂ hear₁ hear₂
    exact (verdict_of_isPrefix hch h₂ h₁ hgiven hv₂ hv₁ hear₂ hear₁).symm

end Hears

/-! ## Without a recording -/

section DirectPath

variable {N : NativeVad H} {F : Floats P} {seg : Segmenter H} {rate ch channels : Nat}
variable {stream : List Int16} {d d' : Direct H P}

/-- A read of whole frames is reduced to their channel 0. -/
theorem downmixMono_eq (hch : 0 < ch) {buf : List Int16} {frames outLen : Nat}
    (hbuf : buf.length = frames * ch) (hlen : frames ≤ outLen) :
    downmixMono ch outLen buf = stepBy ch buf := by
  rw [downmixMono]
  split
  · rename_i h
    subst h
    apply List.ext_getElem?
    intro i
    rw [getElem?_stepBy hch, Nat.mul_one]
  · apply List.ext_getElem?
    intro i
    rw [getElem?_stepBy hch, hbuf, Nat.mul_div_cancel _ hch, Nat.min_eq_left hlen, List.getElem?_map]
    by_cases hi : i < frames
    · have hlt : i * ch < buf.length := by
        rw [hbuf]
        exact Nat.mul_lt_mul_of_pos_right hi hch
      rw [List.getElem?_range hi, Option.map_some, List.getD_eq_getElem?_getD,
        List.getElem?_eq_getElem hlt, Option.getD_some]
    · have hge : buf.length ≤ i * ch := by
        rw [hbuf]
        exact Nat.mul_le_mul_right ch (Nat.le_of_not_lt hi)
      rw [List.getElem?_eq_none hge, List.getElem?_eq_none (by simpa using hi), Option.map_none]

/-- A wait on the card has been given what the stream up to here is reduced to. -/
structure DirectInv (N : NativeVad H) (F : Floats P) (seg : Segmenter H) (rate ch : Nat)
    (stream done given : List Int16) (d : Direct H P) : Prop where
  split : stream = done ++ d.rest
  whole : ∃ frames, done.length = frames * ch
  reduced : reduced F rate ch done = some (d.wait.resampler, given)
  tracks : Tracks N seg given (∃ rs, Audio.reduced F rate ch stream = some (rs, given)) d.wait

theorem length_append_frames {xs ys : List Int16} {n k : Nat} (hxs : xs.length = n * ch)
    (hys : ys.length = k * ch) : (xs ++ ys).length = (n + k) * ch := by
  rw [List.length_append, hxs, hys, Nat.add_mul]

theorem directInv_start : DirectInv N F seg rate ch stream [] [] (.start F seg rate stream) where
  split := rfl
  whole := ⟨0, by simp⟩
  reduced := by
    have hnil := (seamless_process F).nil (Resampler.wf_new16k F rate)
    rw [Audio.reduced, stepBy]
    exact hnil
  tracks := tracks_new rate

theorem directInv_step {done given : List Int16} {a : DirectLabel} (hch : 0 < ch)
    (h : DirectInv N F seg rate ch stream done given d) (hstep : d.step N F ch a = some d') :
    ∃ done' given', DirectInv N F seg rate ch stream done' given' d' := by
  obtain ⟨hsplit, ⟨frames, hdone⟩, hreduced, htracks⟩ := h
  cases a with
  | read n =>
      obtain ⟨⟨hwaiting, hpos, hn, hrest⟩, hstep⟩ := Option.ite_none_right_eq_some.1 hstep
      obtain ⟨w, hfeed, rfl⟩ := Option.map_eq_some_iff.1 hstep
      have hbuf : (d.rest.take (n * ch)).length = n * ch := by
        rw [List.length_take, Nat.min_eq_left hrest]
      rw [downmixMono_eq hch hbuf hn] at hfeed
      obtain ⟨out, hout, htracks'⟩ := tracks_feed htracks hwaiting hfeed
      refine ⟨done ++ d.rest.take (n * ch), given ++ out, ?_, ⟨frames + n, ?_⟩, ?_, ?_⟩
      · rw [List.append_assoc, List.take_append_drop, hsplit]
      · exact length_append_frames hdone hbuf
      · rw [reduced_append hch hdone, hreduced, Option.bind_some, hout]
        rfl
      · exact htracks' _
  | eof =>
      obtain ⟨⟨hwaiting, hrest⟩, hstep⟩ := Option.ite_none_right_eq_some.1 hstep
      obtain rfl := Option.some.inj hstep
      have hall : stream = done := by rw [hsplit, hrest, List.append_nil]
      refine ⟨done, given, hsplit, ⟨frames, hdone⟩, ?_, ?_⟩
      · rw [hreduced, resampler_eof]
      · exact (tracks_eof htracks hwaiting ⟨_, hall ▸ hreduced⟩).1
  | cancelled =>
      obtain ⟨hwaiting, hstep⟩ := Option.ite_none_right_eq_some.1 hstep
      obtain rfl := Option.some.inj hstep
      exact ⟨done, given, hsplit, ⟨frames, hdone⟩, hreduced,
        tracks_stop htracks hwaiting (Or.inl rfl)⟩

theorem directInv_of_run {as : List DirectLabel}
    (hrun : (directPath N F seg rate channels stream).run (.start F seg rate stream) as = some d) :
    ∃ done given, DirectInv N F seg rate (max channels 1) stream done given d := by
  have hch : 0 < max channels 1 := by omega
  refine Machine.run_invariant (M := directPath N F seg rate channels stream)
    (P := fun d => ∃ done given, DirectInv N F seg rate (max channels 1) stream done given d) ?_
    ⟨[], [], directInv_start⟩ hrun
  rintro s a t ⟨done, given, h⟩ hstep
  exact directInv_step hch h hstep

theorem DirectInv.hears {done given : List Int16} (h : DirectInv N F seg rate ch stream done given d) :
    Hears N F seg rate ch stream given d.wait := by
  obtain ⟨frames, hdone⟩ := h.whole
  refine ⟨⟨done, d.rest, frames, d.wait.resampler, [], h.split, hdone, ?_⟩, h.tracks⟩
  rw [List.append_nil, h.reduced]

end DirectPath

/-! ## With a recording -/

/-- The chunk of whole frames that the capture thread has read and not yet reduced. -/
def CaptureStage.Holds (ch : Nat) (chunk : List Int16) : CaptureStage → Prop
  | .wrote c | .clocked c => chunk = c ∧ ∃ frames, c.length = frames * ch
  | .stuck => True
  | .reading | .tapped _ | .ended => chunk = []

/-- The frame that the capture thread has reduced and not yet sent. -/
def CaptureStage.unsent : CaptureStage → List Int16
  | .tapped frame => frame
  | _ => []

/-- The resampler for the next chunk, while a listener is armed. -/
def CaptureThread.current (F : Floats P) (c : CaptureThread P) : Resampler P :=
  if c.wasActive then c.rs else .new16k F c.srcRate

section SessionPath

variable {N : NativeVad H} {F : Floats P} {seg : Segmenter H} {rate ch channels : Nat}
variable {stream : List Int16} {s t : Listening H P}

theorem read_of_whole {c : CaptureThread P} {buf : List Int16} (hcarry : c.carry = [])
    (hwhole : buf.length % c.srcChannels = 0) (hne : buf ≠ []) :
    c.read buf = { c with
      rx := c.rx.write buf
      total := c.total + buf.length / c.srcChannels
      stage := .wrote buf } := by
  rw [CaptureThread.read, wholeFrames, if_pos ⟨hcarry, hwhole⟩]
  exact if_neg hne

theorem tap_of_none {c : CaptureThread P} {chunk : List Int16}
    (h : (c.current F).process F (stepBy c.srcChannels chunk) = none) :
    c.tap F chunk true = { c with rs := c.current F, wasActive := true, stage := .stuck } := by
  cases hactive : c.wasActive <;> simp only [CaptureThread.current, hactive] at h <;>
    simp_all [CaptureThread.tap, CaptureThread.current]

theorem tap_of_some {c : CaptureThread P} {chunk frame : List Int16} {rs : Resampler P}
    (h : (c.current F).process F (stepBy c.srcChannels chunk) = some (rs, frame)) :
    c.tap F chunk true =
      { c with
        rs := rs
        wasActive := true
        stage := if frame = [] then .reading else .tapped frame } := by
  cases hactive : c.wasActive <;> simp only [CaptureThread.current, hactive] at h <;>
    simp_all [CaptureThread.tap]

/-- The frames on their way from the resampler to the wait. -/
def Listening.ahead (s : Listening H P) : List Int16 :=
  s.leftover ++ s.session.vadRx.flatten ++ s.session.thread.stage.unsent

/-- A wait on a recording, and the frames on their way to it, are what the stream up to here is
reduced to. -/
structure ListeningInv (N : NativeVad H) (F : Floats P) (seg : Segmenter H) (rate ch : Nat)
    (stream done chunk given : List Int16) (s : Listening H P) : Prop where
  split : stream = done ++ (chunk ++ s.rest)
  whole : ∃ frames, done.length = frames * ch
  holds : s.session.thread.stage.Holds ch chunk
  carry : s.session.thread.carry = []
  srcChannels : s.session.thread.srcChannels = ch
  srcRate : s.session.thread.srcRate = rate
  armed : s.session.vadActive = true
  reduced : reduced F rate ch done = some (s.session.thread.current F, given ++ s.ahead)
  sound : ∀ frame, frame ∈ s.session.vadRx ∨ s.session.thread.stage = .tapped frame → frame ≠ []
  ended : s.session.thread.stage = .ended → s.rest = []
  stuck : s.session.thread.stage = .stuck → Audio.reduced F rate ch stream = none
  resampler : s.wait.resampler = .passthrough
  tracks : Tracks N seg given (∃ rs, Audio.reduced F rate ch stream = some (rs, given)) s.wait

theorem listeningInv_start :
    ListeningInv N F seg rate (max channels 1) stream [] [] []
      (.start F seg rate channels stream) where
  split := rfl
  whole := ⟨0, by simp⟩
  holds := rfl
  carry := rfl
  srcChannels := rfl
  srcRate := rfl
  armed := rfl
  reduced := by
    have hnil := (seamless_process F).nil (Resampler.wf_new16k F rate)
    rw [Audio.reduced, stepBy]
    exact hnil
  sound := by
    intro frame h
    simp [Listening.start, DuplexSession.start] at h
  ended := by simp [Listening.start, DuplexSession.start]
  stuck := by simp [Listening.start, DuplexSession.start]
  resampler := rfl
  tracks := tracks_new targetRate

theorem ListeningInv.read {done chunk given : List Int16} {n : Nat} {session : DuplexSession P}
    (h : ListeningInv N F seg rate ch stream done chunk given s) (hrest : n * ch ≤ s.rest.length)
    (hstep : s.session.captureStep F (.captured (s.rest.take (n * ch))) = some session) :
    ListeningInv N F seg rate ch stream done (s.rest.take (n * ch)) given
      { s with session, rest := s.rest.drop (n * ch) } := by
  have hlen : (s.rest.take (n * ch)).length = n * ch := by
    rw [List.length_take, Nat.min_eq_left hrest]
  cases DuplexSession.captureStep_eq_some hstep with
  | captured hstage hne =>
      have hwhole : (s.rest.take (n * ch)).length % s.session.thread.srcChannels = 0 := by
        rw [h.srcChannels, hlen, Nat.mul_mod_left]
      have hread := read_of_whole h.carry hwhole hne
      obtain rfl : chunk = [] := by simpa [CaptureStage.Holds, hstage] using h.holds
      have hahead := h.reduced
      rw [Listening.ahead, hstage] at hahead
      rw [hread]
      refine ⟨?_, h.whole, ⟨rfl, n, hlen⟩, h.carry, h.srcChannels, h.srcRate, h.armed, hahead,
        ?_, ?_, ?_, h.resampler, h.tracks⟩
      · rw [List.take_append_drop]
        exact h.split
      · rintro frame (hmem | hstage')
        · exact h.sound frame (Or.inl hmem)
        · simp at hstage'
      · intro hended
        simp at hended
      · intro hstuck
        simp at hstuck

theorem ListeningInv.eof {done chunk given : List Int16} {session : DuplexSession P}
    (h : ListeningInv N F seg rate ch stream done chunk given s) (hrest : s.rest = [])
    (hstep : s.session.captureStep F .eof = some session) :
    ListeningInv N F seg rate ch stream done chunk given { s with session } := by
  cases DuplexSession.captureStep_eq_some hstep with
  | eof hstage =>
      have hahead := h.reduced
      rw [Listening.ahead, hstage] at hahead
      refine ⟨h.split, h.whole, ?_, h.carry, h.srcChannels, h.srcRate, h.armed, hahead, ?_,
        fun _ => hrest, by simp, h.resampler, h.tracks⟩
      · simpa [CaptureStage.Holds, hstage] using h.holds
      · rintro frame (hmem | hstage')
        · exact h.sound frame (Or.inl hmem)
        · simp at hstage'

theorem ListeningInv.stored {done chunk given : List Int16} {session : DuplexSession P}
    (h : ListeningInv N F seg rate ch stream done chunk given s)
    (hstep : s.session.captureStep F .stored = some session) :
    ListeningInv N F seg rate ch stream done chunk given { s with session } := by
  cases DuplexSession.captureStep_eq_some hstep with
  | stored hstage =>
      have hahead := h.reduced
      rw [Listening.ahead, hstage] at hahead
      refine ⟨h.split, h.whole, ?_, h.carry, h.srcChannels, h.srcRate, h.armed, hahead, ?_, by simp,
        by simp, h.resampler, h.tracks⟩
      · simpa [CaptureStage.Holds, hstage] using h.holds
      · rintro frame (hmem | hstage')
        · exact h.sound frame (Or.inl hmem)
        · simp at hstage'

/-- **A frame is reduced** as it would be with all before it. -/
theorem ListeningInv.tapped {done chunk given : List Int16} {session : DuplexSession P}
    (hch : 0 < ch) (h : ListeningInv N F seg rate ch stream done chunk given s)
    (hstep : s.session.captureStep F .tapped = some session) :
    ∃ done' chunk', ListeningInv N F seg rate ch stream done' chunk' given { s with session } := by
  cases DuplexSession.captureStep_eq_some hstep with
  | @tapped c hstage =>
      obtain ⟨rfl, k, hk⟩ : chunk = c ∧ ∃ frames, c.length = frames * ch := by
        simpa [CaptureStage.Holds, hstage] using h.holds
      obtain ⟨frames, hdone⟩ := h.whole
      have hahead := h.reduced
      rw [Listening.ahead, hstage] at hahead
      rw [h.armed]
      cases hout : (s.session.thread.current F).process F (stepBy ch chunk) with
      | none =>
          have hnone : Audio.reduced F rate ch stream = none := by
            rw [h.split, ← List.append_assoc, reduced_append hch (length_append_frames hdone hk),
              reduced_append hch hdone, h.reduced, Option.bind_some, hout]
            rfl
          rw [tap_of_none (h.srcChannels.symm ▸ hout)]
          refine ⟨done, chunk, h.split, h.whole, trivial, h.carry, h.srcChannels, h.srcRate, rfl,
            hahead, ?_, by simp, fun _ => hnone, h.resampler, h.tracks⟩
          rintro frame (hmem | hstage')
          · exact h.sound frame (Or.inl hmem)
          · simp at hstage'
      | some r =>
          obtain ⟨rs, frame⟩ := r
          rw [tap_of_some (h.srcChannels.symm ▸ hout)]
          have hunsent : (if frame = [] then CaptureStage.reading
              else CaptureStage.tapped frame).unsent = frame := by
            split
            · rename_i hempty
              exact hempty.symm
            · rfl
          refine ⟨done ++ chunk, [], ?_, ⟨_, length_append_frames hdone hk⟩, ?_, h.carry,
            h.srcChannels, h.srcRate, rfl, ?_, ?_, ?_, ?_, h.resampler, h.tracks⟩
          · rw [h.split, List.append_assoc, List.nil_append]
          · show CaptureStage.Holds ch [] (if frame = [] then .reading else .tapped frame)
            split <;> rfl
          · rw [reduced_append hch hdone, h.reduced, Option.bind_some, hout, behind_some]
            have hbefore : s.ahead = s.leftover ++ s.session.vadRx.flatten := by
              simp [Listening.ahead, hstage, CaptureStage.unsent]
            show some (rs, given ++ s.ahead ++ frame) = some (rs, given ++
              (s.leftover ++ s.session.vadRx.flatten ++
                (if frame = [] then CaptureStage.reading else .tapped frame).unsent))
            rw [hunsent, hbefore, List.append_assoc]
          · rintro f (hmem | hstage')
            · exact h.sound f (Or.inl hmem)
            · simp only at hstage'
              split at hstage'
              · simp at hstage'
              · rename_i hne
                obtain rfl := CaptureStage.tapped.inj hstage'
                exact hne
          · intro hended
            simp only at hended
            split at hended <;> simp at hended
          · intro hstuck
            simp only at hstuck
            split at hstuck <;> simp at hstuck

theorem ListeningInv.sent {done chunk given : List Int16} {session : DuplexSession P}
    (h : ListeningInv N F seg rate ch stream done chunk given s)
    (hroom : s.session.vadRx.length < vadChannelBound)
    (hstep : s.session.captureStep F .sent = some session) :
    ListeningInv N F seg rate ch stream done chunk given { s with session } := by
  cases DuplexSession.captureStep_eq_some hstep with
  | @sent frame hstage =>
      rw [if_pos hroom]
      refine ⟨h.split, h.whole, ?_, h.carry, h.srcChannels, h.srcRate, h.armed, ?_, ?_, by simp,
        by simp, h.resampler, h.tracks⟩
      · simpa [CaptureStage.Holds, hstage] using h.holds
      · rw [h.reduced]
        simp [Listening.ahead, hstage, CaptureStage.unsent, CaptureThread.current]
      · rintro f (hmem | hstage')
        · rcases List.mem_append.1 hmem with hmem | hmem
          · exact h.sound f (Or.inl hmem)
          · obtain rfl := List.mem_singleton.1 hmem
            exact h.sound f (Or.inr hstage)
        · simp at hstage'

/-- A read gives the first samples of what is on its way. -/
theorem data_of_vadFrameRead {disconnected : Bool} {frames frames' : List (List Int16)}
    {leftover buf leftover' : List Int16}
    (h : vadFrameRead disconnected frames leftover = .data buf leftover' frames') :
    leftover ++ frames.flatten = buf ++ (leftover' ++ frames'.flatten) ∧ buf ≠ [] ∧
      ∀ frame ∈ frames', frame ∈ frames := by
  have htake : ∀ l : List Int16, l ≠ [] → l.take readLen ≠ [] := by
    intro l hl hnil
    rcases List.take_eq_nil_iff.1 hnil with h0 | h0
    · simp [readLen] at h0
    · exact hl h0
  induction frames generalizing leftover with
  | nil =>
      rw [vadFrameRead] at h
      split at h
      · split at h <;> simp at h
      · rename_i hne
        obtain ⟨rfl, rfl, rfl⟩ := SourceRead.data.inj h
        refine ⟨?_, htake leftover hne, by simp⟩
        rw [← List.append_assoc, List.take_append_drop]
  | cons frame frames ih =>
      rw [vadFrameRead] at h
      split at h
      · rename_i hnil
        subst hnil
        obtain ⟨hsplit, hne, hmem⟩ := ih h
        exact ⟨hsplit, hne, fun f hf => List.mem_cons_of_mem frame (hmem f hf)⟩
      · rename_i hne
        obtain ⟨rfl, rfl, rfl⟩ := SourceRead.data.inj h
        refine ⟨?_, htake leftover hne, fun f hf => hf⟩
        rw [← List.append_assoc, List.take_append_drop]

/-- A read gives nothing only where nothing is on its way. -/
theorem nil_of_vadFrameRead {disconnected : Bool} {frames : List (List Int16)}
    {leftover : List Int16}
    (h : vadFrameRead disconnected frames leftover = .endOfStream ∨
      vadFrameRead disconnected frames leftover = .wouldBlock) :
    leftover ++ frames.flatten = [] ∧
      (vadFrameRead disconnected frames leftover = .endOfStream ↔ disconnected = true) := by
  induction frames generalizing leftover with
  | nil =>
      by_cases hnil : leftover = []
      · subst hnil
        refine ⟨rfl, ?_⟩
        cases disconnected <;> simp [vadFrameRead]
      · rw [vadFrameRead, if_neg hnil] at h
        simp at h
  | cons frame frames ih =>
      by_cases hnil : leftover = []
      · subst hnil
        rw [vadFrameRead, if_pos rfl] at h ⊢
        exact ih h
      · rw [vadFrameRead, if_neg hnil] at h
        simp at h

theorem ListeningInv.poll_data {done chunk given buf leftover : List Int16}
    {vadRx : List (List Int16)} {w : Wait H P}
    (h : ListeningInv N F seg rate ch stream done chunk given s) (hw : s.wait.verdict = none)
    (hsource : s.source = .data buf leftover vadRx) (hfeed : s.wait.feed N F buf = some w) :
    ListeningInv N F seg rate ch stream done chunk (given ++ buf)
      { s with session := { s.session with vadRx }, leftover, wait := w } := by
  obtain ⟨hsplit, -, hmem⟩ := data_of_vadFrameRead hsource
  obtain ⟨out, hout, htracks⟩ := tracks_feed h.tracks hw hfeed
  rw [h.resampler] at hout
  obtain ⟨hresampler, rfl⟩ := Prod.mk.inj (Option.some.inj hout)
  refine ⟨h.split, h.whole, h.holds, h.carry, h.srcChannels, h.srcRate, h.armed, ?_, ?_, h.ended,
    h.stuck, hresampler.symm, htracks _⟩
  · rw [h.reduced]
    simp only [Listening.ahead, hsplit, List.append_assoc]
  · rintro f (hf | hstage)
    · exact h.sound f (Or.inl (hmem f hf))
    · exact h.sound f (Or.inr hstage)

/-- A read at the end of the stream: all of it has been given. -/
theorem ListeningInv.exhausted {done chunk given : List Int16}
    (h : ListeningInv N F seg rate ch stream done chunk given s) (hsource : s.source = .endOfStream) :
    ∃ rs, Audio.reduced F rate ch stream = some (rs, given) := by
  obtain ⟨hnil, hdisconnected⟩ := nil_of_vadFrameRead (Or.inl hsource)
  have hended : s.session.thread.stage = .ended := of_decide_eq_true (hdisconnected.1 hsource)
  have hchunk : chunk = [] := by simpa [CaptureStage.Holds, hended] using h.holds
  have hall : stream = done := by rw [h.split, hchunk, h.ended hended, List.append_nil, List.append_nil]
  have hahead : s.ahead = [] := by
    rw [Listening.ahead, hnil, hended]
    rfl
  refine ⟨s.session.thread.current F, ?_⟩
  rw [hall, h.reduced, hahead, List.append_nil]

theorem ListeningInv.poll_eof {done chunk given : List Int16}
    (h : ListeningInv N F seg rate ch stream done chunk given s) (hw : s.wait.verdict = none)
    (hsource : s.source = .endOfStream) :
    ListeningInv N F seg rate ch stream done chunk given { s with wait := s.wait.eof N } :=
  ⟨h.split, h.whole, h.holds, h.carry, h.srcChannels, h.srcRate, h.armed, h.reduced, h.sound,
    h.ended, h.stuck, (resampler_eof s.wait).trans h.resampler,
    (tracks_eof h.tracks hw (h.exhausted hsource)).1⟩

theorem ListeningInv.stop {done chunk given : List Int16} {v : Verdict}
    (h : ListeningInv N F seg rate ch stream done chunk given s) (hw : s.wait.verdict = none)
    (hv : v = .cancelled ∨ v = .stalled) :
    ListeningInv N F seg rate ch stream done chunk given
      { s with wait := { s.wait with verdict := some v } } :=
  ⟨h.split, h.whole, h.holds, h.carry, h.srcChannels, h.srcRate, h.armed, h.reduced, h.sound,
    h.ended, h.stuck, h.resampler, tracks_stop h.tracks hw hv⟩

theorem listeningInv_step {done chunk given : List Int16} {a : ListeningLabel} (hch : 0 < ch)
    (h : ListeningInv N F seg rate ch stream done chunk given s) (hdrop : s.NoDrop a)
    (hstep : s.step N F a = some t) :
    ∃ done' chunk' given', ListeningInv N F seg rate ch stream done' chunk' given' t := by
  cases a with
  | read n =>
      obtain ⟨⟨-, hrest⟩, hstep⟩ := Option.ite_none_right_eq_some.1 hstep
      obtain ⟨session, hsession, rfl⟩ := Option.map_eq_some_iff.1 hstep
      rw [h.srcChannels] at hrest hsession ⊢
      exact ⟨_, _, _, h.read hrest hsession⟩
  | eof =>
      obtain ⟨hrest, hstep⟩ := Option.ite_none_right_eq_some.1 hstep
      obtain ⟨session, hsession, rfl⟩ := Option.map_eq_some_iff.1 hstep
      exact ⟨_, _, _, h.eof hrest hsession⟩
  | stored =>
      obtain ⟨session, hsession, rfl⟩ := Option.map_eq_some_iff.1 hstep
      exact ⟨_, _, _, h.stored hsession⟩
  | tapped =>
      obtain ⟨session, hsession, rfl⟩ := Option.map_eq_some_iff.1 hstep
      obtain ⟨done', chunk', h'⟩ := h.tapped hch hsession
      exact ⟨_, _, _, h'⟩
  | sent =>
      obtain ⟨session, hsession, rfl⟩ := Option.map_eq_some_iff.1 hstep
      exact ⟨_, _, _, h.sent (hdrop rfl) hsession⟩
  | poll =>
      obtain ⟨hw, hstep⟩ := Option.ite_none_right_eq_some.1 hstep
      cases hsource : s.source with
      | data buf leftover vadRx =>
          rw [hsource] at hstep
          obtain ⟨w, hfeed, rfl⟩ := Option.map_eq_some_iff.1 hstep
          exact ⟨_, _, _, h.poll_data hw hsource hfeed⟩
      | endOfStream =>
          rw [hsource] at hstep
          obtain rfl := Option.some.inj hstep
          exact ⟨_, _, _, h.poll_eof hw hsource⟩
      | wouldBlock => simp [hsource] at hstep
  | stalled =>
      obtain ⟨⟨hw, -⟩, hstep⟩ := Option.ite_none_right_eq_some.1 hstep
      obtain rfl := Option.some.inj hstep
      exact ⟨_, _, _, h.stop hw (Or.inr rfl)⟩
  | cancelled =>
      obtain ⟨hw, hstep⟩ := Option.ite_none_right_eq_some.1 hstep
      obtain rfl := Option.some.inj hstep
      exact ⟨_, _, _, h.stop hw (Or.inl rfl)⟩

theorem listeningInv_of_run {as : List ListeningLabel}
    (hdrop : (sessionPath N F seg rate channels stream).Meets Listening.NoDrop
      (.start F seg rate channels stream) as)
    (hrun : (sessionPath N F seg rate channels stream).run (.start F seg rate channels stream) as =
      some s) :
    ∃ done chunk given,
      ListeningInv N F seg rate (max channels 1) stream done chunk given s := by
  have hch : 0 < max channels 1 := by omega
  refine Machine.run_preserves (M := sessionPath N F seg rate channels stream)
    (P := fun s => ∃ done chunk given,
      ListeningInv N F seg rate (max channels 1) stream done chunk given s) ?_
    ⟨[], [], [], listeningInv_start⟩ hdrop hrun
  rintro s a t ⟨done, chunk, given, h⟩ hok hstep
  exact listeningInv_step hch h hok hstep

theorem ListeningInv.hears {done chunk given : List Int16}
    (h : ListeningInv N F seg rate ch stream done chunk given s) :
    Hears N F seg rate ch stream given s.wait := by
  obtain ⟨frames, hdone⟩ := h.whole
  exact ⟨⟨done, chunk ++ s.rest, frames, _, s.ahead, h.split, hdone, h.reduced⟩, h.tracks⟩

end SessionPath

end DialF.Audio
