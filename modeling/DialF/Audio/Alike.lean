import DialF.Audio.Hearing

/-!
# Both ways to listen come to the same

A wait on a stream that has not come to its verdict can go on until it does, as long as the
resampler returns: on the card by reading frame after frame (`directPath_ends`), on a recording by
whatever step is next, where the wait takes what is on its way before the capture thread goes on, so
that no frame is lost (`exists_smaller`, `sessionPath_ends`).

`hears_alike` puts this beside the agreement of any two waits.
-/

set_option autoImplicit false

namespace DialF.Audio

open DialF.Lib

variable {H P : Type}

section Ends

variable {N : NativeVad H} {F : Floats P} {seg : Segmenter H} {rate ch channels : Nat}
variable {stream : List Int16}

/-! ## A verdict is about what has been heard -/

theorem byEar_of_hear {seg' : Segmenter H} {hops : List (List Int16)} {v : Verdict}
    (h : (hear N seg' hops).2.2 = some v) : v.ByEar := by
  induction hops generalizing seg' with
  | nil => simp [hear] at h
  | cons hop hops ih =>
      rw [hear] at h
      cases hpush : seg'.pushHop N hop with
      | none =>
          rw [Segmenter.hearHop, hpush] at h
          obtain rfl := Option.some.inj h
          trivial
      | some r =>
          obtain ⟨next, event⟩ := r
          rcases event with _ | _ | reason
          · rw [Segmenter.hearHop, hpush] at h
            exact ih h
          · rw [Segmenter.hearHop, hpush] at h
            exact ih h
          · rw [Segmenter.hearHop, hpush] at h
            obtain rfl := Option.some.inj h
            trivial

theorem byEar_of_feed {w w' : Wait H P} {buf : List Int16} {v : Verdict}
    (hfeed : w.feed N F buf = some w') (hv : w'.verdict = some v) : v.ByEar := by
  obtain ⟨r, -, rfl⟩ := Option.map_eq_some_iff.1 hfeed
  exact byEar_of_hear hv

/-! ## Without a recording -/

/-- A wait comes to its verdict by steps of its own. -/
def Direct.Ends (N : NativeVad H) (F : Floats P) (seg : Segmenter H) (rate channels : Nat)
    (stream : List Int16) (d : Direct H P) : Prop :=
  ∃ as t v, (directPath N F seg rate channels stream).run d as = some t ∧
    t.wait.verdict = some v ∧ v.ByEar

theorem Direct.Ends.step {d t : Direct H P} (a : DirectLabel)
    (hstep : (directPath N F seg rate channels stream).step d a = some t)
    (h : t.Ends N F seg rate channels stream) : d.Ends N F seg rate channels stream := by
  obtain ⟨as, u, v, hrun, hv⟩ := h
  refine ⟨a :: as, u, v, ?_, hv⟩
  rw [Machine.run, hstep]
  exact hrun

theorem Direct.Ends.of_verdict {d : Direct H P} {v : Verdict} (hv : d.wait.verdict = some v)
    (hear : v.ByEar) : d.Ends N F seg rate channels stream :=
  ⟨[], d, v, rfl, hv, hear⟩

/-- What is still to come is whole frames, or nothing. -/
theorem le_length_rest {done rest : List Int16} {frames : Nat}
    (hwhole : ch ∣ stream.length) (hsplit : stream = done ++ rest)
    (hdone : done.length = frames * ch) (hne : rest ≠ []) : ch ≤ rest.length := by
  have hpos := List.length_pos_of_ne_nil hne
  rw [hsplit, List.length_append, hdone] at hwhole
  exact Nat.le_of_dvd hpos ((Nat.dvd_add_right (Nat.dvd_mul_left ch frames)).1 hwhole)

/-- Where the resampler returns on all of the stream, it returns on the next frames. -/
theorem process_ne_none (hch : 0 < ch) {done chunk rest out : List Int16} {frames k : Nat}
    {rs : Resampler P} (hsplit : stream = done ++ (chunk ++ rest))
    (hdone : done.length = frames * ch) (hchunk : chunk.length = k * ch)
    (hreduced : reduced F rate ch done = some (rs, out))
    (hreturns : reduced F rate ch stream ≠ none) :
    ∃ r, rs.process F (stepBy ch chunk) = some r := by
  cases hout : rs.process F (stepBy ch chunk) with
  | some r => exact ⟨r, rfl⟩
  | none =>
      refine absurd ?_ hreturns
      rw [hsplit, ← List.append_assoc, reduced_append hch (length_append_frames hdone hchunk),
        reduced_append hch hdone, hreduced, Option.bind_some, hout]
      rfl

theorem directPath_ends {done given : List Int16} {d : Direct H P}
    (hreturns : reduced F rate (max channels 1) stream ≠ none)
    (hwhole : max channels 1 ∣ stream.length)
    (h : DirectInv N F seg rate (max channels 1) stream done given d)
    (hw : d.wait.verdict = none) : d.Ends N F seg rate channels stream := by
  have hch : 0 < max channels 1 := by omega
  induction hn : d.rest.length using Nat.strongRecOn generalizing d done given with
  | ind n ih =>
      subst hn
      obtain ⟨frames, hdone⟩ := h.whole
      by_cases hrest : d.rest = []
      · have hall : stream = done := by rw [h.split, hrest, List.append_nil]
        have hstep : (directPath N F seg rate channels stream).step d .eof =
            some { d with wait := d.wait.eof N } := if_pos ⟨hw, hrest⟩
        exact Direct.Ends.step .eof hstep
          (Direct.Ends.of_verdict (tracks_eof h.tracks hw ⟨_, hall ▸ h.reduced⟩).2 trivial)
      · have hle := le_length_rest hwhole h.split hdone hrest
        have hbuf : (d.rest.take (1 * max channels 1)).length = 1 * max channels 1 := by
          rw [List.length_take, Nat.min_eq_left (by omega)]
        obtain ⟨r, hr⟩ := process_ne_none hch
          (by rw [List.take_append_drop (1 * max channels 1)]; exact h.split) hdone hbuf h.reduced
          hreturns
        obtain ⟨w, hfeed⟩ : ∃ w, d.wait.feed N F
            (downmixMono (max channels 1) readLen (d.rest.take (1 * max channels 1))) = some w := by
          rw [downmixMono_eq hch hbuf (by decide), Wait.feed, hr]
          exact ⟨_, rfl⟩
        have hstep : (directPath N F seg rate channels stream).step d (.read 1) =
            some { rest := d.rest.drop (1 * max channels 1), wait := w } := by
          simp only [directPath, Direct.step]
          rw [if_pos ⟨hw, by decide, by decide, by omega⟩, hfeed]
          rfl
        refine Direct.Ends.step (.read 1) hstep ?_
        cases hv : w.verdict with
        | some v => exact Direct.Ends.of_verdict hv (byEar_of_feed hfeed hv)
        | none =>
            obtain ⟨done', given', h'⟩ := directInv_step (a := .read 1) hch h hstep
            refine ih _ ?_ h' hv rfl
            rw [List.length_drop]
            omega

/-! ## With a recording -/

/-- A wait comes to its verdict by steps of the machine, which lose no frame. -/
def Listening.Ends (N : NativeVad H) (F : Floats P) (seg : Segmenter H) (rate channels : Nat)
    (stream : List Int16) (s : Listening H P) : Prop :=
  ∃ as t v, (sessionPath N F seg rate channels stream).Meets Listening.NoDrop s as ∧
    (sessionPath N F seg rate channels stream).run s as = some t ∧ t.wait.verdict = some v ∧ v.ByEar

theorem Listening.Ends.step {s t : Listening H P} (a : ListeningLabel) (hdrop : s.NoDrop a)
    (hstep : s.step N F a = some t) (h : t.Ends N F seg rate channels stream) :
    s.Ends N F seg rate channels stream := by
  obtain ⟨as, u, v, hmeets, hrun, hv⟩ := h
  have hstep' : (sessionPath N F seg rate channels stream).step s a = some t := hstep
  refine ⟨a :: as, u, v, ?_, ?_, hv⟩
  · rw [Machine.Meets, hstep']
    exact ⟨hdrop, hmeets⟩
  · rw [Machine.run, hstep']
    exact hrun

theorem Listening.Ends.of_verdict {s : Listening H P} {v : Verdict} (hv : s.wait.verdict = some v)
    (hear : v.ByEar) : s.Ends N F seg rate channels stream :=
  ⟨[], s, v, trivial, rfl, hv, hear⟩

/-- How far the capture thread is from its next read. -/
def CaptureStage.rank : CaptureStage → Nat
  | .wrote _ => 4
  | .clocked _ => 3
  | .tapped _ => 2
  | .reading => 1
  | .stuck => 0
  | .ended => 0

theorem rank_tap (c : CaptureThread P) (chunk : List Int16) (active : Bool) :
    (c.tap F chunk active).stage.rank < (CaptureStage.clocked chunk).rank := by
  have hsmall : ∀ frame : List Int16,
      (if frame = [] then CaptureStage.reading else .tapped frame).rank < 3 := by
    intro frame
    split
    · exact Nat.lt_of_sub_eq_succ rfl
    · exact Nat.lt_succ_self 2
  simp only [CaptureThread.tap]
  split
  · split
    · exact Nat.zero_lt_succ 2
    · exact hsmall _
  · exact Nat.lt_of_sub_eq_succ rfl

/-- Less is to come, to be done by the capture thread, or to be taken by the wait. -/
def Listening.Smaller (t s : Listening H P) : Prop :=
  t.rest.length < s.rest.length ∨
    t.rest.length = s.rest.length ∧
      (t.session.thread.stage.rank < s.session.thread.stage.rank ∨
        t.session.thread.stage.rank = s.session.thread.stage.rank ∧
          (t.leftover ++ t.session.vadRx.flatten).length <
            (s.leftover ++ s.session.vadRx.flatten).length)

theorem wellFounded_smaller : WellFounded (Listening.Smaller (H := H) (P := P)) := by
  have hlex := InvImage.wf (fun s : Listening H P =>
    (s.rest.length, s.session.thread.stage.rank, (s.leftover ++ s.session.vadRx.flatten).length))
    (WellFounded.prod_lex Nat.lt_wfRel.wf (WellFounded.prod_lex Nat.lt_wfRel.wf Nat.lt_wfRel.wf))
  refine Subrelation.wf (fun {t s} h => ?_) hlex
  apply Prod.lex_def.2
  rcases h with h | ⟨heq, h⟩
  · exact Or.inl h
  · exact Or.inr ⟨heq, Prod.lex_def.2 h⟩

/-- A step of the capture thread on its way to its next read. -/
theorem exists_of_captureStep {s : Listening H P} {a : ListeningLabel} {b : CaptureLabel}
    {session : DuplexSession P} (hw : s.wait.verdict = none) (hdrop : s.NoDrop a)
    (hstep : s.step N F a = (s.session.captureStep F b).map fun session => { s with session })
    (hsession : s.session.captureStep F b = some session)
    (hrank : session.thread.stage.rank < s.session.thread.stage.rank) :
    ∃ a t, s.NoDrop a ∧ s.step N F a = some t ∧ t.wait.verdict = none ∧ t.Smaller s := by
  refine ⟨a, { s with session }, hdrop, ?_, hw, Or.inr ⟨rfl, Or.inl hrank⟩⟩
  rw [hstep, hsession, Option.map_some]

/-- Where nothing is on its way to the wait, the capture thread has a step to take. -/
theorem exists_smaller_of_wouldBlock {done chunk given : List Int16} {s : Listening H P}
    (hreturns : reduced F rate ch stream ≠ none) (hch : 0 < ch) (hwhole : ch ∣ stream.length)
    (h : ListeningInv N F seg rate ch stream done chunk given s) (hw : s.wait.verdict = none)
    (hsource : s.source = .wouldBlock) :
    ∃ a t, s.NoDrop a ∧ s.step N F a = some t ∧ t.wait.verdict = none ∧ t.Smaller s := by
  obtain ⟨hnil, hdisconnected⟩ := nil_of_vadFrameRead (Or.inr hsource)
  cases hstage : s.session.thread.stage with
  | reading =>
      obtain rfl : chunk = [] := by simpa [CaptureStage.Holds, hstage] using h.holds
      by_cases hrest : s.rest = []
      · have hsession : s.session.captureStep F .eof =
            some { s.session with thread := { s.session.thread with stage := .ended } } :=
          if_pos hstage
        apply exists_of_captureStep (a := .eof) hw (by simp [Listening.NoDrop]) (if_pos hrest) hsession
        rw [hstage]
        exact Nat.zero_lt_one
      · obtain ⟨frames, hdone⟩ := h.whole
        have hle : ch ≤ s.rest.length := le_length_rest hwhole h.split hdone hrest
        have hne : s.rest.take (1 * ch) ≠ [] := by
          refine List.ne_nil_of_length_pos ?_
          rw [List.length_take]
          omega
        have hsession : s.session.captureStep F (.captured (s.rest.take (1 * ch))) =
            some { s.session with thread := s.session.thread.read (s.rest.take (1 * ch)) } :=
          if_pos ⟨hstage, hne⟩
        have hstep : s.step N F (.read 1) = some { s with
            session :=
              { s.session with thread := s.session.thread.read (s.rest.take (1 * ch)) }
            rest := s.rest.drop (1 * ch) } := by
          simp only [Listening.step, h.srcChannels]
          rw [if_pos ⟨Nat.one_pos, by omega⟩, hsession, Option.map_some]
        refine ⟨.read 1, _, by simp [Listening.NoDrop], hstep, hw, Or.inl ?_⟩
        show (s.rest.drop (1 * ch)).length < s.rest.length
        rw [List.length_drop]
        omega
  | wrote c =>
      have hsession : s.session.captureStep F .stored = some { s.session with
          rxLen := s.session.thread.total
          thread := { s.session.thread with stage := .clocked c } } := by
        simp only [DuplexSession.captureStep, hstage]
      apply exists_of_captureStep (a := .stored) hw (by simp [Listening.NoDrop]) rfl hsession
      rw [hstage]
      exact Nat.lt_succ_self 3
  | clocked c =>
      have hsession : s.session.captureStep F .tapped =
          some { s.session with thread := s.session.thread.tap F c s.session.vadActive } := by
        simp only [DuplexSession.captureStep, hstage]
      apply exists_of_captureStep (a := .tapped) hw (by simp [Listening.NoDrop]) rfl hsession
      rw [hstage]
      exact rank_tap _ _ _
  | tapped frame =>
      -- the channel is empty, so that the frame fits
      have hempty : s.session.vadRx = [] := by
        refine List.eq_nil_iff_forall_not_mem.2 fun f hf => h.sound f (Or.inl hf) ?_
        exact List.flatten_eq_nil_iff.1 (List.append_eq_nil_iff.1 hnil).2 f hf
      have hroom : s.session.vadRx.length < vadChannelBound := by
        rw [hempty]
        decide
      have hsession : s.session.captureStep F .sent = some { s.session with
          vadRx := if s.session.vadRx.length < vadChannelBound then s.session.vadRx ++ [frame]
            else s.session.vadRx
          thread := { s.session.thread with stage := .reading } } := by
        simp only [DuplexSession.captureStep, hstage]
      apply exists_of_captureStep (a := .sent) hw (fun _ => hroom) rfl hsession
      rw [hstage]
      exact Nat.lt_succ_self 1
  | stuck => exact absurd (h.stuck hstage) hreturns
  | ended =>
      have heof : s.source = .endOfStream := hdisconnected.2 (decide_eq_true hstage)
      exact absurd (heof.symm.trans hsource) (by simp)

/-- **There is always a step that makes it smaller**, loses no frame, or gives the verdict. -/
theorem exists_smaller {done chunk given : List Int16} {s : Listening H P}
    (hreturns : reduced F rate ch stream ≠ none) (hch : 0 < ch) (hwhole : ch ∣ stream.length)
    (h : ListeningInv N F seg rate ch stream done chunk given s) (hw : s.wait.verdict = none) :
    ∃ a t, s.NoDrop a ∧ s.step N F a = some t ∧
      ((∃ v, t.wait.verdict = some v ∧ v.ByEar) ∨ t.wait.verdict = none ∧ t.Smaller s) := by
  cases hsource : s.source with
  | data buf leftover vadRx =>
      -- the wait takes what is on its way
      obtain ⟨w, hfeed⟩ : ∃ w, s.wait.feed N F buf = some w := by
        rw [Wait.feed, h.resampler]
        exact ⟨_, rfl⟩
      have hstep : s.step N F .poll =
          some { s with session := { s.session with vadRx }, leftover, wait := w } := by
        simp only [Listening.step]
        rw [if_pos hw, hsource]
        simp only [hfeed, Option.map_some]
      refine ⟨.poll, _, by simp [Listening.NoDrop], hstep, ?_⟩
      cases hv : w.verdict with
      | some v => exact Or.inl ⟨v, rfl, byEar_of_feed hfeed hv⟩
      | none =>
          obtain ⟨hsplit, hne, -⟩ := data_of_vadFrameRead hsource
          have hpos := List.length_pos_of_ne_nil hne
          refine Or.inr ⟨rfl, Or.inr ⟨rfl, Or.inr ⟨rfl, ?_⟩⟩⟩
          rw [hsplit]
          simp only [List.length_append]
          omega
  | endOfStream =>
      have hstep : s.step N F .poll = some { s with wait := s.wait.eof N } := by
        simp only [Listening.step]
        rw [if_pos hw, hsource]
      exact ⟨.poll, _, by simp [Listening.NoDrop], hstep,
        Or.inl ⟨_, (tracks_eof h.tracks hw (h.exhausted hsource)).2, trivial⟩⟩
  | wouldBlock =>
      obtain ⟨a, t, hdrop, hstep, ht⟩ :=
        exists_smaller_of_wouldBlock hreturns hch hwhole h hw hsource
      exact ⟨a, t, hdrop, hstep, Or.inr ht⟩

theorem sessionPath_ends {done chunk given : List Int16} {s : Listening H P}
    (hreturns : reduced F rate (max channels 1) stream ≠ none)
    (hwhole : max channels 1 ∣ stream.length)
    (h : ListeningInv N F seg rate (max channels 1) stream done chunk given s)
    (hw : s.wait.verdict = none) : s.Ends N F seg rate channels stream := by
  have hch : 0 < max channels 1 := by omega
  induction s using wellFounded_smaller.induction generalizing done chunk given with
  | h s ih =>
      obtain ⟨a, t, hdrop, hstep, ⟨v, hv, hear⟩ | ⟨hv, hsmaller⟩⟩ :=
        exists_smaller hreturns hch hwhole h hw
      · exact Listening.Ends.step a hdrop hstep (Listening.Ends.of_verdict hv hear)
      · obtain ⟨done', chunk', given', h'⟩ := listeningInv_step hch h hdrop hstep
        exact Listening.Ends.step a hdrop hstep (ih t hsmaller h' hv)

/-! ## Any two waits on a stream -/

/-- A wait on the card, or on a recording. -/
inductive Listener (H P : Type) where
  | direct (d : Direct H P)
  | session (s : Listening H P)

namespace Listener

/-- The wait that the listener feeds, whichever path it listens on. -/
def wait : Listener H P → Wait H P
  | .direct d => d.wait
  | .session s => s.wait

/-- A run of the path has come here; where it is that of a recording, it has lost no frame. -/
def Reached (N : NativeVad H) (F : Floats P) (seg : Segmenter H) (rate channels : Nat)
    (stream : List Int16) : Listener H P → Prop
  | .direct d => ∃ as,
      (directPath N F seg rate channels stream).run (.start F seg rate stream) as = some d
  | .session s => ∃ as,
      (sessionPath N F seg rate channels stream).Meets Listening.NoDrop
          (.start F seg rate channels stream) as ∧
        (sessionPath N F seg rate channels stream).run (.start F seg rate channels stream) as = some s

/-- It can go on, and lose no frame, to a verdict about what has been heard. -/
def Ends (N : NativeVad H) (F : Floats P) (seg : Segmenter H) (rate channels : Nat)
    (stream : List Int16) : Listener H P → Prop
  | .direct d => d.Ends N F seg rate channels stream
  | .session s => s.Ends N F seg rate channels stream

theorem hears_of_reached {l : Listener H P} (h : l.Reached N F seg rate channels stream) :
    ∃ given, Hears N F seg rate (max channels 1) stream given l.wait := by
  cases l with
  | direct d =>
      obtain ⟨as, hrun⟩ := h
      obtain ⟨done, given, hinv⟩ := directInv_of_run hrun
      exact ⟨given, hinv.hears⟩
  | session s =>
      obtain ⟨as, hdrop, hrun⟩ := h
      obtain ⟨done, chunk, given, hinv⟩ := listeningInv_of_run hdrop hrun
      exact ⟨given, hinv.hears⟩

theorem ends_of_reached {l : Listener H P} (h : l.Reached N F seg rate channels stream)
    (hreturns : reduced F rate (max channels 1) stream ≠ none)
    (hwhole : max channels 1 ∣ stream.length) (hw : l.wait.verdict = none) :
    l.Ends N F seg rate channels stream := by
  cases l with
  | direct d =>
      obtain ⟨as, hrun⟩ := h
      obtain ⟨done, given, hinv⟩ := directInv_of_run hrun
      exact directPath_ends hreturns hwhole hinv hw
  | session s =>
      obtain ⟨as, hdrop, hrun⟩ := h
      obtain ⟨done, chunk, given, hinv⟩ := listeningInv_of_run hdrop hrun
      exact sessionPath_ends hreturns hwhole hinv hw

end Listener

/-- **Turn taking hears the same with and without a recording**, however the reads are cut. Of any
two waits on a stream of whole frames, the hops of one are the first hops of the other, and so are
their verdicts, unless one was cancelled or stalled; and where the resampler returns, each comes to
its verdict. -/
theorem hears_alike {l₁ l₂ : Listener H P} (h₁ : l₁.Reached N F seg rate channels stream)
    (h₂ : l₂.Reached N F seg rate channels stream) :
    (l₁.wait.heard <+: l₂.wait.heard ∨ l₂.wait.heard <+: l₁.wait.heard) ∧
      (∀ v₁ v₂, l₁.wait.verdict = some v₁ → l₂.wait.verdict = some v₂ → v₁.ByEar → v₂.ByEar →
        v₁ = v₂) ∧
      (reduced F rate (max channels 1) stream ≠ none → max channels 1 ∣ stream.length →
        l₁.wait.verdict = none → l₁.Ends N F seg rate channels stream) := by
  have hch : 0 < max channels 1 := by omega
  obtain ⟨given₁, hears₁⟩ := Listener.hears_of_reached h₁
  obtain ⟨given₂, hears₂⟩ := Listener.hears_of_reached h₂
  obtain ⟨hheard, hverdict⟩ := hears₁.agree hch hears₂
  exact ⟨hheard, hverdict, fun hreturns hwhole hw => Listener.ends_of_reached h₁ hreturns hwhole hw⟩

end Ends

/-- A turn that ends with the first hop of silence; hops have two samples. -/
def silenceTurn : Jobs.TurnConfig where
  hopSize := 2
  silenceDurationMs := 0
  endTimeoutMs := 100
  onsetDurationMs := 0

/-- A detector that takes everything but zeros for speech. -/
def soundVad : NativeVad Unit where
  create _ _ := some ()
  process _ hop := some ((), hop.any fun sample => sample ≠ 0)

/-- A segmenter of one-frame hops over a classifier that is silent throughout. -/
def silenceSegmenter : Segmenter Unit where
  vad := { hopSize := 2, handle := () }
  detector := .new exactFloats silenceTurn
  cfg := silenceTurn
  pos := by decide

/-- A stereo stream with another signal beside channel 0, and the reads of both paths. -/
def stereoStream : List Int16 := [1, 9, 1, 9, 1, 9, 1, 9, 0, 9, 0, 9]

/-- The bare path reads the stream in two pieces. -/
def directReads : List DirectLabel :=
  [.read 1, .read 5]

/-- The session reads the same stream in pieces of its own, and its thread lags behind. -/
def sessionReads : List ListeningLabel :=
  [.read 4, .stored, .tapped, .sent, .read 2, .poll, .stored, .tapped, .sent, .poll]

theorem hears_alike_silence :
    ∃ d s,
      (directPath soundVad exactFloats silenceSegmenter 16000 2 stereoStream).run
          (.start exactFloats silenceSegmenter 16000 stereoStream) directReads = some d ∧
        (sessionPath soundVad exactFloats silenceSegmenter 16000 2 stereoStream).run
            (.start exactFloats silenceSegmenter 16000 2 stereoStream) sessionReads = some s ∧
          d.wait.verdict = some (.ended .silence) ∧ s.wait.verdict = some (.ended .silence) ∧
            (d.wait.heard <+: s.wait.heard ∨ s.wait.heard <+: d.wait.heard) := by
  have hdirect : (((directPath soundVad exactFloats silenceSegmenter 16000 2 stereoStream).run
      (.start exactFloats silenceSegmenter 16000 stereoStream) directReads).map
        fun d => d.wait.verdict) = some (some (.ended .silence)) := by
    decide +kernel
  have hsession : (((sessionPath soundVad exactFloats silenceSegmenter 16000 2 stereoStream).run
      (.start exactFloats silenceSegmenter 16000 2 stereoStream) sessionReads).map
        fun s => s.wait.verdict) = some (some (.ended .silence)) := by
    decide +kernel
  have hdrop : (sessionPath soundVad exactFloats silenceSegmenter 16000 2 stereoStream).Meets
      Listening.NoDrop (.start exactFloats silenceSegmenter 16000 2 stereoStream) sessionReads := by
    decide +kernel
  obtain ⟨d, hd, hdv⟩ := Option.map_eq_some_iff.1 hdirect
  obtain ⟨s, hs, hsv⟩ := Option.map_eq_some_iff.1 hsession
  have hreached : Listener.Reached soundVad exactFloats silenceSegmenter 16000 2 stereoStream
      (.direct d) := ⟨_, hd⟩
  have hreached' : Listener.Reached soundVad exactFloats silenceSegmenter 16000 2 stereoStream
      (.session s) := ⟨_, hdrop, hs⟩
  exact ⟨d, s, hd, hs, hdv, hsv, (hears_alike hreached hreached').1⟩

end DialF.Audio
