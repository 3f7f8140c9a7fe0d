import DialF.Audio.Record

/-!
# Alignment of a recording

However the captured chunks interleave with the prompts of the job, the three tracks of a recording
line up (`Aligned`): rx is the captured stream in whole frames, tx has every prompt at the clock it
was pushed at or behind the prompt before it, with silence around them, and the mix is channel 0 of
both, frame by frame.

`rxTrack_step` and `txTrack_step` say what one step preserves, with what has been captured and what
has been pushed so far; `aligned_of_run` is the result for runs.
-/

set_option autoImplicit false

namespace DialF.Audio

open DialF.Lib

variable {P : Type}

/-! ## What a recording is to be -/

/-- Where prompts go that were pushed at given clocks, and where the first free frame is. -/
def place (ch : Nat) : Nat → List (Nat × List Int16) → List (Nat × List Int16) × Nat
  | free, [] => ([], free)
  | free, (clock, prompt) :: rest =>
      let start := max clock free
      let (placed, last) := place ch (start + prompt.length / ch) rest
      ((start, prompt) :: placed, last)

/-- What a step captures. -/
def captures (_ : DuplexSession P) : RecordLabel → List Int16
  | .capture (.captured buf) => buf
  | _ => []

/-- The prompt that a step pushes, and the clock then. -/
def pushes (s : DuplexSession P) : RecordLabel → List (Nat × List Int16)
  | .job (.pushTx samples) => [(s.rxLen, samples)]
  | _ => []

/-- Index `i` of the samples is in a prompt. -/
def InPrompt (ch i : Nat) (x : Nat × List Int16) : Prop :=
  x.1 * ch ≤ i ∧ i < x.1 * ch + x.2.length

/-- A track with each of its prompts complete where it was placed, and silence elsewhere. -/
structure Laid (ch : Nat) (placed : List (Nat × List Int16)) (samples : List Int16) : Prop where
  prompts : ∀ x ∈ placed, ∀ j < x.2.length, samples[x.1 * ch + j]? = x.2[j]?
  silence : ∀ i < samples.length, (∀ x ∈ placed, ¬ InPrompt ch i x) → samples[i]? = some 0

/-- Mix frame `i` is frame `i` of both legs, of each its channel 0. -/
structure Mixed (ch : Nat) (txLeft : Bool) (tx rx mix : List Int16) (frames : Nat) : Prop where
  length : mix.length = 2 * frames
  left : ∀ i < frames, mix[2 * i]? = if txLeft then tx[i * ch]? else rx[i * ch]?
  right : ∀ i < frames, mix[2 * i + 1]? = if txLeft then rx[i * ch]? else tx[i * ch]?

/-- **A recording that lines up**, of a captured stream and of prompts pushed at given clocks. -/
structure Aligned (ch : Nat) (mix txLeft : Bool) (captured : List Int16)
    (pushed : List (Nat × List Int16)) (out : RecordOutput) : Prop where
  shape : out.rx.channels = ch ∧ out.tx.channels = ch
  rx : ∃ k, out.rx.samples =
    captured.take (captured.length / ch * ch) ++ List.replicate k 0
  tx : Laid ch (place ch 0 pushed).1 out.tx.samples
  frames : ∃ n, out.rx.samples.length = n * ch ∧ out.tx.samples.length = n * ch ∧
    (mix = false → out.mix = none) ∧
    (mix = true → ∃ m, out.mix = some m ∧ m.channels = 2 ∧
      Mixed ch txLeft out.tx.samples out.rx.samples m.samples n)

/-! ## Padding and mixing -/

namespace WavFileSink

@[simp] theorem channels_write (sink : WavFileSink) (samples : List Int16) :
    (sink.write samples).channels = sink.channels := rfl

@[simp] theorem sampleRate_write (sink : WavFileSink) (samples : List Int16) :
    (sink.write samples).sampleRate = sink.sampleRate := rfl

@[simp] theorem samples_write (sink : WavFileSink) (samples : List Int16) :
    (sink.write samples).samples = sink.samples ++ samples := rfl

theorem padBy_eq (sink : WavFileSink) (remaining : Nat) :
    sink.padBy remaining = sink.write (List.replicate remaining 0) := by
  fun_induction padBy sink remaining with
  | case1 sink remaining h chunk ih =>
      have hchunk : chunk + (remaining - chunk) = remaining := by omega
      rw [ih, write, write, write]
      simp only [List.append_assoc, List.replicate_append_replicate, hchunk]
  | case2 sink remaining h =>
      obtain rfl : remaining = 0 := by omega
      simp [write]

theorem padTo_eq (sink : WavFileSink) («have» want : Nat) :
    sink.padTo «have» want =
      sink.write (List.replicate ((want - «have») * max sink.channels 1) 0) := by
  rw [padTo]
  split
  · rename_i h
    rw [Nat.sub_eq_zero_of_le h, Nat.zero_mul]
    simp [write]
  · rw [padBy_eq]

end WavFileSink

theorem mixed_mixLoop (txLeft : Bool) (tx rx : List Int16) (h : tx.length = rx.length) :
    Mixed 1 txLeft tx rx (mixLoop txLeft tx rx) tx.length := by
  induction tx generalizing rx with
  | nil =>
      obtain rfl := List.length_eq_zero_iff.1 h.symm
      exact ⟨by simp [mixLoop], by simp, by simp⟩
  | cons t tx ih =>
      cases rx with
      | nil => simp at h
      | cons r rx =>
          obtain ⟨hlength, hleft, hright⟩ := ih rx (by simpa using h)
          rw [mixLoop]
          refine ⟨?_, ?_, ?_⟩
          · cases txLeft <;> simp [mixFrame, hlength] <;> omega
          · intro i hi
            cases i with
            | zero => cases txLeft <;> simp [mixFrame]
            | succ i =>
                have := hleft i (by simpa using hi)
                cases txLeft <;> simpa [mixFrame, Nat.mul_add] using this
          · intro i hi
            cases i with
            | zero => cases txLeft <;> simp [mixFrame]
            | succ i =>
                have := hright i (by simpa using hi)
                cases txLeft <;> simpa [mixFrame, Nat.mul_add] using this

/-! ## What a step does -/

/-- What the tracks are made of is the same. -/
structure SameRx (s t : DuplexSession P) : Prop where
  srcChannels : t.thread.srcChannels = s.thread.srcChannels
  rx : t.thread.rx = s.thread.rx
  carry : t.thread.carry = s.thread.carry
  total : t.thread.total = s.thread.total

/-- Two sessions that agree on everything of the tx side, the clock included. -/
structure SameTx (s t : DuplexSession P) : Prop where
  tx : t.tx = s.tx
  txLen : t.txLen = s.txLen
  mix : t.mix = s.mix
  mixTxLeft : t.mixTxLeft = s.mixTxLeft

/-- A step reads, pushes a prompt, or does nothing to the tracks. -/
inductive Effect (s : DuplexSession P) : RecordLabel → DuplexSession P → Prop where
  | reads (buf : List Int16) :
      Effect s (.capture (.captured buf)) { s with thread := s.thread.read buf }
  | prompts (samples : List Int16) : Effect s (.job (.pushTx samples)) (s.pushTx samples)
  | other {a : RecordLabel} {t : DuplexSession P} : captures s a = [] → pushes s a = [] →
      SameRx s t → SameTx s t → Effect s a t

section Steps

variable {F : Floats P} {rate channels : Nat} {mix txLeft : Bool} {s t : DuplexSession P}

theorem sameRx_tap (chunk : List Int16) (active : Bool) :
    SameRx s { s with thread := s.thread.tap F chunk active } := by
  simp only [CaptureThread.tap]
  split
  · split <;> exact ⟨rfl, rfl, rfl, rfl⟩
  · exact ⟨rfl, rfl, rfl, rfl⟩

theorem effect_captureStep {a : CaptureLabel} (h : s.captureStep F a = some t) :
    Effect s (.capture a) t := by
  cases DuplexSession.captureStep_eq_some h with
  | captured => exact .reads _
  | tapped => exact .other rfl rfl (sameRx_tap _ s.vadActive) ⟨rfl, rfl, rfl, rfl⟩
  | eof | stored | sent => exact .other rfl rfl ⟨rfl, rfl, rfl, rfl⟩ ⟨rfl, rfl, rfl, rfl⟩

theorem effect_jobStep {b : JobLabel} (h : s.jobStep b = some t) : Effect s (.job b) t := by
  cases b with
  | pushTx samples =>
      obtain rfl := Option.some.inj h
      exact .prompts samples
  | vadDrained | vadArmed | vadEnd | finish =>
      obtain rfl := Option.some.inj h
      exact .other rfl rfl ⟨rfl, rfl, rfl, rfl⟩ ⟨rfl, rfl, rfl, rfl⟩
  | vadRecv =>
      cases hqueue : s.vadRx <;> simp only [DuplexSession.jobStep, hqueue] at h
      case nil => simp at h
      case cons =>
        obtain rfl := Option.some.inj h
        exact .other rfl rfl ⟨rfl, rfl, rfl, rfl⟩ ⟨rfl, rfl, rfl, rfl⟩

theorem effect_of_step {a : RecordLabel}
    (h : (recording F rate channels mix txLeft).step s a = some t) : Effect s a t := by
  cases a with
  | capture a => exact effect_captureStep h
  | job b => exact effect_jobStep (Option.ite_none_left_eq_some.1 h).2

end Steps

/-! ## The rx track -/

/-- The rx track and the remainder behind it are what has been captured. -/
structure RxTrack (ch : Nat) (captured : List Int16) (s : DuplexSession P) : Prop where
  srcChannels : s.thread.srcChannels = ch
  channels : s.thread.rx.channels = ch
  samples : s.thread.rx.samples ++ s.thread.carry = captured
  carry : s.thread.carry.length < ch
  total : s.thread.rx.samples.length = s.thread.total * ch

section Rx

variable {ch : Nat} {captured : List Int16} {s t : DuplexSession P}

/-- What is cut into whole frames is what was there, in whole frames but for less than one. -/
theorem wholeFrames_spec (hch : 0 < ch) {carry : List Int16} (buf : List Int16)
    (hcarry : carry.length < ch) :
    (wholeFrames ch carry buf).1 ++ (wholeFrames ch carry buf).2 = carry ++ buf ∧
      (wholeFrames ch carry buf).2.length < ch ∧
        (wholeFrames ch carry buf).1.length / ch * ch = (wholeFrames ch carry buf).1.length := by
  rw [wholeFrames]
  split
  · rename_i h
    obtain ⟨rfl, hmod⟩ := h
    exact ⟨by simp, hcarry, Nat.div_mul_cancel (Nat.dvd_of_mod_eq_zero hmod)⟩
  · have hmod := Nat.mod_lt (carry ++ buf).length hch
    have hdiv := Nat.div_add_mod' (carry ++ buf).length ch
    refine ⟨List.take_append_drop _ _, ?_, ?_⟩
    · rw [List.length_drop]
      omega
    · rw [List.length_take, Nat.min_eq_left (by omega), Nat.mul_div_cancel _ hch]

theorem rxTrack_read (hch : 0 < ch) (buf : List Int16) (h : RxTrack ch captured s) :
    RxTrack ch (captured ++ buf) { s with thread := s.thread.read buf } := by
  obtain ⟨rfl, hchannels, hsamples, hcarry, htotal⟩ := h
  obtain ⟨hsplit, hrest, hwhole⟩ := wholeFrames_spec hch buf hcarry
  simp only [CaptureThread.read]
  split
  · rename_i hempty
    rw [hempty, List.nil_append] at hsplit
    refine ⟨rfl, hchannels, ?_, hrest, htotal⟩
    rw [hsplit, ← List.append_assoc, hsamples]
  · refine ⟨rfl, hchannels, ?_, hrest, ?_⟩
    · rw [WavFileSink.samples_write, List.append_assoc, hsplit, ← List.append_assoc, hsamples]
    · rw [WavFileSink.samples_write, List.length_append, htotal, Nat.add_mul, hwhole]

theorem rxTrack_of_effect {a : RecordLabel} (hch : 0 < ch) (h : RxTrack ch captured s)
    (he : Effect s a t) : RxTrack ch (captured ++ captures s a) t := by
  cases he with
  | reads buf => exact rxTrack_read hch buf h
  | prompts samples =>
      rw [show captures s (.job (.pushTx samples)) = [] from rfl, List.append_nil]
      exact ⟨h.srcChannels, h.channels, h.samples, h.carry, h.total⟩
  | other hnone _ hrx _ =>
      rw [hnone, List.append_nil]
      refine ⟨hrx.srcChannels.trans h.srcChannels, ?_, ?_, ?_, ?_⟩
      · rw [hrx.rx, h.channels]
      · rw [hrx.rx, hrx.carry, h.samples]
      · rw [hrx.carry]
        exact h.carry
      · rw [hrx.rx, hrx.total, h.total]

theorem rxTrack_start {F : Floats P} {rate channels : Nat} {mix txLeft : Bool} :
    RxTrack (max channels 1) [] (.start F rate channels mix txLeft) where
  srcChannels := rfl
  channels := rfl
  samples := rfl
  carry := by
    show 0 < max channels 1
    omega
  total := by simp [DuplexSession.start, WavFileSink.create]

/-- What has been written is the stream in whole frames. -/
theorem RxTrack.eq_take (hch : 0 < ch) (h : RxTrack ch captured s) :
    s.thread.rx.samples = captured.take (captured.length / ch * ch) := by
  have hlen : captured.length / ch * ch = s.thread.rx.samples.length := by
    rw [← h.samples, List.length_append, h.total, Nat.add_comm, Nat.add_mul_div_right _ _ hch,
      Nat.div_eq_of_lt h.carry, Nat.zero_add]
  rw [hlen, ← h.samples, List.take_left]

end Rx

/-! ## The tx track -/

/-- The tx track is the prompts pushed so far, each where it was placed. -/
structure TxTrack (ch : Nat) (pushed : List (Nat × List Int16)) (s : DuplexSession P) : Prop where
  channels : s.tx.channels = ch
  length : s.tx.samples.length = s.txLen * ch
  txLen : s.txLen = (place ch 0 pushed).2
  laid : Laid ch (place ch 0 pushed).1 s.tx.samples

section Tx

variable {ch : Nat} {pushed : List (Nat × List Int16)} {s t : DuplexSession P}

theorem place_append (free clock : Nat) (prompt : List Int16) :
    place ch free (pushed ++ [(clock, prompt)]) =
      ((place ch free pushed).1 ++ [(max clock (place ch free pushed).2, prompt)],
        max clock (place ch free pushed).2 + prompt.length / ch) := by
  induction pushed generalizing free with
  | nil => rfl
  | cons x pushed ih => simp [place, ih]

variable {placed : List (Nat × List Int16)} {samples : List Int16}

theorem txTrack_start {F : Floats P} {rate channels : Nat} {mix txLeft : Bool} :
    TxTrack (max channels 1) [] (.start F rate channels mix txLeft) where
  channels := rfl
  length := by simp [DuplexSession.start, WavFileSink.create]
  txLen := rfl
  laid :=
    { prompts := by simp [place]
      silence := by simp [DuplexSession.start, WavFileSink.create] }

/-- What is complete stays so when the track gets longer. -/
theorem Laid.getElem?_append (h : Laid ch placed samples) (more : List Int16)
    {x : Nat × List Int16} (hx : x ∈ placed) {j : Nat} (hj : j < x.2.length) :
    (samples ++ more)[x.1 * ch + j]? = x.2[j]? := by
  have hget := h.prompts x hx j hj
  rw [List.getElem?_eq_getElem hj] at hget
  obtain ⟨hlt, -⟩ := List.getElem?_eq_some_iff.1 hget
  rw [List.getElem?_append_left hlt, hget, List.getElem?_eq_getElem hj]

theorem Laid.pad (k : Nat) (h : Laid ch placed samples) :
    Laid ch placed (samples ++ List.replicate k 0) where
  prompts x hx j hj := h.getElem?_append _ hx hj
  silence := by
    intro i hi hfree
    by_cases hlt : i < samples.length
    · rw [List.getElem?_append_left hlt]
      exact h.silence i hlt hfree
    · rw [List.length_append, List.length_replicate] at hi
      rw [List.getElem?_append_right (Nat.le_of_not_lt hlt), List.getElem?_replicate,
        if_pos (by omega)]

theorem Laid.push {start : Nat} (prompt : List Int16) (h : Laid ch placed samples)
    (hlen : samples.length = start * ch) :
    Laid ch (placed ++ [(start, prompt)]) (samples ++ prompt) where
  prompts := by
    intro x hx j hj
    rcases List.mem_append.1 hx with hx | hx
    · exact h.getElem?_append _ hx hj
    · obtain rfl := List.mem_singleton.1 hx
      rw [← hlen, List.getElem?_append_right (Nat.le_add_right _ _), Nat.add_sub_cancel_left]
  silence := by
    intro i hi hfree
    have hlt : i < samples.length := by
      refine Nat.lt_of_not_le fun hle => hfree (start, prompt) (by simp) ⟨hlen ▸ hle, ?_⟩
      rwa [List.length_append, hlen] at hi
    rw [List.getElem?_append_left hlt]
    exact h.silence i hlt fun x hx => hfree x (List.mem_append_left _ hx)

theorem channels_padTo (sink : WavFileSink) («have» want : Nat) :
    (sink.padTo «have» want).channels = sink.channels := by
  rw [WavFileSink.padTo_eq, WavFileSink.channels_write]

theorem sampleRate_padTo (sink : WavFileSink) («have» want : Nat) :
    (sink.padTo «have» want).sampleRate = sink.sampleRate := by
  rw [WavFileSink.padTo_eq, WavFileSink.sampleRate_write]

/-- Padding up to a frame leaves the track with that many frames, or with those it had. -/
theorem length_padTo {sink : WavFileSink} {«have» : Nat} (want : Nat) (hch : 0 < sink.channels)
    (hlen : sink.samples.length = «have» * sink.channels) :
    (sink.padTo «have» want).samples.length = max «have» want * sink.channels := by
  rw [WavFileSink.padTo_eq, WavFileSink.samples_write, List.length_append, List.length_replicate,
    hlen, Nat.max_eq_left hch, ← Nat.add_mul]
  congr 1
  omega

theorem finalize_padTo {sink : WavFileSink} {«have» : Nat} (want : Nat) (hch : 0 < sink.channels)
    (hlen : sink.samples.length = «have» * sink.channels) :
    (sink.padTo «have» want).finalize = some (sink.padTo «have» want) := by
  rw [WavFileSink.finalize, if_pos]
  rw [length_padTo want hch hlen, channels_padTo]
  exact Nat.mul_mod_left _ _

theorem laid_padTo {sink : WavFileSink} («have» want : Nat)
    (h : Laid ch placed sink.samples) : Laid ch placed (sink.padTo «have» want).samples := by
  rw [WavFileSink.padTo_eq]
  exact h.pad _

theorem txTrack_pushTx (hch : 0 < ch) {prompt : List Int16} (hwhole : ch ∣ prompt.length)
    (h : TxTrack ch pushed s) : TxTrack ch (pushed ++ [(s.rxLen, prompt)]) (s.pushTx prompt) := by
  obtain ⟨rfl, hlength, htxLen, hlaid⟩ := h
  have hpad := length_padTo s.rxLen hch hlength
  have hmax : max s.txLen s.rxLen = max s.rxLen s.txLen := Nat.max_comm _ _
  have hchannels := channels_padTo s.tx s.txLen s.rxLen
  refine ⟨?_, ?_, ?_, ?_⟩
  · exact hchannels
  · simp only [DuplexSession.pushTx, WavFileSink.samples_write, List.length_append, hpad, hchannels,
      Nat.max_eq_left hch, Nat.add_mul, Nat.div_mul_cancel hwhole]
  · simp only [DuplexSession.pushTx, hchannels, Nat.max_eq_left hch, place_append, ← htxLen, hmax]
  · rw [place_append, ← htxLen]
    exact (laid_padTo s.txLen s.rxLen hlaid).push prompt (by rw [hpad, hmax])

/-- A prompt is whole frames. -/
def RecordLabel.Whole (ch : Nat) : RecordLabel → Prop
  | .job (.pushTx samples) => ch ∣ samples.length
  | _ => True

theorem txTrack_of_effect {a : RecordLabel} (hch : 0 < ch) (h : TxTrack ch pushed s)
    (hwhole : a.Whole ch) (he : Effect s a t) : TxTrack ch (pushed ++ pushes s a) t := by
  cases he with
  | reads buf =>
      rw [show pushes s (.capture (.captured buf)) = [] from rfl, List.append_nil]
      exact ⟨h.channels, h.length, h.txLen, h.laid⟩
  | prompts samples => exact txTrack_pushTx hch hwhole h
  | other _ hnone _ htx =>
      rw [hnone, List.append_nil]
      refine ⟨?_, ?_, ?_, ?_⟩
      · rw [htx.tx, h.channels]
      · rw [htx.tx, htx.txLen, h.length]
      · rw [htx.txLen, h.txLen]
      · rw [htx.tx]
        exact h.laid

end Tx

/-! ## The three tracks -/

section Runs

variable {F : Floats P} {rate channels ch : Nat} {mix txLeft : Bool} {s t : DuplexSession P}
variable {captured : List Int16} {pushed : List (Nat × List Int16)} {as : List RecordLabel}

/-- The shape of a session does not change. -/
structure Shape (rate : Nat) (mix txLeft : Bool) (s : DuplexSession P) : Prop where
  rx : s.thread.rx.sampleRate = rate
  tx : s.tx.sampleRate = rate
  mix : s.mix = mix
  txLeft : s.mixTxLeft = txLeft

theorem mixWavs_eq (txLeft : Bool) {tx rx : WavFileSink} {n : Nat} (hrate : tx.sampleRate = rx.sampleRate)
    (hch : 0 < ch) (htx : tx.channels = ch) (hrx : rx.channels = ch)
    (hlenTx : tx.samples.length = n * ch) (hlenRx : rx.samples.length = n * ch) :
    ∃ m, mixWavs tx rx txLeft = some m ∧ m.channels = 2 ∧
      Mixed ch txLeft tx.samples rx.samples m.samples n := by
  have hnTx : (stepBy ch tx.samples).length = n := length_stepBy hch hlenTx
  have hnRx : (stepBy ch rx.samples).length = n := length_stepBy hch hlenRx
  have hmixed := mixed_mixLoop txLeft (stepBy ch tx.samples) (stepBy ch rx.samples)
    (hnTx.trans hnRx.symm)
  rw [hnTx] at hmixed
  refine ⟨⟨rx.sampleRate, 2, mixLoop txLeft (stepBy ch tx.samples) (stepBy ch rx.samples)⟩, ?_, rfl,
    hmixed.length, ?_, ?_⟩
  · rw [mixWavs, if_pos hrate, htx, hrx, Nat.max_eq_left hch, WavFileSink.finalize, if_pos]
    · rfl
    · rw [WavFileSink.samples_write, List.nil_append, hmixed.length]
      exact Nat.mul_mod_right 2 n
  · intro i hi
    have hleft := hmixed.left i hi
    simpa only [Nat.mul_one, getElem?_stepBy hch] using hleft
  · intro i hi
    have hright := hmixed.right i hi
    simpa only [Nat.mul_one, getElem?_stepBy hch] using hright

theorem shape_of_effect {a : RecordLabel} (h : Shape rate mix txLeft s) (he : Effect s a t) :
    Shape rate mix txLeft t := by
  cases he with
  | reads buf =>
      refine ⟨?_, h.tx, h.mix, h.txLeft⟩
      rw [← h.rx]
      simp only [CaptureThread.read]
      split <;> rfl
  | prompts samples =>
      refine ⟨h.rx, ?_, h.mix, h.txLeft⟩
      rw [← h.tx, DuplexSession.pushTx, WavFileSink.sampleRate_write, sampleRate_padTo]
  | other _ _ hrx htx =>
      refine ⟨?_, ?_, htx.mix.trans h.mix, htx.mixTxLeft.trans h.txLeft⟩
      · rw [hrx.rx, h.rx]
      · rw [htx.tx, h.tx]

/-- **Finishing.** What is joined and padded lines up. -/
theorem finish_eq (hch : 0 < ch) (hrx : RxTrack ch captured s) (htx : TxTrack ch pushed s)
    (hshape : Shape rate mix txLeft s) (hfinishing : s.finishing = true)
    (hended : s.thread.stage = .ended) :
    ∃ out, s.finish = some out ∧ Aligned ch mix txLeft captured pushed out := by
  have hchRx : 0 < s.thread.rx.channels := hrx.channels.symm ▸ hch
  have hchTx : 0 < s.tx.channels := htx.channels.symm ▸ hch
  have htotalRx := hrx.channels.symm ▸ hrx.total
  have htotalTx := htx.channels.symm ▸ htx.length
  have hlenRx := length_padTo (max s.thread.total s.txLen) hchRx htotalRx
  have hlenTx := length_padTo (max s.thread.total s.txLen) hchTx htotalTx
  rw [hrx.channels, Nat.max_eq_right (Nat.le_max_left _ _)] at hlenRx
  rw [htx.channels, Nat.max_eq_right (Nat.le_max_right _ _)] at hlenTx
  have hrxSamples : ∃ k, (s.thread.rx.padTo s.thread.total (max s.thread.total s.txLen)).samples =
      captured.take (captured.length / ch * ch) ++ List.replicate k 0 := by
    rw [WavFileSink.padTo_eq, WavFileSink.samples_write, hrx.eq_take hch]
    exact ⟨_, rfl⟩
  have htxLaid := laid_padTo s.txLen (max s.thread.total s.txLen) htx.laid
  have hshapes := And.intro
    ((channels_padTo s.thread.rx s.thread.total (max s.thread.total s.txLen)).trans hrx.channels)
    ((channels_padTo s.tx s.txLen (max s.thread.total s.txLen)).trans htx.channels)
  rw [DuplexSession.finish, if_pos ⟨hfinishing, hended⟩]
  simp only [finalize_padTo _ hchRx htotalRx, finalize_padTo _ hchTx htotalTx, hshape.mix,
    hshape.txLeft]
  cases mix with
  | false =>
      exact ⟨_, rfl, hshapes, hrxSamples, htxLaid, _, hlenRx, hlenTx, fun _ => rfl, by simp⟩
  | true =>
      obtain ⟨m, hm, hchannels, hmixed⟩ := mixWavs_eq txLeft
        (by rw [sampleRate_padTo, sampleRate_padTo, hshape.tx, hshape.rx]) hch hshapes.2 hshapes.1
        hlenTx hlenRx
      rw [hm]
      exact ⟨_, rfl, hshapes, hrxSamples, htxLaid, _, hlenRx, hlenTx, by simp,
        fun _ => ⟨m, rfl, hchannels, hmixed⟩⟩

/-- While it finishes, a session does not listen. -/
theorem vadActive_of_run (hrun : (recording F rate channels mix txLeft).run
    (.start F rate channels mix txLeft) as = some t) (h : t.finishing = true) :
    t.vadActive = false := by
  refine Machine.run_invariant (M := recording F rate channels mix txLeft)
    (P := fun s => s.finishing = true → s.vadActive = false) ?_ (fun _ => rfl) hrun h
  intro s a t hs hstep ht
  cases a with
  | capture a => cases DuplexSession.captureStep_eq_some hstep <;> exact hs ht
  | job b =>
      obtain ⟨hnot, hstep⟩ := Option.ite_none_left_eq_some.1 hstep
      cases b with
      | finish =>
          obtain rfl := Option.some.inj hstep
          rfl
      | pushTx | vadDrained | vadArmed | vadEnd =>
          obtain rfl := Option.some.inj hstep
          exact absurd ht hnot
      | vadRecv =>
          cases hqueue : s.vadRx <;> simp only [DuplexSession.jobStep, hqueue] at hstep
          case nil => simp at hstep
          case cons =>
            obtain rfl := Option.some.inj hstep
            exact absurd ht hnot

/-- Steps that only close a recording. -/
def RecordLabel.Closing : RecordLabel → Prop
  | .capture (.captured _) => False
  | .capture _ => True
  | .job .finish => True
  | .job _ => False

theorem RecordLabel.Closing.whole {a : RecordLabel} (h : a.Closing) : a.Whole ch := by
  cases a with
  | capture a => trivial
  | job b =>
      cases b with
      | pushTx samples => exact h.elim
      | _ => trivial

/-- The session comes to its end by closing steps. -/
def Closes (F : Floats P) (rate channels : Nat) (mix txLeft : Bool) (s : DuplexSession P) : Prop :=
  ∃ bs u, (∀ b ∈ bs, b.Closing) ∧ (recording F rate channels mix txLeft).run s bs = some u ∧
    u.finishing = true ∧ u.thread.stage = .ended

theorem Closes.step (b : RecordLabel) (hb : b.Closing)
    (hstep : (recording F rate channels mix txLeft).step s b = some t)
    (h : Closes F rate channels mix txLeft t) : Closes F rate channels mix txLeft s := by
  obtain ⟨bs, u, hbs, hrun, hu⟩ := h
  refine ⟨b :: bs, u, ?_, ?_, hu⟩
  · intro c hc
    rcases List.mem_cons.1 hc with rfl | hc
    · exact hb
    · exact hbs c hc
  · rw [Machine.run, hstep]
    exact hrun

theorem closes_of_reading (hfinishing : s.finishing = true) (hstage : s.thread.stage = .reading) :
    Closes F rate channels mix txLeft s :=
  .step (.capture .eof) trivial (if_pos hstage) ⟨[], _, by simp, rfl, hfinishing, rfl⟩

theorem closes_of_clocked {chunk : List Int16} (hfinishing : s.finishing = true)
    (hactive : s.vadActive = false) (hstage : s.thread.stage = .clocked chunk) :
    Closes F rate channels mix txLeft s := by
  have hstep : (recording F rate channels mix txLeft).step s (.capture .tapped) =
      some { s with thread := s.thread.tap F chunk s.vadActive } := by
    simp only [recording, DuplexSession.captureStep, hstage]
  refine Closes.step (.capture .tapped) trivial hstep ?_
  apply closes_of_reading
  · exact hfinishing
  · simp [hactive, CaptureThread.tap]

/-- A session that finishes, and whose capture is not stuck, comes to its end. -/
theorem closes_of_finishing (hfinishing : s.finishing = true) (hactive : s.vadActive = false)
    (hstuck : s.thread.stage ≠ .stuck) : Closes F rate channels mix txLeft s := by
  cases hstage : s.thread.stage with
  | reading => exact closes_of_reading hfinishing hstage
  | wrote chunk =>
      have hstep : (recording F rate channels mix txLeft).step s (.capture .stored) =
          some { s with
            rxLen := s.thread.total, thread := { s.thread with stage := .clocked chunk } } := by
        simp only [recording, DuplexSession.captureStep, hstage]
      refine Closes.step (.capture .stored) trivial hstep ?_
      apply closes_of_clocked
      · exact hfinishing
      · exact hactive
      · rfl
  | clocked chunk => exact closes_of_clocked hfinishing hactive hstage
  | tapped frame =>
      have hstep : (recording F rate channels mix txLeft).step s (.capture .sent) =
          some { s with
            vadRx := if s.vadRx.length < vadChannelBound then s.vadRx ++ [frame] else s.vadRx
            thread := { s.thread with stage := .reading } } := by
        simp only [recording, DuplexSession.captureStep, hstage]
      refine Closes.step (.capture .sent) trivial hstep ?_
      apply closes_of_reading
      · exact hfinishing
      · rfl
  | stuck => exact absurd hstage hstuck
  | ended => exact ⟨[], s, by simp, rfl, hfinishing, hstage⟩

/-- Where a run has finished and its capture has ended, it returns a recording that lines up. -/
theorem exists_aligned_of_run (hwhole : ∀ a ∈ as, a.Whole (max channels 1))
    (hrun : (recording F rate channels mix txLeft).run (.start F rate channels mix txLeft) as = some t)
    (hfinishing : t.finishing = true) (hended : t.thread.stage = .ended) :
    ∃ out, t.finish = some out ∧
      Aligned (max channels 1) mix txLeft
        ((recording F rate channels mix txLeft).collect captures (.start F rate channels mix txLeft) as)
        ((recording F rate channels mix txLeft).collect pushes (.start F rate channels mix txLeft) as)
        out := by
  have hch : 0 < max channels 1 := by omega
  have hrx : RxTrack (max channels 1) _ t :=
    Machine.run_collect (M := recording F rate channels mix txLeft) (R := RxTrack (max channels 1))
      captures (fun seen s a t h _ hstep => rxTrack_of_effect hch h (effect_of_step hstep)) []
      rxTrack_start (Machine.meets_true _ _) hrun
  have htx : TxTrack (max channels 1) _ t :=
    Machine.run_collect (M := recording F rate channels mix txLeft) (R := TxTrack (max channels 1))
      pushes (fun seen s a t h hok hstep => txTrack_of_effect hch h hok (effect_of_step hstep)) []
      txTrack_start (Machine.meets_of_forall hwhole _) hrun
  have hshape : Shape rate mix txLeft t :=
    Machine.run_invariant (fun s a t h hstep => shape_of_effect h (effect_of_step hstep))
      ⟨rfl, rfl, rfl, rfl⟩ hrun
  exact finish_eq hch hrx htx hshape hfinishing hended

/-- **Recordings line up.** However the captured chunks, of any sizes, interleave with prompts of
whole frames, what `finish` returns lines up; and where the capture is not stuck, `finish` returns
once the capture has come to its end. -/
theorem aligned_of_run (hwhole : ∀ a ∈ as, a.Whole (max channels 1))
    (hrun : (recording F rate channels mix txLeft).run (.start F rate channels mix txLeft) as =
      some t) :
    (∀ out, t.finish = some out →
      Aligned (max channels 1) mix txLeft
        ((recording F rate channels mix txLeft).collect captures (.start F rate channels mix txLeft) as)
        ((recording F rate channels mix txLeft).collect pushes (.start F rate channels mix txLeft) as)
        out) ∧
      (t.thread.stage ≠ .stuck → ∃ bs u out, (∀ b ∈ bs, b.Closing) ∧
        (recording F rate channels mix txLeft).run t bs = some u ∧ u.finish = some out) := by
  constructor
  · intro out hout
    have hdone : t.finishing = true ∧ t.thread.stage = .ended := by
      rw [DuplexSession.finish] at hout
      split at hout
      · assumption
      · simp at hout
    obtain ⟨out', hout', haligned⟩ := exists_aligned_of_run hwhole hrun hdone.1 hdone.2
    obtain rfl := Option.some.inj (hout'.symm.trans hout)
    exact haligned
  · intro hstuck
    have hcloses : Closes F rate channels mix txLeft t := by
      cases hfinishing : t.finishing with
      | true => exact closes_of_finishing hfinishing (vadActive_of_run hrun hfinishing) hstuck
      | false =>
          have hstep : (recording F rate channels mix txLeft).step t (.job .finish) =
              some { t with vadActive := false, finishing := true } := by
            simp [recording, hfinishing, DuplexSession.jobStep]
          refine Closes.step (.job .finish) trivial hstep ?_
          apply closes_of_finishing
          · rfl
          · rfl
          · exact hstuck
    obtain ⟨bs, u, hbs, hrun', hfinishing, hended⟩ := hcloses
    have hall : ∀ a ∈ as ++ bs, a.Whole (max channels 1) := by
      intro a ha
      rcases List.mem_append.1 ha with ha | ha
      · exact hwhole a ha
      · exact (hbs a ha).whole
    have hrunAll : (recording F rate channels mix txLeft).run
        (.start F rate channels mix txLeft) (as ++ bs) = some u := by
      rw [Machine.run_append, hrun]
      exact hrun'
    obtain ⟨out, hout, -⟩ := exists_aligned_of_run hall hrunAll hfinishing hended
    exact ⟨bs, u, out, hbs, hrun', hout⟩

end Runs

/-- Two chunks of a stereo capture that end within a frame, and two prompts. -/
def stereoRun : List RecordLabel :=
  [.job (.pushTx [9, 9]), .capture (.captured [1, 2, 3]), .capture .stored, .capture .tapped,
    .capture (.captured [4, 5]), .capture .stored, .job (.pushTx [7, 7, 8, 8]), .capture .tapped,
    .job .finish, .capture .eof]

theorem aligned_stereoRun :
    ∃ t, (recording exactFloats 16000 2 true true).run (.start exactFloats 16000 2 true true)
        stereoRun = some t ∧
      Aligned 2 true true [1, 2, 3, 4, 5] [(0, [9, 9]), (2, [7, 7, 8, 8])]
        ⟨⟨16000, 2, [1, 2, 3, 4, 0, 0, 0, 0]⟩, ⟨16000, 2, [9, 9, 0, 0, 7, 7, 8, 8]⟩,
          some ⟨16000, 2, [9, 1, 0, 3, 7, 0, 8, 0]⟩⟩ := by
  have hwhole : ∀ a ∈ stereoRun, a.Whole (max 2 1) := by
    simp [stereoRun, RecordLabel.Whole]
  have hrun : (recording exactFloats 16000 2 true true).run (.start exactFloats 16000 2 true true)
        stereoRun = some ⟨⟨16000, 2, ⟨16000, 2, [1, 2, 3, 4]⟩, .passthrough, [5], 2, false, .ended⟩,
          2, false, [], ⟨16000, 2, [9, 9, 0, 0, 7, 7, 8, 8]⟩, 4, true, true, true⟩ := by
    decide +kernel
  refine ⟨_, hrun, ?_⟩
  exact (aligned_of_run hwhole hrun).1 _ (by decide +kernel)

end DialF.Audio
