import Mathlib.Data.List.Induction
import DialF.Audio.Turn

/-!
# What the turn detector detects

The detector is fed one decision for each hop. What it is to report is said of the decisions alone:
the onset is the first run of `k` voiced hops, and the turn ends with the first run of `s` unvoiced
hops behind the onset or at the cap of `T` hops, whichever comes first (`Reports`). Where the onset
is on the hop of the cap, the cap moves on by one hop (`deadline`).

`Phase` relates a detector to the decisions it has been fed, and `phase_push` says what one more
decision does: it keeps the phase and is reported as it should be. `meetsSpec_new` is the result
for whole sequences.
-/

set_option autoImplicit false

namespace DialF.Audio

open DialF.Lib
open DialF.Jobs (TurnConfig EndReason)

variable {P : Type}

/-! ## The specification -/

/-- The hops end with the first run of `k` voiced ones. -/
def Onset (k : Nat) (hops : List Bool) : Prop :=
  List.replicate k true <:+ hops ∧
    ∀ earlier, earlier <+: hops → List.replicate k true <:+ earlier → earlier = hops

/-- Where a turn ends at the latest whose onset is on the given hop. -/
def deadline (T onset : Nat) : Nat :=
  if onset < T then T else T + 1

/-- What is to be reported on the last of the hops. -/
inductive Reports (k s T : Nat) (hops : List Bool) : TurnEvent → Prop where
  | speechStarted : Onset k hops → hops.length ≤ T → Reports k s T hops .speechStarted
  | silence {onset : List Bool} : Onset k onset → onset.length ≤ T → onset <+: hops →
      List.replicate s false <:+ hops →
        (∀ earlier, onset <+: earlier → earlier <+: hops → List.replicate s false <:+ earlier →
          earlier = hops) →
          hops.length ≤ deadline T onset.length → Reports k s T hops (.ended .silence)
  | timeout : hops.length = T → (∀ earlier, earlier <+: hops → ¬ Onset k earlier) →
      Reports k s T hops (.ended .timeout)
  | timeoutBehind {onset : List Bool} : Onset k onset → onset.length ≤ T → onset <+: hops →
      hops.length = deadline T onset.length →
        (∀ earlier, onset <+: earlier → earlier <+: hops → ¬ List.replicate s false <:+ earlier) →
          Reports k s T hops (.ended .timeout)

/-- The event on each hop. -/
def TurnDetector.events (d : TurnDetector) : List Bool → List (Option TurnEvent)
  | [] => []
  | voiced :: hops => (d.push voiced).2 :: (d.push voiced).1.events hops

/-- What is made of the hops is what is to be reported; speech starts at most once, and where there
are hops enough the turn ends, once and for good. -/
structure MeetsSpec (k s T : Nat) (events : List Bool → List (Option TurnEvent)) : Prop where
  length : ∀ hops, (events hops).length = hops.length
  reports : ∀ hops i, i < hops.length → ∀ e,
    (events hops)[i]? = some (some e) ↔ Reports k s T (hops.take (i + 1)) e
  once : ∀ (hops : List Bool) (i j : Nat), (events hops)[i]? = some (some TurnEvent.speechStarted) →
    (events hops)[j]? = some (some TurnEvent.speechStarted) → i = j
  ends : ∀ hops, T + 1 ≤ hops.length → ∃ i ≤ T, ∃ reason,
    (events hops)[i]? = some (some (TurnEvent.ended reason)) ∧
      (∀ j reason', (events hops)[j]? = some (some (TurnEvent.ended reason')) → j = i) ∧
        ∀ j, i < j → j < hops.length → (events hops)[j]? = some none

/-! ## Runs of hops -/

section Runs

variable {k s T : Nat} {hops more : List Bool} {v : Bool} {n : Nat}

/-- The run that the hops end with is of `n` decisions `v`. -/
def Trail (v : Bool) (hops : List Bool) (n : Nat) : Prop :=
  ∀ m, List.replicate m v <:+ hops ↔ m ≤ n

theorem trail_nil (v : Bool) : Trail v [] 0 := by
  intro m
  rw [List.suffix_nil, List.replicate_eq_nil_iff, Nat.le_zero]

theorem replicate_suffix_concat_iff {m : Nat} {w : Bool} :
    List.replicate (m + 1) v <:+ hops ++ [w] ↔ w = v ∧ List.replicate m v <:+ hops := by
  rw [List.replicate_succ', List.suffix_concat_iff]
  constructor
  · rintro (h | ⟨front, h, hsuffix⟩)
    · simp at h
    · obtain ⟨rfl, hv⟩ := List.append_inj' h rfl
      exact ⟨(List.singleton_inj.1 hv).symm, hsuffix⟩
  · rintro ⟨rfl, h⟩
    exact Or.inr ⟨_, rfl, h⟩

theorem Trail.concat (h : Trail v hops n) : Trail v (hops ++ [v]) (n + 1) := by
  intro m
  cases m with
  | zero => simp
  | succ m => rw [replicate_suffix_concat_iff, h m, Nat.succ_le_succ_iff, and_iff_right rfl]

theorem Trail.broken {w : Bool} (hw : w ≠ v) : Trail v (hops ++ [w]) 0 := by
  intro m
  cases m with
  | zero => simp
  | succ m =>
      rw [replicate_suffix_concat_iff]
      exact iff_of_false (fun h => hw h.1) (Nat.not_succ_le_zero m)

/-- Two hops at which the first run is complete are one. -/
theorem Onset.unique {onset onset' : List Bool} (h : Onset k onset) (h' : Onset k onset')
    (hp : onset <+: hops) (hp' : onset' <+: hops) : onset = onset' := by
  rcases List.prefix_or_prefix_of_prefix hp hp' with hle | hle
  · exact h'.2 onset hle h.1
  · exact (h.2 onset' hle h'.1).symm

theorem lt_deadline {onset : Nat} (h : onset ≤ T) : onset < deadline T onset := by
  rw [deadline]
  split <;> omega

theorem deadline_le {onset : Nat} : deadline T onset ≤ T + 1 := by
  rw [deadline]
  split <;> omega

theorem le_deadline {onset : Nat} : T ≤ deadline T onset := by
  rw [deadline]
  split <;> omega

theorem Reports.length_le {e : TurnEvent} (h : Reports k s T hops e) : hops.length ≤ T + 1 := by
  cases h with
  | speechStarted _ hle => omega
  | silence _ _ _ _ _ hle => exact hle.trans deadline_le
  | timeout heq _ => omega
  | timeoutBehind _ _ _ heq _ => exact heq ▸ deadline_le

/-- Hops do not end with both runs. -/
theorem not_both_suffix (hk : 1 ≤ k) (hs : 1 ≤ s) (hvoiced : List.replicate k true <:+ hops)
    (hsilent : List.replicate s false <:+ hops) : False := by
  obtain ⟨k, rfl⟩ := Nat.exists_eq_add_of_le' hk
  obtain ⟨s, rfl⟩ := Nat.exists_eq_add_of_le' hs
  rcases List.eq_nil_or_concat hops with rfl | ⟨hops, v, rfl⟩
  · simp at hvoiced
  · rw [List.concat_eq_append, replicate_suffix_concat_iff] at hvoiced hsilent
    exact absurd (hvoiced.1.symm.trans hsilent.1) (by simp)

/-- **Nothing is to be reported behind the end**, and nothing else at it. -/
theorem Reports.eq_of_ended (hk : 1 ≤ k) (hs : 1 ≤ s) {ended : List Bool} {reason : EndReason}
    {e : TurnEvent} (h : Reports k s T ended (.ended reason)) (hp : ended <+: hops)
    (he : Reports k s T hops e) : ended = hops ∧ e = .ended reason := by
  cases h with
  | silence honset hle hon hrun hfirst hlast =>
      cases he with
      | speechStarted honset' hle' =>
          obtain rfl := honset.unique honset' (hon.trans hp) (List.prefix_refl _)
          obtain rfl := hp.eq_of_length_le hon.length_le
          exact (not_both_suffix hk hs honset.1 hrun).elim
      | silence honset' hle' hon' hrun' hfirst' hlast' =>
          obtain rfl := honset.unique honset' (hon.trans hp) hon'
          exact ⟨hfirst' ended hon hp hrun, rfl⟩
      | timeout heq hnone => exact absurd honset (hnone _ (hon.trans hp))
      | timeoutBehind honset' hle' hon' heq hnone =>
          obtain rfl := honset.unique honset' (hon.trans hp) hon'
          exact absurd hrun (hnone _ hon hp)
  | timeout heq hnone =>
      -- an onset that is not behind the cap is in the hops up to the cap
      have hin : ∀ onset, Onset k onset → onset.length ≤ T → onset <+: hops → False := by
        intro onset honset hle hon
        exact hnone onset (List.prefix_of_prefix_length_le hon hp (heq ▸ hle)) honset
      cases he with
      | speechStarted honset hle => exact (hin _ honset hle (List.prefix_refl _)).elim
      | silence honset hle hon => exact (hin _ honset hle hon).elim
      | timeout heq' => exact ⟨hp.eq_of_length (heq.trans heq'.symm), rfl⟩
      | timeoutBehind honset hle hon => exact (hin _ honset hle hon).elim
  | timeoutBehind honset hle hon heq hnone =>
      cases he with
      | speechStarted honset' hle' =>
          obtain rfl := honset.unique honset' (hon.trans hp) (List.prefix_refl _)
          obtain rfl := hp.eq_of_length_le hon.length_le
          have hlt := lt_deadline hle
          omega
      | silence honset' hle' hon' hrun' hfirst' hlast' =>
          obtain rfl := honset.unique honset' (hon.trans hp) hon'
          obtain rfl := hp.eq_of_length_le (heq ▸ hlast')
          exact absurd hrun' (hnone _ hon hp)
      | timeout heq' hnone' => exact absurd honset (hnone' _ (hon.trans hp))
      | timeoutBehind honset' hle' hon' heq' hnone' =>
          obtain rfl := honset.unique honset' (hon.trans hp) hon'
          exact ⟨hp.eq_of_length (heq.trans heq'.symm), rfl⟩

end Runs

/-! ## The detector -/

/-- A detector that has been fed the hops: it waits for the onset, or for the end of the turn, or
has reported the end. -/
inductive Phase (k s T : Nat) (hops : List Bool) : TurnDetector → Prop where
  | waiting {d : TurnDetector} : d.finished = false → d.started = false →
      hops.length < max T 1 → Trail true hops d.voicedRun →
        (∀ earlier, earlier <+: hops → ¬ List.replicate k true <:+ earlier) →
          d.elapsedHops = hops.length → d.silenceRun = 0 → Phase k s T hops d
  | speaking {d : TurnDetector} {onset : List Bool} : d.finished = false → d.started = true →
      Onset k onset → onset.length ≤ max T 1 → onset <+: hops →
        hops.length < deadline (max T 1) onset.length → Trail false hops d.silenceRun →
          (∀ earlier, onset <+: earlier → earlier <+: hops →
            ¬ List.replicate (max s 1) false <:+ earlier) →
            d.elapsedHops = hops.length → Phase k s T hops d
  | closed {d : TurnDetector} {ended : List Bool} {reason : EndReason} : d.finished = true →
      Reports k (max s 1) (max T 1) ended (.ended reason) → ended <+: hops → Phase k s T hops d

/-- The hop counts that a detector has been built with. -/
structure Needs (k s T : Nat) (d : TurnDetector) : Prop where
  onset : d.onsetHopsNeeded = k
  silence : d.silenceHopsNeeded = s
  timeout : d.timeoutHops = T

section Push

variable {k s T : Nat} {hops : List Bool} {d : TurnDetector}

theorem Needs.push (h : Needs k s T d) (voiced : Bool) : Needs k s T (d.push voiced).1 := by
  obtain ⟨rfl, rfl, rfl⟩ := h
  simp only [TurnDetector.push, TurnDetector.cap]
  split
  · exact ⟨rfl, rfl, rfl⟩
  · split
    · split
      · split
        · exact ⟨rfl, rfl, rfl⟩
        · split <;> exact ⟨rfl, rfl, rfl⟩
      · split <;> exact ⟨rfl, rfl, rfl⟩
    · split
      · split <;> exact ⟨rfl, rfl, rfl⟩
      · split
        · exact ⟨rfl, rfl, rfl⟩
        · split <;> exact ⟨rfl, rfl, rfl⟩

/-- One event at most is to be reported on a hop. -/
theorem Reports.unique (hk : 1 ≤ k) (hs : 1 ≤ s) {e e' : TurnEvent} (h : Reports k s T hops e)
    (h' : Reports k s T hops e') : e = e' := by
  cases e with
  | speechStarted =>
      cases e' with
      | speechStarted => rfl
      | ended reason => exact (h'.eq_of_ended hk hs (List.prefix_refl _) h).2
  | ended reason => exact (h.eq_of_ended hk hs (List.prefix_refl _) h').2.symm

/-- The detector has come to this by the last of the hops, and has reported it as it should be. -/
def Right (k s T : Nat) (hops : List Bool) (r : TurnDetector × Option TurnEvent) : Prop :=
  Phase k s T hops r.1 ∧ ∀ e, r.2 = some e ↔ Reports k (max s 1) (max T 1) hops e

theorem right_of_some (hk : 1 ≤ k) {e : TurnEvent} (hphase : Phase k s T hops d)
    (he : Reports k (max s 1) (max T 1) hops e) : Right k s T hops (d, some e) := by
  refine ⟨hphase, fun e' => ?_⟩
  constructor
  · intro h
    exact Option.some.inj h ▸ he
  · intro h
    rw [he.unique hk (Nat.le_max_right s 1) h]

theorem right_of_none (hphase : Phase k s T hops d)
    (hnone : ∀ e, ¬ Reports k (max s 1) (max T 1) hops e) : Right k s T hops (d, none) :=
  ⟨hphase, fun e => iff_of_false (by simp) (hnone e)⟩

/-- No onset so far: the cap, or the turn goes on. -/
theorem right_cap_of_waiting (hk : 1 ≤ k) (hneeds : Needs k s T d) (hfinished : d.finished = false)
    (hstarted : d.started = false) (hle : hops.length ≤ max T 1) (hpos : 1 ≤ hops.length)
    (htrail : Trail true hops d.voicedRun)
    (hnone : ∀ earlier, earlier <+: hops → ¬ List.replicate k true <:+ earlier)
    (helapsed : d.elapsedHops = hops.length) (hsilence : d.silenceRun = 0) :
    Right k s T hops d.cap := by
  have honset : ∀ earlier, earlier <+: hops → ¬ Onset k earlier :=
    fun earlier hp h => hnone earlier hp h.1
  rw [TurnDetector.cap, hneeds.timeout, helapsed]
  split
  · rename_i hcap
    have hlen : hops.length = max T 1 := by omega
    have htimeout : Reports k (max s 1) (max T 1) hops (.ended .timeout) := .timeout hlen honset
    exact right_of_some hk (.closed rfl htimeout (List.prefix_refl _)) htimeout
  · rename_i hcap
    refine right_of_none
      (.waiting hfinished hstarted (by omega) htrail hnone helapsed hsilence) ?_
    rintro e (⟨h, -⟩ | ⟨h, -, hp, -⟩ | ⟨hlen, -⟩ | ⟨h, -, hp, -⟩)
    · exact honset hops (List.prefix_refl _) h
    · exact honset _ hp h
    · omega
    · exact honset _ hp h

/-- Behind the onset, and not silent for long enough: the cap, or the turn goes on. -/
theorem right_cap_of_speaking (hk : 1 ≤ k) {onset : List Bool} (hneeds : Needs k s T d)
    (hfinished : d.finished = false) (hstarted : d.started = true) (honset : Onset k onset)
    (hle : onset.length ≤ max T 1) (hon : onset <+: hops) (hlt : onset.length < hops.length)
    (hlast : hops.length ≤ deadline (max T 1) onset.length) (htrail : Trail false hops d.silenceRun)
    (hnone : ∀ earlier, onset <+: earlier → earlier <+: hops →
      ¬ List.replicate (max s 1) false <:+ earlier)
    (helapsed : d.elapsedHops = hops.length) : Right k s T hops d.cap := by
  rw [TurnDetector.cap, hneeds.timeout, helapsed]
  split
  · rename_i hcap
    have hlen : hops.length = deadline (max T 1) onset.length := by
      rw [deadline] at hlast ⊢
      split at hlast <;> split <;> omega
    have htimeout : Reports k (max s 1) (max T 1) hops (.ended .timeout) :=
      .timeoutBehind honset hle hon hlen hnone
    exact right_of_some hk (.closed rfl htimeout (List.prefix_refl _)) htimeout
  · rename_i hcap
    have hbefore : hops.length < deadline (max T 1) onset.length := by
      have hcap' : max T 1 ≤ deadline (max T 1) onset.length := le_deadline
      omega
    refine right_of_none
      (.speaking hfinished hstarted honset hle hon hbefore htrail hnone helapsed) ?_
    rintro e (⟨h, -⟩ | ⟨h, -, hp, hrun, -⟩ | ⟨-, h⟩ | ⟨h, -, hp, hlen, -⟩)
    · have heq := honset.unique h hon (List.prefix_refl _)
      rw [heq] at hlt
      exact Nat.lt_irrefl _ hlt
    · exact hnone hops hon (List.prefix_refl _) hrun
    · exact h onset hon honset
    · rw [honset.unique h hon hp] at hbefore
      exact Nat.lt_irrefl _ (hlen ▸ hbefore)

theorem push_of_waiting (hk : 1 ≤ k) (hneeds : Needs k s T d) (hfinished : d.finished = false)
    (hstarted : d.started = false) (hlt : hops.length < max T 1)
    (htrail : Trail true hops d.voicedRun)
    (hnone : ∀ earlier, earlier <+: hops → ¬ List.replicate k true <:+ earlier)
    (helapsed : d.elapsedHops = hops.length) (hsilence : d.silenceRun = 0) (voiced : Bool) :
    Right k s T (hops ++ [voiced]) (d.push voiced) := by
  have hlength : (hops ++ [voiced]).length = hops.length + 1 := by simp
  have helapsed' : d.elapsedHops + 1 = (hops ++ [voiced]).length := by rw [hlength, helapsed]
  cases voiced with
  | true =>
      have htrail' := htrail.concat
      simp only [TurnDetector.push, hfinished, hstarted, hneeds.onset]
      by_cases hrun : k ≤ d.voicedRun + 1
      · -- the first run: there was none in the hops before this one
        have honset : Onset k (hops ++ [true]) := by
          refine ⟨(htrail' k).2 hrun, fun earlier hp h => ?_⟩
          rcases List.prefix_concat_iff.1 hp with rfl | hp
          · rfl
          · exact absurd h (hnone earlier hp)
        have hzero : Trail false (hops ++ [true]) d.silenceRun := hsilence ▸ Trail.broken (by simp)
        have hstart : Reports k (max s 1) (max T 1) (hops ++ [true]) .speechStarted :=
          .speechStarted honset (by omega)
        simp only [hrun, if_true]
        refine right_of_some hk (.speaking rfl rfl honset (by omega) (List.prefix_refl _)
          (lt_deadline (by omega)) hzero ?_ helapsed') hstart
        intro earlier hp hp' h
        obtain rfl := hp.eq_of_length_le hp'.length_le
        exact not_both_suffix hk (Nat.le_max_right s 1) honset.1 h
      · simp only [hrun, if_false]
        refine right_cap_of_waiting hk ⟨rfl, hneeds.silence, hneeds.timeout⟩ rfl rfl (by omega)
          (by omega) htrail' ?_ helapsed' hsilence
        intro earlier hp h
        rcases List.prefix_concat_iff.1 hp with rfl | hp
        · exact hrun ((htrail' k).1 h)
        · exact hnone earlier hp h
  | false =>
      have htrail' : Trail true (hops ++ [false]) 0 := Trail.broken (by simp)
      simp only [TurnDetector.push, hfinished, hstarted]
      refine right_cap_of_waiting hk ⟨hneeds.onset, hneeds.silence, hneeds.timeout⟩ rfl rfl (by omega)
        (by omega) htrail' ?_ helapsed' hsilence
      intro earlier hp h
      rcases List.prefix_concat_iff.1 hp with rfl | hp
      · have := (htrail' k).1 h
        omega
      · exact hnone earlier hp h

theorem push_of_speaking (hk : 1 ≤ k) {onset : List Bool} (hneeds : Needs k s T d)
    (hfinished : d.finished = false) (hstarted : d.started = true) (honset : Onset k onset)
    (hle : onset.length ≤ max T 1) (hon : onset <+: hops)
    (hlast : hops.length < deadline (max T 1) onset.length) (htrail : Trail false hops d.silenceRun)
    (hnone : ∀ earlier, onset <+: earlier → earlier <+: hops →
      ¬ List.replicate (max s 1) false <:+ earlier)
    (helapsed : d.elapsedHops = hops.length) (voiced : Bool) :
    Right k s T (hops ++ [voiced]) (d.push voiced) := by
  have hlength : (hops ++ [voiced]).length = hops.length + 1 := by simp
  have helapsed' : d.elapsedHops + 1 = (hops ++ [voiced]).length := by rw [hlength, helapsed]
  have hon' : onset <+: hops ++ [voiced] := hon.trans (List.prefix_append _ _)
  have hlt : onset.length < (hops ++ [voiced]).length := by
    have := hon.length_le
    omega
  cases voiced with
  | true =>
      have htrail' : Trail false (hops ++ [true]) 0 := Trail.broken (by simp)
      simp only [TurnDetector.push, hfinished, hstarted]
      refine right_cap_of_speaking hk ⟨hneeds.onset, hneeds.silence, hneeds.timeout⟩ rfl rfl honset hle
        hon' hlt (by omega) htrail' ?_ helapsed'
      intro earlier hp hp' h
      rcases List.prefix_concat_iff.1 hp' with rfl | hp'
      · have := (htrail' _).1 h
        omega
      · exact hnone earlier hp hp' h
  | false =>
      have htrail' := htrail.concat
      simp only [TurnDetector.push, hfinished, hstarted, hneeds.silence]
      by_cases hrun : s ≤ d.silenceRun + 1
      · -- silence goes before the cap
        have hsilent : List.replicate (max s 1) false <:+ hops ++ [false] :=
          (htrail' _).2 (by omega)
        have hsilence : Reports k (max s 1) (max T 1) (hops ++ [false]) (.ended .silence) := by
          refine .silence honset hle hon' hsilent ?_ (by omega)
          intro earlier hp hp' h
          rcases List.prefix_concat_iff.1 hp' with rfl | hp'
          · rfl
          · exact absurd h (hnone earlier hp hp')
        simp only [hrun, if_true]
        exact right_of_some hk (.closed rfl hsilence (List.prefix_refl _)) hsilence
      · simp only [hrun, if_false]
        refine right_cap_of_speaking hk ⟨hneeds.onset, rfl, hneeds.timeout⟩ rfl rfl honset hle hon' hlt
          (by omega) htrail' ?_ helapsed'
        intro earlier hp hp' h
        rcases List.prefix_concat_iff.1 hp' with rfl | hp'
        · have := (htrail' _).1 h
          omega
        · exact hnone earlier hp hp' h

/-- **One hop**: the phase is kept, and what is reported is what is to be reported. -/
theorem phase_push (hk : 1 ≤ k) (hneeds : Needs k s T d) (h : Phase k s T hops d) (voiced : Bool) :
    Right k s T (hops ++ [voiced]) (d.push voiced) := by
  cases h with
  | waiting hfinished hstarted hlt htrail hnone helapsed hsilence =>
      exact push_of_waiting hk hneeds hfinished hstarted hlt htrail hnone helapsed hsilence voiced
  | speaking hfinished hstarted honset hle hon hlast htrail hnone helapsed =>
      exact push_of_speaking hk hneeds hfinished hstarted honset hle hon hlast htrail hnone helapsed
        voiced
  | @closed ended reason hfinished hended hp =>
      have hpush : d.push voiced = (d, none) := by rw [TurnDetector.push, if_pos hfinished]
      have hp' : ended <+: hops ++ [voiced] := hp.trans (List.prefix_append _ _)
      rw [hpush]
      refine right_of_none (.closed hfinished hended hp') fun e he => ?_
      obtain ⟨heq, -⟩ := hended.eq_of_ended hk (Nat.le_max_right s 1) hp' he
      have hlen := hp.length_le
      rw [heq, List.length_append, List.length_singleton] at hlen
      omega

theorem phase_start (hk : 1 ≤ k) (hfinished : d.finished = false)
    (hstarted : d.started = false) (hvoiced : d.voicedRun = 0) (hsilence : d.silenceRun = 0)
    (helapsed : d.elapsedHops = 0) : Phase k s T [] d := by
  refine .waiting hfinished hstarted (by simp) (hvoiced ▸ trail_nil true) ?_ helapsed hsilence
  intro earlier hp h
  rw [List.prefix_nil.1 hp, trail_nil true k] at h
  omega

end Push

/-! ## Sequences of hops -/

section Events

variable {k s T : Nat} {d : TurnDetector}

/-- The detector after the hops. -/
def TurnDetector.fed (d : TurnDetector) (hops : List Bool) : TurnDetector :=
  hops.foldl (fun d voiced => (d.push voiced).1) d

theorem length_events (d : TurnDetector) (hops : List Bool) :
    (d.events hops).length = hops.length := by
  induction hops generalizing d with
  | nil => rfl
  | cons voiced hops ih => rw [TurnDetector.events, List.length_cons, ih, List.length_cons]

/-- The event on a hop is that of the detector after the hops before it. -/
theorem getElem?_events (d : TurnDetector) (hops : List Bool) (i : Nat) :
    (d.events hops)[i]? = hops[i]?.map fun voiced => ((d.fed (hops.take i)).push voiced).2 := by
  induction hops generalizing d i with
  | nil => rfl
  | cons voiced hops ih =>
      cases i with
      | zero => rfl
      | succ i =>
          rw [TurnDetector.events, List.getElem?_cons_succ, ih, List.getElem?_cons_succ,
            List.take_succ_cons]
          rfl

/-- **A run of hops** leads from phase to phase. -/
theorem phase_fed (hk : 1 ≤ k) (hneeds : Needs k s T d) (h : Phase k s T [] d) (hops : List Bool) :
    Needs k s T (d.fed hops) ∧ Phase k s T hops (d.fed hops) := by
  induction hops using List.reverseRecOn with
  | nil => exact ⟨hneeds, h⟩
  | append_singleton hops voiced ih =>
      have hfed : d.fed (hops ++ [voiced]) = ((d.fed hops).push voiced).1 := by
        rw [TurnDetector.fed, List.foldl_append]
        rfl
      rw [hfed]
      exact ⟨ih.1.push voiced, (phase_push hk ih.1 ih.2 voiced).1⟩

theorem reports_events (hk : 1 ≤ k) (hneeds : Needs k s T d) (h : Phase k s T [] d)
    {hops : List Bool} {i : Nat} (hi : i < hops.length) (e : TurnEvent) :
    (d.events hops)[i]? = some (some e) ↔
      Reports k (max s 1) (max T 1) (hops.take (i + 1)) e := by
  obtain ⟨hneeds', hphase⟩ := phase_fed hk hneeds h (hops.take i)
  have hpush := (phase_push hk hneeds' hphase hops[i]).2 e
  rw [getElem?_events, List.getElem?_eq_getElem hi, Option.map_some, Option.some_inj, hpush,
    List.take_append_getElem hi]

theorem lt_length_of_events {hops : List Bool} {i : Nat} {o : Option TurnEvent}
    (h : (d.events hops)[i]? = some o) : i < hops.length :=
  length_events d hops ▸ (List.getElem?_eq_some_iff.1 h).1

/-- Behind the hop that is the last at the latest, the turn has ended. -/
theorem exists_ended (hk : 1 ≤ k) (hneeds : Needs k s T d) (h : Phase k s T [] d) {hops : List Bool}
    (hlen : max T 1 + 1 ≤ hops.length) :
    ∃ ended reason, ended <+: hops ∧
      Reports k (max s 1) (max T 1) ended (.ended reason) := by
  obtain ⟨-, hphase⟩ := phase_fed hk hneeds h hops
  cases hphase with
  | waiting _ _ hlt => omega
  | speaking _ _ _ _ _ hlt => exact absurd (hlt.trans_le deadline_le) (Nat.not_lt_of_le hlen)
  | closed _ hended hp => exact ⟨_, _, hp, hended⟩

theorem Reports.ne_nil (hk : 1 ≤ k) (hT : 1 ≤ T) {hops : List Bool} {e : TurnEvent}
    (h : Reports k s T hops e) : hops ≠ [] := by
  rintro rfl
  have hnot : ∀ onset, onset <+: [] → ¬ Onset k onset := by
    intro onset hp honset
    rw [List.prefix_nil.1 hp] at honset
    have := (trail_nil true k).1 honset.1
    omega
  cases h with
  | speechStarted honset => exact hnot _ (List.prefix_refl _) honset
  | silence honset _ hp => exact hnot _ hp honset
  | timeout hlen => simp at hlen; omega
  | timeoutBehind honset _ hp => exact hnot _ hp honset

end Events

/-- **The turn detector meets its specification**, for every configuration. -/
theorem meetsSpec_new (F : Floats P) (cfg : TurnConfig) :
    1 ≤ (TurnDetector.new F cfg).onsetHopsNeeded ∧
      MeetsSpec (TurnDetector.new F cfg).onsetHopsNeeded
        (max (TurnDetector.new F cfg).silenceHopsNeeded 1)
        (max (TurnDetector.new F cfg).timeoutHops 1) (TurnDetector.new F cfg).events := by
  have hk : 1 ≤ (TurnDetector.new F cfg).onsetHopsNeeded := Nat.le_max_right _ 1
  have hneeds : Needs (TurnDetector.new F cfg).onsetHopsNeeded
      (TurnDetector.new F cfg).silenceHopsNeeded (TurnDetector.new F cfg).timeoutHops
      (TurnDetector.new F cfg) := ⟨rfl, rfl, rfl⟩
  have hstart : Phase (TurnDetector.new F cfg).onsetHopsNeeded
      (TurnDetector.new F cfg).silenceHopsNeeded (TurnDetector.new F cfg).timeoutHops []
      (TurnDetector.new F cfg) := phase_start hk rfl rfl rfl rfl rfl
  refine ⟨hk, length_events _, ?_, ?_, ?_⟩
  · intro hops i hi e
    exact reports_events hk hneeds hstart hi e
  · intro hops i j hi hj
    have hi' := lt_length_of_events hi
    have hj' := lt_length_of_events hj
    rw [reports_events hk hneeds hstart hi'] at hi
    rw [reports_events hk hneeds hstart hj'] at hj
    cases hi with
    | speechStarted honset =>
        cases hj with
        | speechStarted honset' =>
            have heq := congrArg List.length
              (honset.unique honset' (List.take_prefix _ _) (List.take_prefix _ _))
            rw [List.length_take, List.length_take] at heq
            omega
  · intro hops hlen
    obtain ⟨ended, reason, hp, hended⟩ := exists_ended hk hneeds hstart hlen
    have hpos := List.length_pos_of_ne_nil (hended.ne_nil hk (Nat.le_max_right _ 1))
    have hle := hended.length_le
    have hple := hp.length_le
    have htake : hops.take (ended.length - 1 + 1) = ended := by
      rw [Nat.sub_add_cancel hpos]
      exact (List.prefix_iff_eq_take.1 hp).symm
    have hi : ended.length - 1 < hops.length := by omega
    refine ⟨ended.length - 1, by omega, reason, ?_, ?_, ?_⟩
    · rw [reports_events hk hneeds hstart hi, htake]
      exact hended
    · intro j reason' hj
      have hj' := lt_length_of_events hj
      rw [reports_events hk hneeds hstart hj'] at hj
      have heq : ended = hops.take (j + 1) := by
        rcases List.prefix_or_prefix_of_prefix hp (List.take_prefix (j + 1) hops) with hle | hle
        · exact (hended.eq_of_ended hk (Nat.le_max_right _ 1) hle hj).1
        · exact (hj.eq_of_ended hk (Nat.le_max_right _ 1) hle hended).1.symm
      have hlength := congrArg List.length heq
      rw [List.length_take] at hlength
      omega
    · intro j hij hj
      rw [List.getElem?_eq_getElem (by rwa [length_events])]
      congr 1
      rw [Option.eq_none_iff_forall_ne_some]
      intro e he
      have hevent : ((TurnDetector.new F cfg).events hops)[j]? = some (some e) := by
        rw [List.getElem?_eq_getElem (by rwa [length_events]), he]
      rw [reports_events hk hneeds hstart hj] at hevent
      have hple' : ended <+: hops.take (j + 1) :=
        List.prefix_of_prefix_length_le hp (List.take_prefix _ _) (by rw [List.length_take]; omega)
      have hlength := congrArg List.length
        (hended.eq_of_ended hk (Nat.le_max_right _ 1) hple' hevent).1
      rw [List.length_take] at hlength
      omega

end DialF.Audio
