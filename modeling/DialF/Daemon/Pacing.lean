import DialF.Daemon.AdbLink
import Mathlib.Algebra.Order.Group.Nat

/-!
# The pace of `adb connect`

A check of an endpoint may run `adb connect` only when the back-off of the link lets it. What
happens is written down with its time (`Happened`): that a check has been started, that it runs
`adb connect`, and what it has come to. `Failures` reads from that the failures in a row, with
nothing of the back-off in it; `paced` says that the link keeps the same count, and that no
`adb connect` starts earlier than the failures in a row allow, in every run on a clock that does not
go back. A device never has two checks in flight, and its link is busy exactly while it has one.
-/

set_option autoImplicit false

namespace DialF.Daemon.Adb

open DialF.Lib

/-! ## What happens -/

/-- What is seen of a check from outside. -/
inductive Happened where
  /-- A check of an endpoint is started. -/
  | started (device endpoint : String)
  /-- It runs `adb connect`. -/
  | connects (device : String) (time : Nat)
  /-- It is complete; with no state, nothing new was learned. -/
  | ended (device : String) (state : Option AdbState) (time : Nat)
  deriving DecidableEq

/-- The failures in a row with an endpoint, and when the last one was. -/
structure Failures where
  endpoint : Option String
  count : Nat
  last : Nat
  deriving DecidableEq

namespace Failures

/-- No failure so far. -/
def start : Failures := ⟨none, 0, 0⟩

/-- A success, or another endpoint, and nothing else, sets the count back. -/
def next (device : String) (f : Failures) : Happened → Failures
  | .started device' endpoint =>
      if device' = device then
        if f.endpoint = some endpoint then f else ⟨some endpoint, 0, f.last⟩
      else f
  | .connects _ _ => f
  | .ended device' state time =>
      if device' = device then
        match state with
        | none => f
        | some .connected => { f with count := 0 }
        | some .available => { f with count := 0 }
        | some _ => { f with count := f.count + 1, last := time }
      else f

/-- Those of a device, after what has happened. -/
def of (device : String) (history : List Happened) : Failures := history.foldl (next device) start

/-- The time that is waited after so many failures in a row, in milliseconds. -/
def wait (count : Nat) : Nat := min (30000 * 2 ^ (count - 1)) 300000

/-- An `adb connect` may start. -/
def Allows (f : Failures) (time : Nat) : Prop := 0 < f.count → f.last + wait f.count ≤ time

/-- The back-off that these failures come to. -/
def backoff (f : Failures) : Backoff :=
  match f.count with
  | 0 => .start
  | k + 1 => ⟨wait (k + 2), some (f.last + wait (k + 1))⟩

theorem ready_backoff_iff {f : Failures} {now : Nat} :
    f.backoff.ready now = true ↔ f.Allows now := by
  rw [backoff, Allows]
  cases f.count with
  | zero => simp [Backoff.ready, Backoff.start]
  | succ k => simp [Backoff.ready]

/-- One failure more. -/
theorem failed_backoff (f : Failures) (now : Nat) :
    f.backoff.failed now = (⟨f.endpoint, f.count + 1, now⟩ : Failures).backoff := by
  rw [backoff, backoff]
  cases f.count with
  | zero => rfl
  | succ k =>
      have hdouble : min (wait (k + 2) * 2) Backoff.maxRetry = wait (k + 3) := by
        have hpow : 2 ^ (k + 2) = 2 ^ (k + 1) * 2 := Nat.pow_succ ..
        simp only [wait, show k + 2 - 1 = k + 1 from rfl, show k + 3 - 1 = k + 2 from rfl, hpow,
          Backoff.maxRetry]
        omega
      show (⟨min (wait (k + 2) * 2) Backoff.maxRetry, some (now + wait (k + 2))⟩ : Backoff) = _
      rw [hdouble]

theorem of_snoc (device : String) (history : List Happened) (h : Happened) :
    of device (history ++ [h]) = next device (of device history) h :=
  List.foldl_concat ..

theorem next_ended_of_ne {device device' : String} (h : device' ≠ device) (f : Failures)
    (state : Option AdbState) (time : Nat) : f.next device (.ended device' state time) = f := by
  cases state with
  | none => simp [next]
  | some state => cases state <;> simp [next, h]

theorem next_ended_failed {state : AdbState} (hconnected : state ≠ .connected)
    (havailable : state ≠ .available) (f : Failures) (device : String) (time : Nat) :
    f.next device (.ended device (some state) time) = ⟨f.endpoint, f.count + 1, time⟩ := by
  cases state with
  | connected => exact absurd rfl hconnected
  | available => exact absurd rfl havailable
  | _ => simp [next]

end Failures

/-! ## Runs with a clock -/

/-- The label, on a clock. -/
def Label.told (now : Nat) : Label → Label
  | .handle device _ => .handle device now
  | .release j _ => .release j now
  | a => a

namespace Links

/-- The link of a device; the default one where there is none. -/
def link (s : Links) (device : String) : Link := (s.links.lookup device).getD .start

/-- What a step lets happen. -/
def happened (cfg : Settings) (s : Links) (now : Nat) : Label → List Happened
  | .handle device _ =>
      match s.handling.lookup device with
      | some (.link endpoint _) =>
          if (s.link device).busy then [] else [.started device endpoint]
      | _ => []
  | .drive j (.adb true) =>
      match s.checks[j]? with
      | some c =>
          if c.phase = .connecting ∧ cfg.autoconnect = true then [.connects c.device now] else []
      | none => []
  | .release j _ =>
      match s.checks[j]? with
      | some c =>
          match c.phase with
          | .done outcome => [.ended c.device (outcome.map AdbStatus.state) now]
          | _ => []
      | none => []
  | _ => []

/-- The check is one of the device, and it still has the link. -/
def ofDevice (device : String) (c : Check) : Bool := decide (c.device = device) && c.holds

/-- The checks of a device that are in flight; the one that is about to start is one of them. -/
def inFlight (s : Links) (device : String) : Nat :=
  s.checks.countP (ofDevice device) + ((s.handling.lookup device).bind Stage.check).toList.length

end Links

/-- The daemon, the time, and what has happened. -/
structure Timed where
  links : Links
  now : Nat
  history : List Happened

/-- Runs on a clock that does not go back. -/
def timed (cfg : Settings) : Machine Timed (Nat × Label) where
  Init s := (Links.machine cfg).Init s.links ∧ s.history = []
  step s a :=
    if s.now ≤ a.1 then
      (Links.step cfg s.links (a.2.told a.1)).map fun links =>
        ⟨links, a.1, s.history ++ s.links.happened cfg a.1 a.2⟩
    else none

/-! ## The invariant -/

/-- What holds of the links at a time, after what has happened. -/
structure Links.Paced (s : Links) (now : Nat) (history : List Happened) : Prop where
  one : ∀ device, s.inFlight device = if (s.link device).busy then 1 else 0
  fresh : ∀ device stage check, s.handling.lookup device = some stage → stage.check = some check →
    check.device = device ∧ check.phase = .listing ∧
      (check.mayConnect = true → (s.link device).backoff.ready now = true)
  may : ∀ c ∈ s.checks, c.holds = true → c.mayConnect = true →
    (s.link c.device).backoff.ready now = true
  asked : ∀ c ∈ s.checks, c.phase = .connecting → c.mayConnect = true
  kept : ∀ device, (s.link device).endpoint = (Failures.of device history).endpoint ∧
    (s.link device).backoff = (Failures.of device history).backoff
  connects : ∀ before device time behind, history = before ++ .connects device time :: behind →
    (Failures.of device before).Allows time

theorem Backoff.ready_mono {b : Backoff} {now later : Nat} (h : b.ready now = true)
    (hle : now ≤ later) : b.ready later = true := by
  rw [Backoff.ready] at h ⊢
  cases hb : b.notBefore with
  | none => rfl
  | some t =>
      rw [hb] at h
      have ht : t ≤ now := of_decide_eq_true h
      exact decide_eq_true (ht.trans hle)

/-- A list that ends in one element more, split at an element. -/
theorem append_singleton_split {α : Type} {l before behind : List α} {a b : α}
    (h : l ++ [a] = before ++ b :: behind) :
    l = before ∧ a = b ∧ behind = [] ∨ ∃ behind', behind = behind' ++ [a] ∧
      l = before ++ b :: behind' := by
  rcases List.eq_nil_or_concat behind with rfl | ⟨behind', x, rfl⟩
  · obtain ⟨rfl, hab⟩ := List.append_inj' h rfl
    exact Or.inl ⟨rfl, List.singleton_inj.1 hab, rfl⟩
  · right
    rw [List.concat_eq_append, ← List.cons_append, ← List.append_assoc] at h
    obtain ⟨rfl, hab⟩ := List.append_inj' h rfl
    exact ⟨behind', by rw [List.singleton_inj.1 hab, List.concat_eq_append], rfl⟩

namespace Links

variable {s t : Links} {now now' : Nat} {history : List Happened} {cfg : Settings}

namespace Paced

/-- A step that leaves the links as they are, and takes up no new check. -/
theorem still (h : s.Paced now history) (hle : now ≤ now')
    (hlink : ∀ device, t.link device = s.link device)
    (hone : ∀ device, t.inFlight device = s.inFlight device)
    (hfresh : ∀ device stage check, t.handling.lookup device = some stage →
      stage.check = some check →
        ∃ stage', s.handling.lookup device = some stage' ∧ stage'.check = some check)
    (hmay : ∀ c ∈ t.checks, c.holds = true →
      (∃ c' ∈ s.checks, c'.holds = true ∧ c'.device = c.device ∧ c'.mayConnect = c.mayConnect) ∨
        ∃ stage, s.handling.lookup c.device = some stage ∧ stage.check = some c)
    (hasked : ∀ c ∈ t.checks, c.phase = .connecting → c.mayConnect = true) :
    t.Paced now' history where
  one device := by rw [hone, hlink, h.one]
  fresh device stage check hstage hcheck := by
    obtain ⟨stage', hstage', hcheck'⟩ := hfresh device stage check hstage hcheck
    obtain ⟨hdevice, hphase, hready⟩ := h.fresh device stage' check hstage' hcheck'
    rw [hlink]
    exact ⟨hdevice, hphase, fun hmay => Backoff.ready_mono (hready hmay) hle⟩
  may c hc hholds hmayc := by
    rw [hlink]
    rcases hmay c hc hholds with ⟨c', hc', hholds', hdevice, hsame⟩ | ⟨stage, hstage, hcheck⟩
    · rw [← hdevice]
      exact Backoff.ready_mono (h.may c' hc' hholds' (hsame.trans hmayc)) hle
    · exact Backoff.ready_mono ((h.fresh _ stage c hstage hcheck).2.2 hmayc) hle
  asked := hasked
  kept device := by
    rw [hlink]
    exact h.kept device
  connects := h.connects

/-- An `adb connect` starts that the link allows. -/
theorem connect {device : String} (h : s.Paced now history)
    (hready : (s.link device).backoff.ready now = true) :
    s.Paced now (history ++ [.connects device now]) where
  one := h.one
  fresh := h.fresh
  may := h.may
  asked := h.asked
  kept device' := by
    rw [Failures.of_snoc]
    exact h.kept device'
  connects before device' time behind hsplit := by
    rcases append_singleton_split hsplit with ⟨rfl, heq, -⟩ | ⟨behind', -, hold⟩
    · obtain ⟨rfl, rfl⟩ := Happened.connects.inj heq
      rw [(h.kept device).2] at hready
      exact Failures.ready_backoff_iff.1 hready
    · exact h.connects before device' time behind' hold

theorem later (h : s.Paced now history) (hle : now ≤ now') : s.Paced now' history :=
  h.still hle (fun _ => rfl) (fun _ => rfl) (fun _ stage _ hstage hcheck => ⟨stage, hstage, hcheck⟩)
    (fun c hc hholds => Or.inl ⟨c, hc, hholds, rfl, rfl⟩) h.asked

end Paced

/-! ## Steps -/

@[simp] theorem link_setStatus {device : String} {status : AdbStatus} (device' : String) :
    (s.setStatus device status).link device' = s.link device' := by
  rw [link, link, setStatus_links]

@[simp] theorem inFlight_setStatus {device : String} {status : AdbStatus} (device' : String) :
    (s.setStatus device status).inFlight device' = s.inFlight device' := by
  rw [inFlight, inFlight, setStatus_checks, setStatus_handling]

theorem Paced.setStatus {device : String} {status : AdbStatus} (h : s.Paced now history) :
    (s.setStatus device status).Paced now history := by
  apply h.still (Nat.le_refl now)
  · exact link_setStatus
  · exact inFlight_setStatus
  · rw [setStatus_handling]
    exact fun _ stage _ hstage hcheck => ⟨stage, hstage, hcheck⟩
  · rw [setStatus_checks]
    exact fun c hc hholds => Or.inl ⟨c, hc, hholds, rfl, rfl⟩
  · rw [setStatus_checks]
    exact h.asked

/-- Where a stage is put in the place of one with the same check, or of none. -/
theorem inFlight_insert {device : String} {stage : Stage} {links : AList fun _ : String => Link}
    (h : stage.check = (s.handling.lookup device).bind Stage.check) (device' : String) :
    ({ s with links, handling := s.handling.insert device stage } : Links).inFlight device' =
      s.inFlight device' := by
  rw [inFlight, inFlight]
  by_cases hd : device' = device
  · subst hd
    rw [AList.lookup_insert, ← h]
    rfl
  · rw [AList.lookup_insert_ne hd]

theorem Paced.report {device : String} {report : AdbReport} (h : s.Paced now history)
    (hstep : step cfg s (.report device report) = some t) : t.Paced now history := by
  simp only [step] at hstep
  cases hidle : s.handling.lookup device with
  | some stage => simp [hidle] at hstep
  | none =>
      cases haddr : (s.devices.lookup device).bind Device.addr with
      | none =>
          simp only [hidle, haddr, Option.some.injEq] at hstep
          exact hstep ▸ h
      | some ip =>
          simp only [hidle, haddr, Option.some.injEq] at hstep
          rw [← hstep]
          have hnone : ∀ stage : Stage, stage.check = none →
              ({ s with handling := s.handling.insert device stage } : Links).Paced
                now history := by
            intro stage hcheck
            apply h.still (Nat.le_refl now)
            · exact fun _ => rfl
            · exact inFlight_insert (by rw [hcheck, hidle]; rfl)
            · intro device' stage' check hstage' hcheck'
              by_cases hd : device' = device
              · subst hd
                rw [AList.lookup_insert] at hstage'
                rw [← Option.some.inj hstage', hcheck] at hcheck'
                cases hcheck'
              · rw [AList.lookup_insert_ne hd] at hstage'
                exact ⟨stage', hstage', hcheck'⟩
            · exact fun c hc hholds => Or.inl ⟨c, hc, hholds, rfl, rfl⟩
            · exact h.asked
          apply hnone
          split
          · rfl
          · rfl

/-- The end of a report that starts no check. -/
theorem Paced.handled {device : String} {stage : Stage} {what : Said} (h : s.Paced now history)
    (hstage : s.handling.lookup device = some stage) (hcheck : stage.check = none) :
    (s.handled device what).Paced now history := by
  have hleft : ∀ device', ((s.handling.erase device).lookup device').bind Stage.check =
      (s.handling.lookup device').bind Stage.check := by
    intro device'
    by_cases hd : device' = device
    · subst hd
      rw [AList.lookup_erase, hstage]
      exact hcheck.symm
    · rw [AList.lookup_erase_ne hd]
  apply h.still (Nat.le_refl now)
  · exact fun _ => rfl
  · intro device'
    rw [inFlight, inFlight, Links.handled, hleft]
  · intro device' stage' check hstage' hcheck'
    have hsame := hleft device'
    rw [show (s.handling.erase device).lookup device' = some stage' from hstage',
      Option.bind_some, hcheck'] at hsame
    exact Option.bind_eq_some_iff.1 hsame.symm
  · exact fun c hc hholds => Or.inl ⟨c, hc, hholds, rfl, rfl⟩
  · exact h.asked

/-- A check is taken up: the link is busy from here on, and set back where the endpoint is new. -/
theorem Paced.start {device endpoint : String} {service : Option String} (h : s.Paced now history)
    (hstage : s.handling.lookup device = some (.link endpoint service))
    (hfree : (s.link device).busy = false) :
    (s.handle device now (.link endpoint service)).Paced now
      (history ++ [.started device endpoint]) := by
  have hnone : s.inFlight device = 0 := by rw [h.one, hfree]; rfl
  obtain ⟨hendpoint, hbackoff⟩ := h.kept device
  have hof : Failures.of device (history ++ [.started device endpoint]) =
      if (s.link device).endpoint = some endpoint then Failures.of device history
        else ⟨some endpoint, 0, (Failures.of device history).last⟩ := by
    rw [Failures.of_snoc, Failures.next, if_pos rfl, hendpoint]
  have hother : ∀ device', device' ≠ device →
      Failures.of device' (history ++ [.started device endpoint]) =
        Failures.of device' history := by
    intro device' hd
    rw [Failures.of_snoc, Failures.next, if_neg (Ne.symm hd)]
  have hlookup : (s.links.lookup device).getD .start = s.link device := rfl
  simp only [Links.handle, hlookup, hfree, Bool.false_eq_true, if_false]
  generalize hb : (if (s.link device).endpoint ≠ some endpoint then Backoff.start
    else (s.link device).backoff) = backoff
  refine ⟨?_, ?_, ?_, h.asked, ?_, ?_⟩
  · intro device'
    by_cases hd : device' = device
    · subst hd
      have hcount : s.checks.countP (ofDevice device') = 0 := by
        rw [inFlight] at hnone
        omega
      simp only [inFlight, link, AList.lookup_insert, hcount]
      rfl
    · simp only [inFlight, link, AList.lookup_insert_ne hd]
      exact h.one device'
  · intro device' stage check hstage' hcheck
    by_cases hd : device' = device
    · subst hd
      rw [AList.lookup_insert] at hstage'
      obtain rfl := Option.some.inj hstage'
      obtain rfl := Option.some.inj hcheck
      refine ⟨rfl, rfl, fun hmay => ?_⟩
      rw [link, AList.lookup_insert, Option.getD_some]
      -- it may connect where the endpoint is new, and where the back-off lets it
      by_cases hsame : (s.link device').endpoint = some endpoint
      · rw [if_neg (not_not_intro hsame)] at hb
        subst hb
        simpa [hsame] using hmay
      · rw [if_pos hsame] at hb
        subst hb
        rfl
    · rw [AList.lookup_insert_ne hd] at hstage'
      rw [link, AList.lookup_insert_ne hd]
      exact h.fresh device' stage check hstage' hcheck
  · intro c hc hholds hmay
    have hd : c.device ≠ device := by
      rintro rfl
      have hpos : 0 < s.checks.countP (ofDevice c.device) :=
        List.countP_pos_iff.2 ⟨c, hc, by rw [ofDevice, hholds]; simp⟩
      rw [inFlight] at hnone
      omega
    rw [link, AList.lookup_insert_ne hd]
    exact h.may c hc hholds hmay
  · intro device'
    by_cases hd : device' = device
    · subst hd
      rw [link, AList.lookup_insert, Option.getD_some, hof, ← hb]
      by_cases hsame : (s.link device').endpoint = some endpoint
      · rw [if_pos hsame, if_neg (not_not_intro hsame)]
        exact ⟨hsame ▸ hendpoint, hbackoff⟩
      · rw [if_neg hsame, if_pos hsame]
        exact ⟨rfl, rfl⟩
    · rw [link, AList.lookup_insert_ne hd, hother device' hd]
      exact h.kept device'
  · intro before device' time behind hsplit
    rcases append_singleton_split hsplit with ⟨-, heq, -⟩ | ⟨behind', -, hold⟩
    · cases heq
    · exact h.connects before device' time behind' hold

/-- **Going on with a report.** -/
theorem Paced.handle {device : String} (h : s.Paced now history)
    (hstep : step cfg s (.handle device now) = some t) :
    t.Paced now (history ++ s.happened cfg now (.handle device now)) := by
  rw [step, Option.map_eq_some_iff] at hstep
  obtain ⟨stage, hstage, rfl⟩ := hstep
  cases stage with
  | off detail =>
      simp only [happened, hstage, List.append_nil]
      apply Paced.handled h.setStatus
      · rw [setStatus_handling]
        exact hstage
      · rfl
  | link endpoint service =>
      cases hbusy : (s.link device).busy with
      | true =>
          have hlookup : ((s.links.lookup device).getD .start).busy = true := hbusy
          simp only [happened, hstage, hbusy, if_true, List.append_nil, Links.handle, hlookup]
          exact h.handled hstage rfl
      | false =>
          simp only [happened, hstage, hbusy, Bool.false_eq_true, if_false]
          exact h.start hstage hbusy
  | shown check =>
      simp only [happened, hstage, List.append_nil]
      apply h.still (Nat.le_refl now)
      · exact fun _ => rfl
      · exact inFlight_insert (by rw [hstage]; rfl)
      · intro device' stage' check' hstage' hcheck'
        by_cases hd : device' = device
        · subst hd
          rw [Links.handle, AList.lookup_insert] at hstage'
          obtain rfl := Option.some.inj hstage'
          exact ⟨_, hstage, hcheck'⟩
        · rw [Links.handle, AList.lookup_insert_ne hd] at hstage'
          exact ⟨stage', hstage', hcheck'⟩
      · exact fun c hc hholds => Or.inl ⟨c, hc, hholds, rfl, rfl⟩
      · exact h.asked
  | spawn check show' =>
      simp only [happened, hstage, List.append_nil]
      obtain ⟨hdevice, hphase, -⟩ := h.fresh device _ check hstage rfl
      have hholds : check.holds = true := by rw [Check.holds, hphase]
      -- what is shown has no part in it
      have hspawn : ∀ r : Links, r.Paced now history →
          r.handling.lookup device = some (.spawn check show') →
          ({ r.handled device (.on check.endpoint) with checks := r.checks ++ [check] } : Links).Paced
            now history := by
        intro r hr hrstage
        apply hr.still (Nat.le_refl now)
        · exact fun _ => rfl
        · intro device'
          rw [inFlight, inFlight, Links.handled, List.countP_append]
          by_cases hd : device' = device
          · subst hd
            rw [AList.lookup_erase, hrstage]
            simp [ofDevice, hdevice, hholds, Stage.check]
          · rw [AList.lookup_erase_ne hd]
            have hnot : ofDevice device' check = false := by
              simp [ofDevice, hdevice, Ne.symm hd]
            simp [hnot]
        · intro device' stage' check' hstage' hcheck'
          rw [Links.handled] at hstage'
          by_cases hd : device' = device
          · rw [hd, AList.lookup_erase] at hstage'
            cases hstage'
          · rw [AList.lookup_erase_ne hd] at hstage'
            exact ⟨stage', hstage', hcheck'⟩
        · intro c hc hcholds
          rcases List.mem_append.1 hc with hc | hc
          · exact Or.inl ⟨c, hc, hcholds, rfl, rfl⟩
          · obtain rfl := List.mem_singleton.1 hc
            exact Or.inr ⟨_, hdevice ▸ hrstage, rfl⟩
        · intro c hc hconnecting
          rcases List.mem_append.1 hc with hc | hc
          · exact hr.asked c hc hconnecting
          · rw [List.mem_singleton.1 hc, hphase] at hconnecting
            cases hconnecting
      rw [Links.handle]
      cases show' with
      | true =>
          simp only [if_true]
          exact hspawn _ h.setStatus (by rw [setStatus_handling, hstage])
      | false => exact hspawn s h hstage

theorem holds_of_drive {c : Check} {answer : Answer} {r : Phase × Option AdbStatus}
    (h : c.drive cfg answer = some r) : c.holds = true := by
  rw [Check.holds]
  split
  · rename_i status hphase
    cases answer with
    | devices list => simp [Check.drive, hphase] at h
    | adb found => simp [Check.drive, hphase] at h
    | output result => simp [Check.drive, hphase] at h
  · rfl

/-- Only a check that may connect comes to that. -/
theorem mayConnect_of_drive {c : Check} {answer : Answer} {shows : Option AdbStatus}
    (h : c.drive cfg answer = some (.connecting, shows)) : c.mayConnect = true := by
  cases answer with
  | devices list =>
      cases hphase : c.phase with
      | listing =>
          simp only [Check.drive, hphase] at h
          cases hmay : c.mayConnect with
          | true => rfl
          | false =>
              rw [hmay] at h
              split at h
              · split at h
                · cases h
                · split at h <;> cases h
              · cases h
      | confirming output =>
          simp only [Check.drive, hphase] at h
          split at h
          · split at h <;> cases h
          · cases h
      | connecting => simp [Check.drive, hphase] at h
      | running => simp [Check.drive, hphase] at h
      | done outcome => simp [Check.drive, hphase] at h
      | writing status => simp [Check.drive, hphase] at h
  | adb found =>
      cases hphase : c.phase with
      | connecting =>
          simp only [Check.drive, hphase] at h
          split at h
          · split at h <;> cases h
          · cases h
      | listing => simp [Check.drive, hphase] at h
      | running => simp [Check.drive, hphase] at h
      | confirming output => simp [Check.drive, hphase] at h
      | done outcome => simp [Check.drive, hphase] at h
      | writing status => simp [Check.drive, hphase] at h
  | output result =>
      cases hphase : c.phase with
      | running =>
          cases result with
          | error e => simp [Check.drive, hphase] at h
          | ok output =>
              simp only [Check.drive, hphase] at h
              split at h <;> cases h
      | listing => simp [Check.drive, hphase] at h
      | connecting => simp [Check.drive, hphase] at h
      | confirming output => simp [Check.drive, hphase] at h
      | done outcome => simp [Check.drive, hphase] at h
      | writing status => simp [Check.drive, hphase] at h

/-- A check in flight goes on, and stays in flight. -/
theorem Paced.set {c : Check} {j : Nat} {phase : Phase} (h : s.Paced now history)
    (hj : s.checks[j]? = some c) (hold : c.holds = true)
    (hnew : ({ c with phase } : Check).holds = true)
    (hmay : phase = .connecting → c.mayConnect = true) :
    ({ s with checks := s.checks.set j { c with phase } } : Links).Paced now history := by
  obtain ⟨hlt, hget⟩ := List.getElem?_eq_some_iff.1 hj
  have hc : c ∈ s.checks := List.mem_of_getElem? hj
  have hsame : ∀ device, ofDevice device { c with phase } = ofDevice device c := by
    intro device
    rw [ofDevice, ofDevice, hold, hnew]
  apply h.still (Nat.le_refl now)
  · exact fun _ => rfl
  · intro device
    rw [inFlight, inFlight, List.countP_set hlt, hget, hsame]
    have hle : (if ofDevice device c = true then 1 else 0) ≤ s.checks.countP (ofDevice device) := by
      split
      · rename_i hof
        exact List.countP_pos_iff.2 ⟨c, hc, hof⟩
      · exact Nat.zero_le _
    rw [Nat.sub_add_cancel hle]
  · exact fun _ stage _ hstage hcheck => ⟨stage, hstage, hcheck⟩
  · intro c' hc' hholds
    rcases List.mem_or_eq_of_mem_set hc' with hc' | rfl
    · exact Or.inl ⟨c', hc', hholds, rfl, rfl⟩
    · exact Or.inl ⟨c, hc, hold, rfl, rfl⟩
  · intro c' hc' hconnecting
    rcases List.mem_or_eq_of_mem_set hc' with hc' | rfl
    · exact h.asked c' hc' hconnecting
    · exact hmay hconnecting

/-- **A check goes on**; it runs `adb connect` only where the link allows that. -/
theorem Paced.drive {j : Nat} {answer : Answer} (h : s.Paced now history)
    (hstep : step cfg s (.drive j answer) = some t) :
    t.Paced now (history ++ s.happened cfg now (.drive j answer)) := by
  simp only [step] at hstep
  cases hj : s.checks[j]? with
  | none => simp [hj] at hstep
  | some c =>
      cases hdrive : c.drive cfg answer with
      | none => simp [hj, hdrive] at hstep
      | some r =>
          obtain ⟨phase, shows⟩ := r
          have hset : ({ s with checks := s.checks.set j { c with phase } } : Links).Paced now
              history := by
            apply h.set hj (holds_of_drive hdrive) (drive_goes hdrive).holds
            rintro rfl
            exact mayConnect_of_drive hdrive
          have ht : t.Paced now history ∧ t.links = s.links := by
            cases shows with
            | none =>
                simp only [hj, hdrive, Option.some.injEq] at hstep
                exact hstep ▸ ⟨hset, rfl⟩
            | some status =>
                simp only [hj, hdrive, Option.some.injEq] at hstep
                exact hstep ▸ ⟨hset.setStatus, setStatus_links⟩
          cases answer with
          | devices list =>
              simp only [happened, List.append_nil]
              exact ht.1
          | output result =>
              simp only [happened, List.append_nil]
              exact ht.1
          | adb found =>
              cases found with
              | false =>
                  simp only [happened, List.append_nil]
                  exact ht.1
              | true =>
                  simp only [happened, hj]
                  split
                  · rename_i hconnects
                    apply ht.1.connect
                    rw [link, ht.2]
                    have hc := List.mem_of_getElem? hj
                    exact h.may c hc (holds_of_drive hdrive) (h.asked c hc hconnects.1)
                  · rw [List.append_nil]
                    exact ht.1

/-- What is left of the checks of a device where one is taken out. -/
theorem countP_eraseIdx {c : Check} {checks : List Check} {j : Nat} (hj : checks[j]? = some c)
    (p : Check → Bool) :
    (checks.eraseIdx j).countP p + (if p c then 1 else 0) = checks.countP p := by
  obtain ⟨hlt, rfl⟩ := List.getElem?_eq_some_iff.1 hj
  rw [← (List.getElem_cons_eraseIdx_perm hlt).countP_eq p, List.countP_cons]

/-- Where one goes on to its last write. -/
theorem countP_set_writing {c : Check} {checks : List Check} {j : Nat} (hj : checks[j]? = some c)
    (status : AdbStatus) (device : String) :
    (checks.set j { c with phase := .writing status }).countP (ofDevice device) +
        (if ofDevice device c then 1 else 0) = checks.countP (ofDevice device) := by
  obtain ⟨hlt, hget⟩ := List.getElem?_eq_some_iff.1 hj
  have hnot : ofDevice device { c with phase := .writing status } = false := by
    simp [ofDevice, Check.holds]
  have hle : (if ofDevice device c = true then 1 else 0) ≤ checks.countP (ofDevice device) := by
    split
    · rename_i hof
      exact List.countP_pos_iff.2 ⟨c, List.mem_of_getElem? hj, hof⟩
    · exact Nat.zero_le _
  rw [List.countP_set hlt, hget, hnot]
  show _ - _ + 0 + _ = _
  rw [Nat.add_zero, Nat.sub_add_cancel hle]

/-- The last write of a check, which is in flight no more. -/
theorem Paced.write {j : Nat} (h : s.Paced now history)
    (hstep : step cfg s (.write j) = some t) : t.Paced now history := by
  simp only [step] at hstep
  cases hj : s.checks[j]? with
  | none => simp [hj] at hstep
  | some c =>
      cases hphase : c.phase with
      | writing status =>
          simp only [hj, hphase, Option.some.injEq] at hstep
          rw [← hstep]
          have hset : (s.setStatus c.device status).Paced now history := h.setStatus
          apply hset.still (Nat.le_refl now)
          · exact fun _ => rfl
          · intro device
            have hcount := countP_eraseIdx hj (ofDevice device)
            have hnot : ofDevice device c = false := by simp [ofDevice, Check.holds, hphase]
            rw [hnot] at hcount
            simp only [inFlight, setStatus_checks, setStatus_handling]
            rw [← hcount]
            rfl
          · exact fun _ stage _ hstage hcheck => ⟨stage, hstage, hcheck⟩
          · intro c' hc' hholds
            rw [setStatus_checks]
            exact Or.inl ⟨c', List.mem_of_mem_eraseIdx hc', hholds, rfl, rfl⟩
          · exact fun c' hc' => h.asked c' (List.mem_of_mem_eraseIdx hc')
      | listing => simp [hj, hphase] at hstep
      | connecting => simp [hj, hphase] at hstep
      | running => simp [hj, hphase] at hstep
      | confirming output => simp [hj, hphase] at hstep
      | done outcome => simp [hj, hphase] at hstep

theorem link_released {device : String} {outcome : Option AdbStatus}
    (h : s.links.lookup device ≠ none) (device' : String) :
    (s.released device now outcome).link device' =
      if device' = device then Link.release (s.link device) now outcome else s.link device' := by
  obtain ⟨l, hl⟩ := Option.ne_none_iff_exists'.1 h
  rw [released, hl]
  by_cases hd : device' = device
  · subst hd
    rw [if_pos rfl, link, AList.lookup_insert, link, hl]
    rfl
  · rw [if_neg hd, link, AList.lookup_insert_ne hd]
    rfl

@[simp] theorem released_handling {device : String} {outcome : Option AdbStatus} :
    (s.released device now outcome).handling = s.handling := by
  rw [released]
  split
  · rfl
  · rfl

/-- **A check lets go of its link**, which has what it has come to counted. -/
theorem Paced.ended {c : Check} {outcome : Option AdbStatus} {checks : List Check}
    (h : s.Paced now history) (hc : c ∈ s.checks) (hphase : c.phase = .done outcome)
    (hcount : ∀ device, checks.countP (ofDevice device) + (if ofDevice device c then 1 else 0) =
      s.checks.countP (ofDevice device))
    (hmem : ∀ c' ∈ checks, c' ∈ s.checks ∨ ∃ status, c'.phase = .writing status) :
    ({ s.released c.device now outcome with checks } : Links).Paced now
      (history ++ [.ended c.device (outcome.map AdbStatus.state) now]) := by
  have hof : ofDevice c.device c = true := by simp [ofDevice, Check.holds, hphase]
  -- it was the one check in flight
  have hpos : 0 < s.checks.countP (ofDevice c.device) := List.countP_pos_iff.2 ⟨c, hc, hof⟩
  have hone := h.one c.device
  have hbusy : (s.link c.device).busy = true := by
    by_contra hfree
    rw [if_neg hfree, inFlight] at hone
    omega
  rw [if_pos hbusy, inFlight] at hone
  have hleft := hcount c.device
  rw [if_pos hof] at hleft
  have hknown : s.links.lookup c.device ≠ none := by
    intro hnone
    rw [link, hnone] at hbusy
    cases hbusy
  have hlink : ∀ device, ({ s.released c.device now outcome with checks } : Links).link device =
      if device = c.device then Link.release (s.link c.device) now outcome else s.link device :=
    fun device => link_released hknown device
  have hof' : ∀ device, Failures.of device
      (history ++ [.ended c.device (outcome.map AdbStatus.state) now]) =
        (Failures.of device history).next device
          (.ended c.device (outcome.map AdbStatus.state) now) :=
    fun device => Failures.of_snoc device history _
  refine ⟨?_, ?_, ?_, ?_, ?_, ?_⟩
  · intro device
    rw [hlink]
    by_cases hd : device = c.device
    · subst hd
      rw [if_pos rfl, release_not_busy]
      have hnone : checks.countP (ofDevice c.device) +
          ((s.handling.lookup c.device).bind Stage.check).toList.length = 0 := by omega
      simp only [inFlight, released_handling]
      exact hnone
    · have hsame := hcount device
      have hnot : ofDevice device c = false := by simp [ofDevice, Ne.symm hd]
      rw [hnot] at hsame
      rw [if_neg hd, ← h.one]
      simp only [inFlight, released_handling]
      rw [← hsame]
      rfl
  · intro device stage check hstage hcheck
    rw [show ({ s.released c.device now outcome with checks } : Links).handling = s.handling from
      released_handling] at hstage
    have hd : device ≠ c.device := by
      rintro rfl
      rw [hstage, Option.bind_some, hcheck] at hone
      simp only [Option.toList_some, List.length_singleton] at hone
      omega
    rw [hlink, if_neg hd]
    exact h.fresh device stage check hstage hcheck
  · intro c' hc' hholds hmay
    have hd : c'.device ≠ c.device := by
      intro hd
      have hpos' : 0 < checks.countP (ofDevice c.device) :=
        List.countP_pos_iff.2 ⟨c', hc', by simp [ofDevice, hd, hholds]⟩
      omega
    rw [hlink, if_neg hd]
    rcases hmem c' hc' with hold | ⟨status, hwriting⟩
    · exact h.may c' hold hholds hmay
    · rw [Check.holds, hwriting] at hholds
      cases hholds
  · intro c' hc' hconnecting
    rcases hmem c' hc' with hold | ⟨status, hwriting⟩
    · exact h.asked c' hold hconnecting
    · rw [hwriting] at hconnecting
      cases hconnecting
  · intro device
    rw [hlink, hof']
    by_cases hd : device = c.device
    · subst hd
      obtain ⟨hendpoint, hbackoff⟩ := h.kept c.device
      rw [if_pos rfl]
      have hfailed := Failures.failed_backoff (.of c.device history) now
      rw [← hbackoff] at hfailed
      cases outcome with
      | none =>
          rw [Option.map_none, Failures.next, if_pos rfl]
          exact ⟨hendpoint, hbackoff⟩
      | some status =>
          rw [Link.release, Option.map_some]
          -- what is neither connected nor available is a failure
          cases status.state with
          | connected =>
              rw [Failures.next, if_pos rfl]
              exact ⟨hendpoint, rfl⟩
          | available =>
              rw [Failures.next, if_pos rfl]
              exact ⟨hendpoint, rfl⟩
          | _ =>
              rw [Failures.next_ended_failed (by decide) (by decide)]
              exact ⟨hendpoint, hfailed⟩
    · rw [if_neg hd, Failures.next_ended_of_ne (Ne.symm hd)]
      exact h.kept device
  · intro before device time behind hsplit
    rcases append_singleton_split hsplit with ⟨-, heq, -⟩ | ⟨behind', -, hold⟩
    · cases heq
    · exact h.connects before device time behind' hold

theorem Paced.release {j : Nat} (h : s.Paced now history)
    (hstep : step cfg s (.release j now) = some t) :
    t.Paced now (history ++ s.happened cfg now (.release j now)) := by
  simp only [step] at hstep
  cases hj : s.checks[j]? with
  | none => simp [hj] at hstep
  | some c =>
      have hc := List.mem_of_getElem? hj
      cases hphase : c.phase with
      | done outcome =>
          simp only [happened, hj, hphase]
          cases outcome with
          | none =>
              simp only [hj, hphase, released_checks, Option.some.injEq] at hstep
              rw [← hstep]
              apply h.ended hc hphase
              · exact fun device => countP_eraseIdx hj (ofDevice device)
              · exact fun c' hc' => Or.inl (List.mem_of_mem_eraseIdx hc')
          | some status =>
              simp only [hj, hphase, released_checks, Option.some.injEq] at hstep
              rw [← hstep]
              apply h.ended hc hphase
              · exact fun device => countP_set_writing hj status device
              · intro c' hc'
                rcases List.mem_or_eq_of_mem_set hc' with hc' | rfl
                · exact Or.inl hc'
                · exact Or.inr ⟨status, rfl⟩
      | listing => simp [hj, hphase] at hstep
      | connecting => simp [hj, hphase] at hstep
      | running => simp [hj, hphase] at hstep
      | confirming output => simp [hj, hphase] at hstep
      | writing status => simp [hj, hphase] at hstep

end Links

/-! ## Every run -/

theorem start_paced (phones : List (String × Option String)) (now : Nat) :
    (Links.start phones).Paced now [] := by
  refine ⟨fun _ => rfl, ?_, by simp [Links.start], by simp [Links.start], fun _ => ⟨rfl, rfl⟩,
    by simp⟩
  intro device stage check hstage
  cases hstage

theorem paced_of_reach {cfg : Settings} :
    ∀ s, (timed cfg).Reach s → s.links.Paced s.now s.history := by
  apply Machine.invariant
  · rintro ⟨links, now, history⟩ ⟨⟨phones, rfl⟩, rfl⟩
    exact start_paced phones now
  · rintro s ⟨now, a⟩ t h - hstep
    simp only [timed] at hstep
    split at hstep
    · rename_i hle
      obtain ⟨links, hlinks, rfl⟩ := Option.map_eq_some_iff.1 hstep
      have hnow := h.later hle
      cases a with
      | report device report =>
          simp only [Links.happened, List.append_nil]
          exact hnow.report hlinks
      | handle device now' => exact hnow.handle hlinks
      | drive j answer => exact hnow.drive hlinks
      | release j now' => exact hnow.release hlinks
      | write j =>
          simp only [Links.happened, List.append_nil]
          exact hnow.write hlinks
    · cases hstep

/-- **The pace of `adb connect`.** In every state that is reached, a device has at most one check in
flight, and its link is busy exactly while it has one, so that a report about an endpoint starts the
next one. What the link keeps is the endpoint and the count of failures in a row that a success or
another endpoint, and nothing else, sets back; the time it waits has a bound. Every `adb connect`
has started no sooner than `min (30 * 2 ^ (k - 1)) 300` seconds after the last of `k` failures in a
row. -/
theorem paced {cfg : Settings} {s : Timed} (h : (timed cfg).Reach s) :
    (∀ device, s.links.inFlight device ≤ 1 ∧
      ((s.links.link device).busy = true ↔ s.links.inFlight device = 1) ∧
      (s.links.inFlight device = 0 → ∀ endpoint service,
        ∃ check : Check, check.device = device ∧ check.endpoint = endpoint ∧
          (s.links.handle device s.now (.link endpoint service)).handling.lookup device =
            some (.shown check))) ∧
    (∀ device, (s.links.link device).endpoint = (Failures.of device s.history).endpoint ∧
      (s.links.link device).backoff = (Failures.of device s.history).backoff ∧
      (s.links.link device).backoff.delay ≤ 300000) ∧
    ∀ before device time behind, s.history = before ++ .connects device time :: behind →
      0 < (Failures.of device before).count →
        (Failures.of device before).last +
          min (30000 * 2 ^ ((Failures.of device before).count - 1)) 300000 ≤ time := by
  have hpaced := paced_of_reach s h
  refine ⟨fun device => ?_, fun device => ?_, hpaced.connects⟩
  · have hone := hpaced.one device
    cases hbusy : (s.links.link device).busy with
    | true =>
        rw [hbusy, if_pos rfl] at hone
        rw [hone]
        exact ⟨Nat.le_refl 1, iff_of_true rfl rfl, fun hzero => by cases hzero⟩
    | false =>
        rw [hbusy, if_neg Bool.false_ne_true] at hone
        rw [hone]
        refine ⟨Nat.zero_le 1, by simp, fun _ endpoint service => ?_⟩
        have hfree : ((s.links.links.lookup device).getD .start).busy = false := hbusy
        simp only [Links.handle, hfree, Bool.false_eq_true, if_false, AList.lookup_insert]
        exact ⟨_, rfl, rfl, rfl⟩
  · obtain ⟨hendpoint, hbackoff⟩ := hpaced.kept device
    refine ⟨hendpoint, hbackoff, ?_⟩
    rw [hbackoff, Failures.backoff]
    cases (Failures.of device s.history).count with
    | zero => exact (by decide : Backoff.start.delay ≤ 300000)
    | succ k => exact Nat.min_le_right _ _

/-- A connect fails, a report comes before its time is up, and one after that. -/
def failedOnce : List (Nat × Label) :=
  [(0, .report "phone" ⟨true, some 41195, none⟩), (0, .handle "phone" 0), (0, .handle "phone" 0),
    (0, .handle "phone" 0), (5, .drive 0 (.devices none)), (5, .drive 0 (.adb true)),
    (10000, .drive 0 (.output (.error "timed out"))), (10000, .release 0 0), (10000, .write 0),
    (30000, .report "phone" ⟨true, some 41195, none⟩), (30000, .handle "phone" 0),
    (30000, .handle "phone" 0), (30000, .handle "phone" 0), (30000, .drive 0 (.devices none)),
    (30000, .release 0 0), (60000, .report "phone" ⟨true, some 41195, none⟩),
    (60000, .handle "phone" 0), (60000, .handle "phone" 0), (60000, .handle "phone" 0),
    (60000, .drive 0 (.devices none)), (60000, .drive 0 (.adb true))]

theorem paced_failedOnce :
    ∃ s before, (timed ⟨true, false⟩).run ⟨Links.start [("phone", some "10.0.0.2")], 0, []⟩
        failedOnce = some s ∧
      s.history = before ++ [.connects "phone" 60000] ∧ Failures.of "phone" before =
        ⟨some "10.0.0.2:41195", 1, 10000⟩ ∧ 10000 + min (30000 * 2 ^ 0) 300000 ≤ 60000 := by
  have hrun : ∃ s, (timed ⟨true, false⟩).run ⟨Links.start [("phone", some "10.0.0.2")], 0, []⟩
        failedOnce = some s ∧
      s.history = [.started "phone" "10.0.0.2:41195", .connects "phone" 5,
        .ended "phone" (some .error) 10000, .started "phone" "10.0.0.2:41195",
        .ended "phone" none 30000, .started "phone" "10.0.0.2:41195"] ++
          [.connects "phone" 60000] := ⟨_, rfl, by decide +kernel⟩
  obtain ⟨s, hrun, hhistory⟩ := hrun
  have hreach : (timed ⟨true, false⟩).Reach s :=
    Machine.reach_of_run (.init ⟨⟨[("phone", some "10.0.0.2")], rfl⟩, rfl⟩) hrun
  exact ⟨s, _, hrun, hhistory, by decide +kernel,
    (paced hreach).2.2 _ "phone" 60000 [] hhistory (by decide +kernel)⟩

end DialF.Daemon.Adb
