import Mathlib
import DialF.Lib.Replies
import DialF.Phone.Candidates

/-!
# Which daemons are skipped

`DaemonCandidates` forgets a mark when it is asked about it and the mark has expired. `Reference`
keeps every mark with the time at which it was set, and compares times. Where the clock does not go
back, the two cannot be told apart (`next_and_replies`), and what the candidates offer is what the
reference says: no daemon that has rejected the key, the first that has not just failed to connect,
and the first of the rest where all have.
-/

set_option autoImplicit false

namespace DialF.Phone

open DialF.Lib

/-! ## Operations -/

/-- An operation on the candidates. -/
inductive CandidateOp where
  | add (host : Str) (port : Int)
  | clear
  | markKeyRejected (url : Str)
  | isKeyRejected (url : Str)
  | markUnreachable (url : Str)
  | markReachable (url : Str)
  | isUnreachable (url : Str)
  | next
  | skipped

/-- An operation, with the time that it is told. -/
structure CandidateCall where
  nowMs : Int
  op : CandidateOp

/-- What an operation returns. -/
inductive CandidateReply where
  | done
  | marked (yes : Bool)
  | endpoint (offer : Option Endpoint)
  | urls (skipped : List Str)
  deriving DecidableEq

/-- The endpoint that stands under the URL of an address. -/
def endpointAt (found : List Endpoint) (host : Str) (port : Int) : Option Endpoint :=
  (wsUrl host port).bind fun url => found.find? fun e => decide (e.url = url)

/-- The URLs that are marked, in the order of the endpoints. -/
def Marks.marked (nowMs : Int) : List Endpoint → Marks → List Str × Marks
  | [], marks => ([], marks)
  | e :: es, marks =>
      match marks.isMarked nowMs e.url with
      | (true, marks) => (e.url :: (marked nowMs es marks).1, (marked nowMs es marks).2)
      | (false, marks) => marked nowMs es marks

namespace DaemonCandidates

variable (d : DaemonCandidates) (nowMs : Int)

/-- `isKeyRejected`; a mark that has expired goes. -/
def isKeyRejected (url : Str) : Bool × DaemonCandidates :=
  ((d.rejectedUntil.isMarked nowMs url).1,
    { d with rejectedUntil := (d.rejectedUntil.isMarked nowMs url).2 })

/-- `isUnreachable`; a mark that has expired goes. -/
def isUnreachable (url : Str) : Bool × DaemonCandidates :=
  ((d.unreachableUntil.isMarked nowMs url).1,
    { d with unreachableUntil := (d.unreachableUntil.isMarked nowMs url).2 })

/-- Discovered daemons currently being skipped for a key rejection. -/
def skipped : List Str × DaemonCandidates :=
  ((d.rejectedUntil.marked nowMs d.found).1,
    { d with rejectedUntil := (d.rejectedUntil.marked nowMs d.found).2 })

end DaemonCandidates

/-- The operation, with what it returns. -/
def perform (d : DaemonCandidates) (c : CandidateCall) : CandidateReply × DaemonCandidates :=
  match c.op with
  | .add host port => (.endpoint (endpointAt (d.add host port).found host port), d.add host port)
  | .clear => (.done, d.clear)
  | .markKeyRejected url => (.done, d.markKeyRejected url c.nowMs)
  | .isKeyRejected url => (.marked (d.isKeyRejected c.nowMs url).1, (d.isKeyRejected c.nowMs url).2)
  | .markUnreachable url => (.done, d.markUnreachable url c.nowMs)
  | .markReachable url => (.done, d.markReachable url)
  | .isUnreachable url => (.marked (d.isUnreachable c.nowMs url).1, (d.isUnreachable c.nowMs url).2)
  | .next => (.endpoint (d.next c.nowMs).1, (d.next c.nowMs).2)
  | .skipped => (.urls (d.skipped c.nowMs).1, (d.skipped c.nowMs).2)

/-! ## Reference -/

/-- The candidates with the time of each mark. No mark is ever forgotten, but where the daemon has
been reached. -/
structure Reference where
  keyRejectTtlMs : Int
  unreachableTtlMs : Int
  found : List Endpoint
  rejectedAt : Str → Option Int
  unreachableAt : Str → Option Int

/-- A mark that was set at a time, for so long. -/
def markedAt (setAt : Str → Option Int) (ttlMs nowMs : Int) (url : Str) : Bool :=
  (setAt url).any fun t => decide (nowMs ≤ t + ttlMs)

namespace Reference

/-- Nothing found, and no mark. -/
def start (keyRejectTtlMs unreachableTtlMs : Int) : Reference :=
  ⟨keyRejectTtlMs, unreachableTtlMs, [], fun _ => none, fun _ => none⟩

variable (r : Reference) (nowMs : Int)

/-- The daemon has rejected the key, and not too long ago. -/
def rejects (url : Str) : Bool := markedAt r.rejectedAt r.keyRejectTtlMs nowMs url

/-- The connection to the daemon has failed, not too long ago. -/
def fails (url : Str) : Bool := markedAt r.unreachableAt r.unreachableTtlMs nowMs url

/-- The endpoints found that have not rejected the key. -/
def eligible : List Endpoint := r.found.filter fun e => !r.rejects nowMs e.url

/-- The first that does not fail, or the first where all fail. -/
def offer : Option Endpoint :=
  ((r.eligible nowMs).find? fun e => !r.fails nowMs e.url).or (r.eligible nowMs).head?

/-- The endpoints with one at an address, where it can be dialled and is new. -/
def foundWith (host : Str) (port : Int) : List Endpoint :=
  match h : wsUrl host port with
  | none => r.found
  | some url =>
      if r.found.any fun e => decide (e.url = url) then r.found
      else r.found ++ [⟨url, host, port, h⟩]

/-- What an operation returns of the reference, and what it leaves. -/
def perform (r : Reference) (c : CandidateCall) : CandidateReply × Reference :=
  match c.op with
  | .add host port =>
      (.endpoint (endpointAt (r.foundWith host port) host port),
        { r with found := r.foundWith host port })
  | .clear => (.done, { r with found := [] })
  | .markKeyRejected url =>
      (.done, { r with rejectedAt := Function.update r.rejectedAt url (some c.nowMs) })
  | .isKeyRejected url => (.marked (r.rejects c.nowMs url), r)
  | .markUnreachable url =>
      (.done, { r with unreachableAt := Function.update r.unreachableAt url (some c.nowMs) })
  | .markReachable url =>
      (.done, { r with unreachableAt := Function.update r.unreachableAt url none })
  | .isUnreachable url => (.marked (r.fails c.nowMs url), r)
  | .next => (.endpoint (r.offer c.nowMs), r)
  | .skipped =>
      (.urls ((r.found.map Endpoint.url).filter fun url => r.rejects c.nowMs url), r)

end Reference

/-! ## Marks -/

namespace Marks

variable {marks : Marks} {setAt : Str → Option Int} {ttlMs nowMs : Int} {url : Str}

/-- From a time on, the marks answer as the times at which they were set. -/
def Tells (marks : Marks) (setAt : Str → Option Int) (ttlMs fromMs : Int) : Prop :=
  ∀ laterMs, fromMs ≤ laterMs → ∀ url, marks.holds laterMs url = markedAt setAt ttlMs laterMs url

theorem Tells.later (h : Tells marks setAt ttlMs nowMs) {laterMs : Int} (hle : nowMs ≤ laterMs) :
    Tells marks setAt ttlMs laterMs :=
  fun t ht url => h t (Int.le_trans hle ht) url

/-- Being asked about a mark changes nothing. -/
theorem Tells.isMarked (h : Tells marks setAt ttlMs nowMs) (url : Str) :
    Tells (marks.isMarked nowMs url).2 setAt ttlMs nowMs := by
  intro t ht other
  rw [holds_isMarked_of_le ht, h t ht other]

theorem Tells.mark (h : Tells marks setAt ttlMs nowMs) (url : Str) :
    Tells (Function.update marks url (some (nowMs + ttlMs)))
      (Function.update setAt url (some nowMs)) ttlMs nowMs := by
  intro t ht other
  by_cases hother : other = url
  · subst hother
    simp [holds, markedAt]
  · have hsame := h t ht other
    simp only [holds, markedAt] at hsame
    simp [holds, markedAt, Function.update_of_ne hother, hsame]

theorem Tells.unmark (h : Tells marks setAt ttlMs nowMs) (url : Str) :
    Tells (Function.update marks url none) (Function.update setAt url none) ttlMs nowMs := by
  intro t ht other
  by_cases hother : other = url
  · subst hother
    simp [holds, markedAt]
  · have hsame := h t ht other
    simp only [holds, markedAt] at hsame
    simp [holds, markedAt, Function.update_of_ne hother, hsame]

theorem Tells.unmarked (h : Tells marks setAt ttlMs nowMs) (es : List Endpoint) :
    Tells (unmarked nowMs es marks).2 setAt ttlMs nowMs := by
  induction es generalizing marks with
  | nil => exact h
  | cons e es ih =>
      have hnext := h.isMarked e.url
      rw [Marks.unmarked]
      rcases hmarked : marks.isMarked nowMs e.url with ⟨b, marks'⟩
      rw [hmarked] at hnext
      cases b with
      | true => exact ih hnext
      | false => exact ih hnext

/-- Only the endpoints up to the first that is not marked are asked about. -/
theorem Tells.firstUnmarked (h : Tells marks setAt ttlMs nowMs) (es : List Endpoint) :
    Tells (firstUnmarked nowMs es marks).2 setAt ttlMs nowMs := by
  induction es generalizing marks with
  | nil => exact h
  | cons e es ih =>
      have hnext := h.isMarked e.url
      rw [Marks.firstUnmarked]
      rcases hmarked : marks.isMarked nowMs e.url with ⟨b, marks'⟩
      rw [hmarked] at hnext
      cases b with
      | true => exact ih hnext
      | false => exact hnext

theorem Tells.marked (h : Tells marks setAt ttlMs nowMs) (es : List Endpoint) :
    (marks.marked nowMs es).1 = (es.map Endpoint.url).filter (markedAt setAt ttlMs nowMs) ∧
      Tells (marks.marked nowMs es).2 setAt ttlMs nowMs := by
  induction es generalizing marks with
  | nil => exact ⟨rfl, h⟩
  | cons e es ih =>
      have hnext := h.isMarked e.url
      have hanswer : (marks.isMarked nowMs e.url).1 = markedAt setAt ttlMs nowMs e.url := by
        rw [isMarked_fst, h nowMs (Int.le_refl nowMs)]
      rw [Marks.marked, List.map_cons]
      rcases hmarked : marks.isMarked nowMs e.url with ⟨b, marks'⟩
      rw [hmarked] at hnext hanswer
      obtain ⟨hurls, htells⟩ := ih hnext
      cases b with
      | true =>
          rw [List.filter_cons_of_pos hanswer.symm]
          exact ⟨congrArg (e.url :: ·) hurls, htells⟩
      | false =>
          rw [List.filter_cons_of_neg (by simp [← hanswer])]
          exact ⟨hurls, htells⟩

end Marks

/-! ## The reference is met -/

/-- From a time on, the candidates and the reference say the same. -/
structure Matches (fromMs : Int) (d : DaemonCandidates) (r : Reference) : Prop where
  keyRejectTtlMs : d.keyRejectTtlMs = r.keyRejectTtlMs
  unreachableTtlMs : d.unreachableTtlMs = r.unreachableTtlMs
  found : d.found = r.found
  rejected : d.rejectedUntil.Tells r.rejectedAt r.keyRejectTtlMs fromMs
  unreachable : d.unreachableUntil.Tells r.unreachableAt r.unreachableTtlMs fromMs

namespace Matches

variable {d : DaemonCandidates} {r : Reference} {nowMs : Int}

theorem start (keyRejectTtlMs unreachableTtlMs : Int) (fromMs : Int) :
    Matches fromMs (.start keyRejectTtlMs unreachableTtlMs)
      (.start keyRejectTtlMs unreachableTtlMs) :=
  ⟨rfl, rfl, rfl, fun _ _ _ => rfl, fun _ _ _ => rfl⟩

theorem later {laterMs : Int} (hle : nowMs ≤ laterMs) (h : Matches nowMs d r) :
    Matches laterMs d r :=
  { h with rejected := h.rejected.later hle, unreachable := h.unreachable.later hle }

theorem eligible_eq (h : Matches nowMs d r) : d.eligible nowMs = r.eligible nowMs := by
  rw [DaemonCandidates.eligible, Reference.eligible, h.found]
  congr 1
  funext e
  rw [h.rejected nowMs (Int.le_refl nowMs)]
  rfl

theorem next_fst (h : Matches nowMs d r) : (d.next nowMs).1 = r.offer nowMs := by
  rw [DaemonCandidates.next_fst, h.eligible_eq, Reference.offer]
  congr 2
  funext e
  rw [h.unreachable nowMs (Int.le_refl nowMs)]
  rfl

theorem foundWith_of_some {host : Str} {port : Int} {url : Str} (h : wsUrl host port = some url) :
    r.foundWith host port = if r.found.any fun e => decide (e.url = url) then r.found
      else r.found ++ [⟨url, host, port, h⟩] := by
  rw [Reference.foundWith]
  split
  · rename_i hnone
    exact absurd (h.symm.trans hnone) (by simp)
  · rename_i url' hurl
    obtain rfl := Option.some.inj (h.symm.trans hurl)
    rfl

theorem foundWith_of_none {host : Str} {port : Int} (h : wsUrl host port = none) :
    r.foundWith host port = r.found := by
  rw [Reference.foundWith]
  split
  · rfl
  · rename_i url hurl
    exact absurd (h.symm.trans hurl) (by simp)

theorem add_eq (h : d.found = r.found) (host : Str) (port : Int) :
    d.add host port = { d with found := r.foundWith host port } := by
  rw [DaemonCandidates.add]
  split
  · rename_i hnone
    rw [foundWith_of_none hnone, ← h]
  · rename_i url hurl
    rw [foundWith_of_some hurl, ← h]
    split
    · rfl
    · rfl

end Matches

/-- **No operation** can tell the candidates from the reference. -/
theorem agree_reference :
    Agree CandidateCall.nowMs Matches perform Reference.perform where
  later := Matches.later
  answer := by
    rintro d r ⟨nowMs, op⟩ h
    cases op with
    | add host port =>
        show CandidateReply.endpoint _ = .endpoint _
        rw [Matches.add_eq h.found]
    | clear => rfl
    | markKeyRejected url => rfl
    | isKeyRejected url =>
        show CandidateReply.marked _ = .marked _
        rw [DaemonCandidates.isKeyRejected, Marks.isMarked_fst,
          h.rejected nowMs (Int.le_refl nowMs)]
        rfl
    | markUnreachable url => rfl
    | markReachable url => rfl
    | isUnreachable url =>
        show CandidateReply.marked _ = .marked _
        rw [DaemonCandidates.isUnreachable, Marks.isMarked_fst,
          h.unreachable nowMs (Int.le_refl nowMs)]
        rfl
    | next =>
        show CandidateReply.endpoint _ = .endpoint _
        rw [h.next_fst]
    | skipped =>
        show CandidateReply.urls _ = .urls _
        rw [DaemonCandidates.skipped, (h.rejected.marked d.found).1, h.found]
        rfl
  next := by
    rintro d r ⟨nowMs, op⟩ h
    cases op with
    | add host port =>
        show Matches nowMs (d.add host port) _
        rw [Matches.add_eq h.found]
        exact { h with found := rfl }
    | clear => exact { h with found := rfl }
    | markKeyRejected url =>
        refine { h with rejected := ?_ }
        show Marks.Tells
          (Function.update d.rejectedUntil url (some (nowMs + d.keyRejectTtlMs))) _ _ _
        rw [h.keyRejectTtlMs]
        exact h.rejected.mark url
    | isKeyRejected url => exact { h with rejected := h.rejected.isMarked url }
    | markUnreachable url =>
        refine { h with unreachable := ?_ }
        show Marks.Tells
          (Function.update d.unreachableUntil url (some (nowMs + d.unreachableTtlMs))) _ _ _
        rw [h.unreachableTtlMs]
        exact h.unreachable.mark url
    | markReachable url => exact { h with unreachable := h.unreachable.unmark url }
    | isUnreachable url => exact { h with unreachable := h.unreachable.isMarked url }
    | next =>
        exact { h with
          rejected := h.rejected.unmarked d.found
          unreachable := h.unreachable.firstUnmarked _ }
    | skipped => exact { h with rejected := (h.rejected.marked d.found).2 }

/-! ## What is offered -/

/-- The operation only asks. -/
def CandidateOp.Asks : CandidateOp → Prop
  | .isKeyRejected _ | .isUnreachable _ | .next | .skipped => True
  | .add _ _ | .clear | .markKeyRejected _ | .markUnreachable _ | .markReachable _ => False

/-- A question changes nothing in the reference. -/
theorem Reference.perform_of_asks {c : CandidateCall} (h : c.op.Asks) (r : Reference) :
    (r.perform c).2 = r := by
  rcases c with ⟨nowMs, op⟩
  cases op with
  | isKeyRejected url => rfl
  | isUnreachable url => rfl
  | next => rfl
  | skipped => rfl
  | add host port => exact h.elim
  | clear => exact h.elim
  | markKeyRejected url => exact h.elim
  | markUnreachable url => exact h.elim
  | markReachable url => exact h.elim

namespace Reference

variable {r : Reference} {nowMs : Int} {e : Endpoint}

theorem offer_eq_none_iff :
    r.offer nowMs = none ↔ ∀ e ∈ r.found, r.rejects nowMs e.url = true := by
  rw [offer, Option.or_eq_none_iff, List.head?_eq_none_iff]
  constructor
  · rintro ⟨-, hnil⟩ e he
    simpa using List.filter_eq_nil_iff.1 hnil e he
  · intro hall
    have hnil : r.eligible nowMs = [] := by
      apply List.filter_eq_nil_iff.2
      intro e he
      simp [hall e he]
    exact ⟨by rw [hnil]; rfl, hnil⟩

/-- What is offered is the first eligible endpoint that does not fail, or the first at all where all
of them fail. -/
theorem offer_eq_some_iff :
    r.offer nowMs = some e ↔
      (∃ before behind, r.eligible nowMs = before ++ e :: behind ∧
        (∀ b ∈ before, r.fails nowMs b.url = true) ∧ r.fails nowMs e.url = false) ∨
      (∀ o ∈ r.eligible nowMs, r.fails nowMs o.url = true) ∧
        (r.eligible nowMs).head? = some e := by
  rw [offer, Option.or_eq_some_iff]
  apply or_congr
  · rw [List.find?_eq_some_iff_append]
    constructor
    · rintro ⟨hgood, before, behind, heq, hbefore⟩
      exact ⟨before, behind, heq, by simpa using hbefore, by simpa using hgood⟩
    · rintro ⟨before, behind, heq, hbefore, hgood⟩
      exact ⟨by simpa using hgood, before, behind, heq, by simpa using hbefore⟩
  · apply and_congr_left'
    rw [List.find?_eq_none]
    simp

end Reference

/-- **The candidates** and the reference give the same answers to every list of calls on a clock
that does not go back; a question changes none of the later ones. What is offered is the first
endpoint, as they were found, that has not rejected the key and does not fail, or the first that has
not rejected the key where all such fail; there is none exactly if all have rejected it. -/
theorem next_and_replies (keyRejectTtlMs unreachableTtlMs : Int) (calls : List CandidateCall)
    (hclock : calls.Pairwise fun a b => a.nowMs ≤ b.nowMs) :
    let d := DaemonCandidates.start keyRejectTtlMs unreachableTtlMs
    let r := Reference.start keyRejectTtlMs unreachableTtlMs
    replies perform d calls = replies Reference.perform r calls ∧
    (∀ before c behind, calls = before ++ c :: behind → c.op.Asks →
      replies perform d calls =
        replies perform d before ++ (perform (after perform d before) c).1 ::
          replies perform (after perform d before) behind) ∧
    ∀ nowMs, (∀ c ∈ calls, c.nowMs ≤ nowMs) →
      let now := after perform d calls
      let ref := after Reference.perform r calls
      let eligible := now.found.filter fun e => !ref.rejects nowMs e.url
      ((now.next nowMs).1 = none ↔ ∀ e ∈ now.found, ref.rejects nowMs e.url = true) ∧
      ∀ e, (now.next nowMs).1 = some e ↔
        (∃ before behind, eligible = before ++ e :: behind ∧
          (∀ b ∈ before, ref.fails nowMs b.url = true) ∧ ref.fails nowMs e.url = false) ∨
        (∀ o ∈ eligible, ref.fails nowMs o.url = true) ∧ eligible.head? = some e := by
  intro d r
  have hstart : ∀ nowMs, Matches nowMs d r := fun nowMs =>
    .start keyRejectTtlMs unreachableTtlMs nowMs
  refine ⟨agree_reference.replies_eq hclock fun c _ => hstart c.nowMs, ?_, ?_⟩
  · rintro before c behind rfl hasks
    rw [replies_append, replies]
    obtain ⟨hbefore, hrest, hcross⟩ := List.pairwise_append.1 hclock
    obtain ⟨hfirst, hbehind⟩ := List.pairwise_cons.1 hrest
    -- before and after the question, the candidates are those of one reference
    have hnow : Matches c.nowMs (after perform d before) (after Reference.perform r before) :=
      agree_reference.after hbefore (fun b _ => hstart b.nowMs)
        (fun b hb => hcross b hb c List.mem_cons_self) (hstart c.nowMs)
    have hnext := agree_reference.next c hnow
    rw [Reference.perform_of_asks hasks] at hnext
    rw [agree_reference.replies_eq hbehind fun b hb => hnext.later (hfirst b hb),
      agree_reference.replies_eq hbehind fun b hb => hnow.later (hfirst b hb)]
  · intro nowMs hlast now ref eligible
    have hnow : Matches nowMs now ref :=
      agree_reference.after hclock (fun c _ => hstart c.nowMs) hlast (hstart nowMs)
    have heligible : eligible = ref.eligible nowMs := by
      show now.found.filter _ = _
      rw [hnow.found]
      rfl
    rw [hnow.next_fst, hnow.found, heligible]
    exact ⟨Reference.offer_eq_none_iff, fun e => Reference.offer_eq_some_iff⟩

theorem next_and_replies_expired :
    replies perform (.start 300000 60000)
      [⟨0, .add ['a'] 80⟩, ⟨5, .markKeyRejected "ws://a:80".toList⟩, ⟨300005, .skipped⟩,
        ⟨300006, .isKeyRejected "ws://a:80".toList⟩, ⟨300006, .skipped⟩] =
    replies Reference.perform (.start 300000 60000)
      [⟨0, .add ['a'] 80⟩, ⟨5, .markKeyRejected "ws://a:80".toList⟩, ⟨300005, .skipped⟩,
        ⟨300006, .isKeyRejected "ws://a:80".toList⟩, ⟨300006, .skipped⟩] :=
  (next_and_replies 300000 60000 _ (by decide)).1

end DialF.Phone
