import Mathlib.Data.List.Perm.Basic
import DialF.Lib.Machine
import DialF.Phone.Candidates

/-!
# The services that are being resolved

A discovery reports services, and the system resolves one at a time, so the app queues them. Each is
asked for when the one before it has been answered; one that fails is put back after a while, until
its name has failed too often in this search. The handlers run one after another on the main thread,
in the order in which they have been posted; the system answers what it has been asked in any order
and at any time, and a new search may start between any two steps.

There is never more than one request, and none is missing while a service waits
(`one_at_a_time_of_reach`). In a search, a service that has been enqueued is not lost
(`tracked_of_run`), and the queue comes to rest by itself (`found_services_settle`).
-/

set_option autoImplicit false

namespace DialF.Phone

open DialF.Lib

/-! ## Services -/

/-- A service as a discovery reports it. -/
structure NsdService where
  serviceName : Str
  serviceType : Option Str
  deriving DecidableEq

/-- A service that has been resolved. -/
structure ResolvedService where
  serviceName : Str
  serviceType : Option Str
  host : Option Str
  port : Int
  deriving DecidableEq

/-- How the system answers a request to resolve. -/
inductive ResolveAnswer where
  | onServiceResolved (resolved : ResolvedService)
  | onResolveFailed
  deriving DecidableEq

/-- `SERVICE_TYPE` of the adverts of wireless debugging. -/
def adbServiceType : Str := "_adb-tls-connect._tcp".toList

/-- Whether an NSD service type (which may carry a trailing dot) is the adb one. -/
def isAdbService (serviceType : Option Str) : Bool :=
  serviceType.any fun t =>
    adbServiceType.isPrefixOf ((t.rdropWhile (· = '.')).dropWhile (· = '.'))

/-- `RESOLVE_RETRIES`. -/
def resolveRetries : Nat := 3

/-! ## The queue -/

/-- What has been posted for the main thread. -/
inductive Posted where
  | found (info : NsdService)
  | answered (info : NsdService) (answer : ResolveAnswer)
  deriving DecidableEq

namespace Posted

/-- The service that it is about. -/
def info : Posted → NsdService
  | .found info => info
  | .answered info _ => info

/-- It is the answer to a request. -/
def isAnswer : Posted → Bool
  | .found _ => false
  | .answered _ _ => true

end Posted

/-- The queue and what surrounds it: the requests that the system has not answered, what is posted,
and the retries that wait for their time. -/
structure Resolver where
  running : Bool
  resolveQueue : List NsdService
  resolveAttempts : Str → Nat
  resolving : Bool
  daemons : DaemonCandidates
  asked : List NsdService
  posted : List Posted
  retries : List NsdService

/-- What can happen to the queue: by the discovery, by the system, or on the main thread. -/
inductive ResolverLabel where
  | onServiceFound (info : NsdService)
  | answer (k : Nat) (answer : ResolveAnswer)
  | main
  | retry
  | startDiscovery
  | mark (rejectedUntil unreachableUntil : Marks)
  | onDestroy

namespace Resolver

/-- The service when it starts to run. -/
def start : Resolver := ⟨true, [], fun _ => 0, false, .start 600000 60000, [], [], []⟩

variable (l : Resolver)

/-- `pumpResolve`: the next of the queue is asked for, unless one is in flight. -/
def pumpResolve : Resolver :=
  if l.resolving || !l.running then l
  else
    match l.resolveQueue with
    | [] => l
    | info :: queue =>
        { l with resolveQueue := queue, resolving := true, asked := l.asked ++ [info] }

/-- `enqueueResolve`. -/
def enqueueResolve (info : NsdService) : Resolver :=
  { l with resolveQueue := l.resolveQueue ++ [info] }.pumpResolve

/-- A daemon becomes a candidate; the connect that follows changes no more than the marks. -/
def offer (resolved : ResolvedService) : Resolver :=
  if isAdbService resolved.serviceType then l
  else
    match resolved.host with
    | some host => { l with daemons := l.daemons.add host resolved.port }
    | none => l

/-- A failure is retried after a while, unless the name has failed too often. -/
def fail (info : NsdService) : Resolver :=
  let n := l.resolveAttempts info.serviceName + 1
  let l := { l with resolveAttempts := Function.update l.resolveAttempts info.serviceName n }
  if n ≤ resolveRetries then { l with retries := l.retries ++ [info] } else l

/-- An answer reaches the main thread: the request is over, and the next one may go. -/
def onAnswer (info : NsdService) : ResolveAnswer → Resolver
  | .onServiceResolved resolved => ({ l with resolving := false }.offer resolved).pumpResolve
  | .onResolveFailed => ({ l with resolving := false }.fail info).pumpResolve

/-- The main thread runs what has been posted. -/
def runPosted : Posted → Resolver
  | .found info => l.enqueueResolve info
  | .answered info answer => l.onAnswer info answer

/-- What one step does to the queue, where it can be taken. -/
def step : ResolverLabel → Option Resolver
  | .onServiceFound info => some { l with posted := l.posted ++ [.found info] }
  | .answer k answer =>
      l.asked[k]?.map fun info =>
        { l with asked := l.asked.eraseIdx k, posted := l.posted ++ [.answered info answer] }
  -- what was posted first runs first
  | .main =>
      match l.posted with
      | p :: posted => some ({ l with posted }.runPosted p)
      | [] => none
  -- all wait for the same time, so the first is due first
  | .retry =>
      match l.retries with
      | info :: retries => some ({ l with retries }.enqueueResolve info)
      | [] => none
  -- the request that is in flight stays so, and so does what has been posted
  | .startDiscovery =>
      some { l with
        daemons := l.daemons.clear, resolveQueue := [], resolveAttempts := fun _ => 0 }
  | .mark rejectedUntil unreachableUntil =>
      some { l with daemons := { l.daemons with rejectedUntil, unreachableUntil } }
  -- the main thread goes on with what has been posted
  | .onDestroy => some { l with running := false }

/-- All runs of the queue from the start of the service. -/
def machine : Machine Resolver ResolverLabel where
  Init l := l = start
  step := step

/-- The answers that have not been handled. -/
def answers : List Posted := l.posted.filter Posted.isAnswer

/-- The services that are on their way, wherever they stand. -/
def waiting : List NsdService := l.posted.map Posted.info ++ l.resolveQueue ++ l.asked ++ l.retries

end Resolver

/-! ## What one step can do -/

namespace Resolver

variable {l t : Resolver} {info : NsdService}

/-- A pump asks for the first service of the queue if it may, and else does nothing. -/
theorem pumpResolve_cases (l : Resolver) :
    (l.pumpResolve = l ∧ (l.resolving = true ∨ l.running = false ∨ l.resolveQueue = [])) ∨
      ∃ info queue, l.resolving = false ∧ l.running = true ∧ l.resolveQueue = info :: queue ∧
        l.pumpResolve =
          { l with resolveQueue := queue, resolving := true, asked := l.asked ++ [info] } := by
  rw [pumpResolve]
  split
  · rename_i hbusy
    simp only [Bool.or_eq_true, Bool.not_eq_true'] at hbusy
    exact Or.inl ⟨rfl, hbusy.imp_right Or.inl⟩
  · rename_i hfree
    simp only [Bool.or_eq_true, Bool.not_eq_true', not_or, Bool.not_eq_true, Bool.not_eq_false]
      at hfree
    cases hqueue : l.resolveQueue with
    | nil => exact Or.inl ⟨rfl, Or.inr (Or.inr rfl)⟩
    | cons info queue => exact Or.inr ⟨info, queue, hfree.1, hfree.2, rfl, rfl⟩

section Pump

variable (l : Resolver)

@[simp] theorem running_pumpResolve : l.pumpResolve.running = l.running := by
  obtain ⟨h, -⟩ | ⟨info, queue, -, -, -, h⟩ := l.pumpResolve_cases
  · rw [h]
  · rw [h]

@[simp] theorem resolveAttempts_pumpResolve :
    l.pumpResolve.resolveAttempts = l.resolveAttempts := by
  obtain ⟨h, -⟩ | ⟨info, queue, -, -, -, h⟩ := l.pumpResolve_cases
  · rw [h]
  · rw [h]

@[simp] theorem daemons_pumpResolve : l.pumpResolve.daemons = l.daemons := by
  obtain ⟨h, -⟩ | ⟨info, queue, -, -, -, h⟩ := l.pumpResolve_cases
  · rw [h]
  · rw [h]

@[simp] theorem posted_pumpResolve : l.pumpResolve.posted = l.posted := by
  obtain ⟨h, -⟩ | ⟨info, queue, -, -, -, h⟩ := l.pumpResolve_cases
  · rw [h]
  · rw [h]

@[simp] theorem retries_pumpResolve : l.pumpResolve.retries = l.retries := by
  obtain ⟨h, -⟩ | ⟨info, queue, -, -, -, h⟩ := l.pumpResolve_cases
  · rw [h]
  · rw [h]

/-- A pump only moves services on. -/
theorem mem_waiting_pumpResolve : info ∈ l.pumpResolve.waiting ↔ info ∈ l.waiting := by
  obtain ⟨h, -⟩ | ⟨first, queue, -, -, hqueue, h⟩ := l.pumpResolve_cases
  · rw [h]
  · rw [h]
    simp only [waiting, hqueue, List.mem_append, List.mem_cons, List.not_mem_nil, or_false]
    tauto

end Pump

/-- An offer changes nothing but the candidates. -/
theorem offer_eq (l : Resolver) (resolved : ResolvedService) :
    ∃ daemons, l.offer resolved = { l with daemons } := by
  unfold offer
  split
  · exact ⟨l.daemons, rfl⟩
  · split
    · exact ⟨_, rfl⟩
    · exact ⟨l.daemons, rfl⟩

/-- A failure counts for its name; if that has not failed too often, the service waits for another
try, and else it is given up. -/
theorem fail_cases (l : Resolver) (info : NsdService) :
    (l.resolveAttempts info.serviceName < resolveRetries ∧
        l.fail info = { l with
          resolveAttempts := Function.update l.resolveAttempts info.serviceName
            (l.resolveAttempts info.serviceName + 1)
          retries := l.retries ++ [info] }) ∨
      (resolveRetries ≤ l.resolveAttempts info.serviceName ∧
        l.fail info = { l with
          resolveAttempts := Function.update l.resolveAttempts info.serviceName
            (l.resolveAttempts info.serviceName + 1) }) := by
  simp only [fail]
  by_cases hretry : l.resolveAttempts info.serviceName < resolveRetries
  · exact Or.inl ⟨hretry, if_pos hretry⟩
  · exact Or.inr ⟨Nat.le_of_not_lt hretry, if_neg hretry⟩

/-- What the main thread does with what it takes from its queue, up to the pump at the end: a
service joins the queue, a resolved one is offered, or one has failed. -/
theorem runPosted_eq (l : Resolver) (p : Posted) :
    l.runPosted p =
      (match p with
        | .found info => { l with resolveQueue := l.resolveQueue ++ [info] }
        | .answered _ (.onServiceResolved resolved) => { l with resolving := false }.offer resolved
        | .answered info .onResolveFailed =>
            { l with resolving := false }.fail info).pumpResolve := by
  match p with
  | .found _ => rfl
  | .answered _ (.onServiceResolved _) => rfl
  | .answered _ .onResolveFailed => rfl

/-! ## One at a time -/

/-- There is a request, or an answer that has not been handled, exactly while the app takes one to
be in flight. -/
def Counted (l : Resolver) : Prop :=
  l.asked.length + l.answers.length = if l.resolving then 1 else 0

/-- One request at most, and one while a service waits in the queue of a running app. -/
structure OneAtATime (l : Resolver) : Prop where
  counted : l.Counted
  busy : l.running = true → l.resolving = false → l.resolveQueue = []

/-- A pump keeps the count, and leaves no queue without a request. -/
theorem oneAtATime_pumpResolve (h : l.Counted) : l.pumpResolve.OneAtATime := by
  obtain ⟨heq, hidle⟩ | ⟨info, queue, hfree, hrunning, -, heq⟩ := l.pumpResolve_cases
  · rw [heq]
    refine ⟨h, fun hrunning hfree => ?_⟩
    rcases hidle with hbusy | hstopped | hempty
    · exact absurd (hfree.symm.trans hbusy) (by simp)
    · exact absurd (hstopped.symm.trans hrunning) (by simp)
    · exact hempty
  · rw [heq]
    refine ⟨?_, fun _ hfree' => absurd hfree' (by simp)⟩
    rw [Counted, hfree] at h
    have hcount : l.asked.length + l.answers.length = 0 := h
    simp only [Counted, List.length_append, List.length_singleton, if_true]
    have hanswers : ({ l with
        resolveQueue := queue, resolving := true, asked := l.asked ++ [info] } : Resolver).answers =
        l.answers := rfl
    rw [hanswers]
    omega

/-- The answer that the main thread handles has been the one in flight. -/
theorem counted_of_answered {p : Posted} {posted : List Posted} (h : l.Counted)
    (hposted : l.posted = p :: posted) :
    if p.isAnswer then
      l.resolving = true ∧ l.asked = [] ∧ posted.filter Posted.isAnswer = []
    else ({ l with posted } : Resolver).Counted := by
  rw [Counted, answers, hposted] at h
  cases hp : p.isAnswer with
  | true =>
      rw [List.filter_cons_of_pos hp, List.length_cons] at h
      cases hresolving : l.resolving with
      | true =>
          rw [hresolving, if_pos rfl] at h
          exact ⟨rfl, List.eq_nil_of_length_eq_zero (by omega),
            List.eq_nil_of_length_eq_zero (by omega)⟩
      | false =>
          rw [hresolving] at h
          simp at h
  | false =>
      rw [List.filter_cons_of_neg (by simp [hp])] at h
      exact h

theorem counted_of_nil (hasked : l.asked = []) (hanswers : l.answers = [])
    (hresolving : l.resolving = false) : l.Counted := by
  rw [Counted, hasked, hanswers, hresolving]
  rfl

theorem oneAtATime_runPosted {p : Posted} {posted : List Posted} (h : l.OneAtATime)
    (hposted : l.posted = p :: posted) :
    (({ l with posted } : Resolver).runPosted p).OneAtATime := by
  have hcounted := counted_of_answered h.counted hposted
  rw [runPosted_eq]
  apply oneAtATime_pumpResolve
  match p with
  | .found info => exact hcounted
  | .answered info (.onServiceResolved resolved) =>
      obtain ⟨-, hasked, hnone⟩ := hcounted
      obtain ⟨daemons, heq⟩ := offer_eq ({ l with posted, resolving := false } : Resolver) resolved
      exact (congrArg Counted heq).mpr (counted_of_nil hasked hnone rfl)
  | .answered info .onResolveFailed =>
      obtain ⟨-, hasked, hnone⟩ := hcounted
      obtain ⟨-, heq⟩ | ⟨-, heq⟩ :=
        fail_cases ({ l with posted, resolving := false } : Resolver) info
      · exact (congrArg Counted heq).mpr (counted_of_nil hasked hnone rfl)
      · exact (congrArg Counted heq).mpr (counted_of_nil hasked hnone rfl)

theorem oneAtATime_step {a : ResolverLabel} (h : l.OneAtATime) (hstep : l.step a = some t) :
    t.OneAtATime := by
  cases a with
  | onServiceFound info =>
      obtain rfl := Option.some.inj hstep
      refine ⟨?_, h.busy⟩
      have hcounted := h.counted
      simp only [Counted, answers, List.filter_append] at hcounted ⊢
      simpa [Posted.isAnswer] using hcounted
  | answer k answer =>
      obtain ⟨info, hk, rfl⟩ := Option.map_eq_some_iff.1 hstep
      -- the request has become an answer, so that there is still one of the two
      refine ⟨?_, h.busy⟩
      have hlt := (List.getElem?_eq_some_iff.1 hk).1
      have hcounted := h.counted
      simp only [Counted, answers, List.filter_append, List.length_append,
        List.length_eraseIdx_of_lt hlt] at hcounted ⊢
      have hone : ([Posted.answered info answer].filter Posted.isAnswer).length = 1 := rfl
      rw [hone]
      omega
  | main =>
      cases hposted : l.posted with
      | nil => simp [step, hposted] at hstep
      | cons p posted =>
          simp only [step, hposted, Option.some.injEq] at hstep
          exact hstep ▸ oneAtATime_runPosted h hposted
  | retry =>
      cases hretries : l.retries with
      | nil => simp [step, hretries] at hstep
      | cons info retries =>
          simp only [step, hretries, Option.some.injEq] at hstep
          rw [← hstep, enqueueResolve]
          exact oneAtATime_pumpResolve h.counted
  | startDiscovery =>
      obtain rfl := Option.some.inj hstep
      exact ⟨h.counted, fun _ _ => rfl⟩
  | mark rejectedUntil unreachableUntil =>
      obtain rfl := Option.some.inj hstep
      exact ⟨h.counted, h.busy⟩
  | onDestroy =>
      obtain rfl := Option.some.inj hstep
      exact ⟨h.counted, fun hrunning => absurd hrunning (by simp)⟩

theorem oneAtATime_of_reach : ∀ l, machine.Reach l → l.OneAtATime := by
  apply Machine.invariant
  · rintro l rfl
    exact ⟨rfl, fun _ _ => rfl⟩
  · intro l a t hl _ hstep
    exact oneAtATime_step hl hstep

/-- A daemon, as it is advertised. -/
def daemonService : NsdService := ⟨"dialfd".toList, some "_dialf._tcp".toList⟩

/-- The daemon is found, and its first resolve fails. -/
def failedResolve : List ResolverLabel :=
  [.onServiceFound daemonService, .main, .answer 0 .onResolveFailed, .main]

/-- And it is resolved when it is retried. -/
def retriedResolve : List ResolverLabel :=
  [.retry,
    .answer 0 (.onServiceResolved
      ⟨"dialfd".toList, some "_dialf._tcp".toList, some "10.0.0.2".toList, 8765⟩),
    .main]

theorem run_retriedResolve : ∃ s t, machine.run start failedResolve = some s ∧
    machine.run s retriedResolve = some t ∧ t.running = true ∧ t.posted = [] ∧ t.asked = [] ∧
      t.retries = [] :=
  ⟨_, _, rfl, rfl, rfl, rfl, rfl, rfl⟩

/-- **One request at a time**: the system is never asked for a service while another request is in
flight, and while a service waits in the queue there is a request, or its answer is about to be
handled. -/
theorem one_at_a_time_of_reach (h : machine.Reach l) :
    l.asked.length + l.answers.length ≤ 1 ∧
      (l.running = true → l.resolveQueue ≠ [] → l.asked.length + l.answers.length = 1) := by
  have hone := oneAtATime_of_reach l h
  have hcounted := hone.counted
  rw [Counted] at hcounted
  cases hresolving : l.resolving with
  | true =>
      rw [hresolving, if_pos rfl] at hcounted
      exact ⟨Nat.le_of_eq hcounted, fun _ _ => hcounted⟩
  | false =>
      rw [hresolving] at hcounted
      refine ⟨by simp [hcounted], fun hrunning hqueue => ?_⟩
      exact absurd (hone.busy hrunning hresolving) hqueue

/-- Two daemons are found, and the second one waits for the answer of the first. -/
def foundTwo : List ResolverLabel :=
  [.onServiceFound daemonService, .onServiceFound ⟨"dialfd (2)".toList, some "_dialf._tcp".toList⟩,
    .main, .main]

theorem one_at_a_time_foundTwo : ∃ s, machine.run start foundTwo = some s ∧
    s.resolveQueue.length = 1 ∧ s.asked.length + s.answers.length ≤ 1 ∧
      s.asked.length + s.answers.length = 1 := by
  obtain ⟨s, hs, hrunning, hqueue⟩ : ∃ s, machine.run start foundTwo = some s ∧
      s.running = true ∧ s.resolveQueue.length = 1 := ⟨_, rfl, rfl, rfl⟩
  obtain ⟨hmost, hleast⟩ := one_at_a_time_of_reach (Machine.reach_of_run (.init rfl) hs)
  refine ⟨s, hs, hqueue, hmost, hleast hrunning ?_⟩
  exact List.ne_nil_of_length_eq_add_one hqueue

end Resolver

/-! ## What becomes of a service -/

/-- What has happened to the services, and the searches that have begun. -/
inductive Seen where
  | searched
  | enqueued (info : NsdService)
  | resolved (info : NsdService) (resolved : ResolvedService)
  | failed (info : NsdService)
  deriving DecidableEq

/-- The URL of a daemon that has been resolved, if it can be dialled. -/
def ResolvedService.daemonUrl (resolved : ResolvedService) : Option Str :=
  if isAdbService resolved.serviceType then none
  else resolved.host.bind fun host => wsUrl host resolved.port

/-- What is seen of a post that is run. -/
def Posted.seen : Posted → Seen
  | .found info => .enqueued info
  | .answered info (.onServiceResolved resolved) => .resolved info resolved
  | .answered info .onResolveFailed => .failed info

namespace Seen

/-- A failure of the name. -/
def fails (name : Str) : Seen → Bool
  | .failed info => info.serviceName = name
  | _ => false

/-- What has been seen since the search began. -/
def latest (seen : List Seen) : List Seen :=
  seen.foldl (fun w e => if e = .searched then [] else w ++ [e]) []

/-- How often the name has failed. -/
def failures (w : List Seen) (name : Str) : Nat := w.countP (fails name)

/-- The service has been resolved, or its name has failed too often. -/
def Done (w : List Seen) (info : NsdService) : Prop :=
  (∃ resolved, Seen.resolved info resolved ∈ w) ∨ resolveRetries < failures w info.serviceName

theorem latest_append (seen : List Seen) (e : Seen) :
    latest (seen ++ [e]) = if e = .searched then [] else latest seen ++ [e] := by
  rw [latest, List.foldl_append]
  rfl

theorem latest_append_of_ne {e : Seen} (he : e ≠ .searched) (seen : List Seen) :
    latest (seen ++ [e]) = latest seen ++ [e] := (latest_append seen e).trans (if_neg he)

theorem failures_append (w : List Seen) (e : Seen) (name : Str) :
    failures (w ++ [e]) name = failures w name + if e.fails name then 1 else 0 := by
  rw [failures, List.countP_append, List.countP_singleton]
  rfl

theorem Done.append {w : List Seen} {info : NsdService} (h : Done w info) (e : Seen) :
    Done (w ++ [e]) info := by
  rcases h with ⟨resolved, hmem⟩ | hfailed
  · exact Or.inl ⟨resolved, List.mem_append_left _ hmem⟩
  · refine Or.inr (Nat.lt_of_lt_of_le hfailed ?_)
    rw [failures_append]
    exact Nat.le_add_right _ _

end Seen

theorem DaemonCandidates.mem_add_iff (d : DaemonCandidates) (host : Str) (port : Int) (url : Str) :
    (∃ e ∈ (d.add host port).found, e.url = url) ↔
      (∃ e ∈ d.found, e.url = url) ∨ wsUrl host port = some url := by
  unfold DaemonCandidates.add
  split
  · rename_i hnone
    simp [hnone]
  · rename_i u hsome
    simp only [hsome, Option.some.injEq]
    split
    · rename_i hany
      simp only [List.any_eq_true, decide_eq_true_eq] at hany
      constructor
      · exact Or.inl
      · rintro (h | rfl)
        · exact h
        · exact hany
    · simp only [List.mem_append, List.mem_singleton]
      constructor
      · rintro ⟨e, he | rfl, hurl⟩
        · exact Or.inl ⟨e, he, hurl⟩
        · exact Or.inr hurl
      · rintro (⟨e, he, hurl⟩ | hurl)
        · exact ⟨e, Or.inl he, hurl⟩
        · exact ⟨_, Or.inr rfl, hurl⟩

namespace Resolver

variable {l t : Resolver} {info : NsdService} {seen : List Seen}

/-- What is seen of a step. -/
def obs (l : Resolver) : ResolverLabel → List Seen
  | .main => (l.posted.head?.map Posted.seen).toList
  | .retry => (l.retries.head?.map Seen.enqueued).toList
  | .startDiscovery => [.searched]
  | _ => []

theorem mem_offer_iff (l : Resolver) (resolved : ResolvedService) (url : Str) :
    (∃ e ∈ (l.offer resolved).daemons.found, e.url = url) ↔
      (∃ e ∈ l.daemons.found, e.url = url) ∨ resolved.daemonUrl = some url := by
  unfold offer ResolvedService.daemonUrl
  split
  · simp
  · cases resolved.host with
    | none => simp
    | some host => exact l.daemons.mem_add_iff host resolved.port url

/-- The attempts are those of this search, the candidates are the daemons that it has resolved, and
what has been enqueued in it is on its way or done with. -/
structure Tracked (seen : List Seen) (l : Resolver) : Prop where
  attempts : ∀ name, l.resolveAttempts name = Seen.failures (Seen.latest seen) name
  candidates : ∀ url, (∃ e ∈ l.daemons.found, e.url = url) ↔
    ∃ info resolved, Seen.resolved info resolved ∈ Seen.latest seen ∧
      resolved.daemonUrl = some url
  kept : ∀ info, Seen.enqueued info ∈ Seen.latest seen →
    info ∈ l.waiting ∨ Seen.Done (Seen.latest seen) info

/-- A pump loses track of nothing. -/
theorem Tracked.pumpResolve (h : Tracked seen l) : Tracked seen l.pumpResolve where
  attempts name := by rw [resolveAttempts_pumpResolve, h.attempts]
  candidates url := by rw [daemons_pumpResolve, h.candidates]
  kept info hinfo := (h.kept info hinfo).imp_left (mem_waiting_pumpResolve l).2

/-- What has been taken from the main thread's queue is no longer on its way there. -/
theorem mem_waiting_of_posted {p : Posted} {posted : List Posted} (hposted : l.posted = p :: posted)
    (h : info ∈ l.waiting) : info = p.info ∨ info ∈ ({ l with posted } : Resolver).waiting := by
  simp only [waiting, hposted, List.map_cons, List.mem_append, List.mem_cons] at h ⊢
  tauto

/-- What has been enqueued is what has just been taken, or it is still on its way, or it is done
with. -/
theorem Tracked.kept_of_posted {p : Posted} {posted : List Posted} (h : Tracked seen l)
    (hposted : l.posted = p :: posted) (e : Seen) (hinfo : Seen.enqueued info ∈ Seen.latest seen) :
    info = p.info ∨ info ∈ ({ l with posted } : Resolver).waiting ∨
      Seen.Done (Seen.latest seen ++ [e]) info := by
  rcases h.kept info hinfo with hwaits | hdone
  · rcases mem_waiting_of_posted hposted hwaits with heq | hwaits
    · exact Or.inl heq
    · exact Or.inr (Or.inl hwaits)
  · exact Or.inr (Or.inr (hdone.append e))

/-- A service joins the queue, from what has been posted or from the retries. -/
theorem Tracked.enqueued {first : NsdService} (h : Tracked seen l)
    (hattempts : t.resolveAttempts = l.resolveAttempts)
    (hfound : t.daemons.found = l.daemons.found) (hfirst : first ∈ t.waiting)
    (hwaiting : ∀ info ∈ l.waiting, info ∈ t.waiting) : Tracked (seen ++ [.enqueued first]) t := by
  have hlatest := Seen.latest_append_of_ne (e := .enqueued first) (by simp) seen
  refine ⟨fun name => ?_, fun url => ?_, fun info hinfo => ?_⟩
  · rw [hlatest, Seen.failures_append, hattempts]
    exact h.attempts name
  · rw [hlatest, hfound]
    refine (h.candidates url).trans ?_
    simp
  · rw [hlatest] at hinfo ⊢
    rcases List.mem_append.1 hinfo with hold | hnew
    · exact (h.kept info hold).imp (hwaiting info) fun hdone => hdone.append _
    · simp only [List.mem_singleton, Seen.enqueued.injEq] at hnew
      exact Or.inl (hnew ▸ hfirst)

/-- A service that has been resolved is offered as a candidate. -/
theorem tracked_offer {first : NsdService} {resolved : ResolvedService} {posted : List Posted}
    (h : Tracked seen l)
    (hposted : l.posted = .answered first (.onServiceResolved resolved) :: posted) :
    Tracked (seen ++ [.resolved first resolved])
      (({ l with posted, resolving := false } : Resolver).offer resolved) := by
  have hlatest := Seen.latest_append_of_ne (e := .resolved first resolved) (by simp) seen
  obtain ⟨daemons, heq⟩ := offer_eq ({ l with posted, resolving := false } : Resolver) resolved
  refine ⟨fun name => ?_, fun url => ?_, fun info hinfo => ?_⟩
  · rw [hlatest, Seen.failures_append]
    exact (congrFun (congrArg Resolver.resolveAttempts heq) name).trans (h.attempts name)
  · rw [hlatest]
    refine (mem_offer_iff _ _ _).trans ?_
    simp only [List.mem_append, List.mem_singleton, Seen.resolved.injEq]
    constructor
    · rintro (hfound | hurl)
      · obtain ⟨info, r, hr, hurl⟩ := (h.candidates url).1 hfound
        exact ⟨info, r, Or.inl hr, hurl⟩
      · exact ⟨first, resolved, Or.inr ⟨rfl, rfl⟩, hurl⟩
    · rintro ⟨info, r, hr | ⟨rfl, rfl⟩, hurl⟩
      · exact Or.inl ((h.candidates url).2 ⟨info, r, hr, hurl⟩)
      · exact Or.inr hurl
  · rw [hlatest] at hinfo ⊢
    have hold : Seen.enqueued info ∈ Seen.latest seen := by simpa using hinfo
    rcases h.kept_of_posted hposted (.resolved first resolved) hold with rfl | hwaits | hdone
    · exact Or.inr (Or.inl ⟨resolved, by simp⟩)
    · exact Or.inl ((congrArg (info ∈ ·.waiting) heq).mpr hwaits)
    · exact Or.inr hdone

/-- A failure counts as an attempt, and the service is retried unless there have been too many. -/
theorem tracked_fail {first : NsdService} {posted : List Posted} (h : Tracked seen l)
    (hposted : l.posted = .answered first .onResolveFailed :: posted) :
    Tracked (seen ++ [.failed first])
      (({ l with posted, resolving := false } : Resolver).fail first) := by
  have hlatest := Seen.latest_append_of_ne (e := .failed first) (by simp) seen
  have hattempts : ∀ name, Function.update l.resolveAttempts first.serviceName
      (l.resolveAttempts first.serviceName + 1) name =
        Seen.failures (Seen.latest seen ++ [Seen.failed first]) name := by
    intro name
    rw [Seen.failures_append, Seen.fails]
    by_cases hname : first.serviceName = name
    · subst hname
      simp [h.attempts]
    · rw [Function.update_of_ne (Ne.symm hname), h.attempts]
      simp [hname]
  have hcandidates : ∀ url, (∃ e ∈ l.daemons.found, e.url = url) ↔
      ∃ info resolved, Seen.resolved info resolved ∈ Seen.latest seen ++ [Seen.failed first] ∧
        resolved.daemonUrl = some url := by
    intro url
    refine (h.candidates url).trans ?_
    simp
  have hkept : ∀ info, Seen.enqueued info ∈ Seen.latest seen ++ [Seen.failed first] →
      info = first ∨ info ∈ ({ l with posted } : Resolver).waiting ∨
        Seen.Done (Seen.latest seen ++ [Seen.failed first]) info := by
    intro info hinfo
    have hold : Seen.enqueued info ∈ Seen.latest seen := by simpa using hinfo
    exact h.kept_of_posted hposted (.failed first) hold
  obtain ⟨-, heq⟩ | ⟨hmany, heq⟩ :=
    fail_cases ({ l with posted, resolving := false } : Resolver) first
  · refine (congrArg (Tracked _) heq).mpr ⟨?_, ?_, ?_⟩
    · rw [hlatest]
      exact hattempts
    · rw [hlatest]
      exact hcandidates
    · rw [hlatest]
      intro info hinfo
      rcases hkept info hinfo with rfl | hwaits | hdone
      · exact Or.inl (by simp [waiting])
      · refine Or.inl ?_
        simp only [waiting, List.mem_append] at hwaits ⊢
        tauto
      · exact Or.inr hdone
  · refine (congrArg (Tracked _) heq).mpr ⟨?_, ?_, ?_⟩
    · rw [hlatest]
      exact hattempts
    · rw [hlatest]
      exact hcandidates
    · rw [hlatest]
      intro info hinfo
      rcases hkept info hinfo with rfl | hwaits | hdone
      -- its name has failed too often
      · refine Or.inr (Or.inr ?_)
        have hfailed := hattempts info.serviceName
        rw [Function.update_self] at hfailed
        exact hfailed ▸ Nat.lt_succ_of_le hmany
      · exact Or.inl hwaits
      · exact Or.inr hdone

theorem tracked_runPosted {p : Posted} {posted : List Posted} (h : Tracked seen l)
    (hposted : l.posted = p :: posted) :
    Tracked (seen ++ [p.seen]) (({ l with posted } : Resolver).runPosted p) := by
  rw [runPosted_eq]
  apply Tracked.pumpResolve
  match p with
  | .found first =>
      refine h.enqueued rfl rfl (by simp [waiting]) fun info hinfo => ?_
      simp only [waiting, hposted, List.map_cons, Posted.info, List.mem_append,
        List.mem_cons] at hinfo ⊢
      tauto
  | .answered first (.onServiceResolved resolved) => exact tracked_offer (l := l) h hposted
  | .answered first .onResolveFailed => exact tracked_fail (l := l) h hposted

/-- A step that only moves services on, or has a service found, keeps track. -/
theorem Tracked.of_waiting (h : Tracked seen l) (hattempts : t.resolveAttempts = l.resolveAttempts)
    (hfound : t.daemons.found = l.daemons.found)
    (hwaiting : ∀ info ∈ l.waiting, info ∈ t.waiting) : Tracked (seen ++ []) t := by
  rw [List.append_nil]
  refine ⟨fun name => ?_, fun url => ?_,
    fun info hinfo => (h.kept info hinfo).imp_left (hwaiting _)⟩
  · rw [hattempts, h.attempts]
  · rw [hfound, h.candidates]

theorem tracked_step {a : ResolverLabel} (h : Tracked seen l) (hstep : l.step a = some t) :
    Tracked (seen ++ l.obs a) t := by
  cases a with
  | onServiceFound info =>
      obtain rfl := Option.some.inj hstep
      refine h.of_waiting rfl rfl fun other hother => ?_
      simp only [waiting, List.map_append, List.mem_append] at hother ⊢
      tauto
  | answer k answer =>
      obtain ⟨info, hk, rfl⟩ := Option.map_eq_some_iff.1 hstep
      obtain ⟨hlt, rfl⟩ := List.getElem?_eq_some_iff.1 hk
      refine h.of_waiting rfl rfl fun other hother => ?_
      have hperm := (List.getElem_cons_eraseIdx_perm hlt).mem_iff (a := other)
      simp only [waiting, List.map_append, List.map_cons, List.map_nil, Posted.info,
        List.mem_append, List.mem_cons, List.not_mem_nil, or_false, ← hperm] at hother ⊢
      tauto
  | main =>
      cases hposted : l.posted with
      | nil => simp [step, hposted] at hstep
      | cons p posted =>
          simp only [step, hposted, Option.some.injEq] at hstep
          have hobs : l.obs .main = [p.seen] := by
            rw [obs, hposted]
            rfl
          rw [hobs, ← hstep]
          exact tracked_runPosted h hposted
  | retry =>
      cases hretries : l.retries with
      | nil => simp [step, hretries] at hstep
      | cons info retries =>
          simp only [step, hretries, Option.some.injEq] at hstep
          have hobs : l.obs .retry = [.enqueued info] := by
            rw [obs, hretries]
            rfl
          rw [hobs, ← hstep, enqueueResolve]
          apply Tracked.pumpResolve
          refine h.enqueued rfl rfl (by simp [waiting]) fun other hother => ?_
          simp only [waiting, hretries, List.mem_append, List.mem_cons] at hother ⊢
          tauto
  | startDiscovery =>
      obtain rfl := Option.some.inj hstep
      -- a search starts with nothing seen, no attempts and no candidates
      have hlatest : Seen.latest (seen ++ l.obs .startDiscovery) = [] :=
        (Seen.latest_append seen .searched).trans (if_pos rfl)
      refine ⟨fun name => ?_, fun url => ?_, fun info hinfo => ?_⟩
      · rw [hlatest]
        rfl
      · rw [hlatest]
        simp [DaemonCandidates.clear]
      · rw [hlatest] at hinfo
        exact absurd hinfo (by simp)
  | mark rejectedUntil unreachableUntil =>
      obtain rfl := Option.some.inj hstep
      exact h.of_waiting rfl rfl fun _ hother => hother
  | onDestroy =>
      obtain rfl := Option.some.inj hstep
      exact h.of_waiting rfl rfl fun _ hother => hother

theorem tracked_of_run {as : List ResolverLabel} (hrun : machine.run start as = some l) :
    Tracked (machine.collect obs start as) l := by
  have hstart : Tracked [] start := by
    refine ⟨fun _ => rfl, fun url => ?_, fun info hinfo => absurd hinfo (by simp [Seen.latest])⟩
    simp [start, DaemonCandidates.start, Seen.latest]
  exact Machine.run_collect obs (R := Tracked) (fun _ _ _ _ h _ hstep => tracked_step h hstep) []
    hstart (Machine.meets_true _ _) hrun

/-! ## The queue comes to rest -/

/-- How often a name may still be retried, over some names. -/
def retriesLeft (attempts : Str → Nat) : List Str → Nat
  | [] => 0
  | name :: names => (resolveRetries - attempts name) + retriesLeft attempts names

theorem retriesLeft_update_le (attempts : Str → Nat) (names : List Str) (name : Str) :
    retriesLeft (Function.update attempts name (attempts name + 1)) names ≤
      retriesLeft attempts names := by
  induction names with
  | nil => exact Nat.le_refl 0
  | cons first names ih =>
      rw [retriesLeft, retriesLeft]
      by_cases hfirst : first = name
      · subst hfirst
        rw [Function.update_self]
        omega
      · rw [Function.update_of_ne hfirst]
        omega

/-- A failure that is retried uses up a retry of its name. -/
theorem retriesLeft_update_lt {attempts : Str → Nat} {names : List Str} {name : Str}
    (hname : name ∈ names) (hretry : attempts name < resolveRetries) :
    retriesLeft (Function.update attempts name (attempts name + 1)) names <
      retriesLeft attempts names := by
  induction names with
  | nil => exact absurd hname List.not_mem_nil
  | cons first names ih =>
      have hle := retriesLeft_update_le attempts names name
      rw [retriesLeft, retriesLeft]
      by_cases hfirst : first = name
      · subst hfirst
        rw [Function.update_self]
        omega
      · rw [Function.update_of_ne hfirst]
        have hlt := ih ((List.mem_cons.1 hname).resolve_left (Ne.symm hfirst))
        omega

end Resolver

/-- A step by which what is on its way goes on. -/
def ResolverLabel.isOwn : ResolverLabel → Bool
  | .answer _ _ => true
  | .main => true
  | .retry => true
  | _ => false

/-- The steps that something posted has before it, retries apart. -/
def Posted.work : Posted → Nat
  | .found _ => 4
  | .answered _ _ => 1

/-- The steps that are left for what has been posted. -/
def postedWork : List Posted → Nat
  | [] => 0
  | p :: posted => p.work + postedWork posted

theorem postedWork_append (posted : List Posted) (p : Posted) :
    postedWork (posted ++ [p]) = postedWork posted + p.work := by
  induction posted with
  | nil => exact Nat.add_comm _ _
  | cons first posted ih =>
      rw [List.cons_append, postedWork, postedWork, ih, Nat.add_assoc]

theorem postedWork_le (posted : List Posted) : postedWork posted ≤ 4 * posted.length := by
  induction posted with
  | nil => exact Nat.le_refl 0
  | cons p posted ih =>
      have hp : p.work ≤ 4 := by
        cases p with
        | found info => exact Nat.le_refl 4
        | answered info answer => exact Nat.le_of_ble_eq_true rfl
      rw [postedWork, List.length_cons]
      omega

namespace Resolver

variable {l t : Resolver} {info : NsdService} {names : List Str} {a : ResolverLabel}

/-- The steps that are left for what is on its way: four up to an answer that has been handled, and
four for each retry. -/
def work (names : List Str) (l : Resolver) : Nat :=
  postedWork l.posted + 3 * l.resolveQueue.length + 2 * l.asked.length +
    4 * l.retries.length + 4 * retriesLeft l.resolveAttempts names

theorem work_pumpResolve_le (names : List Str) (l : Resolver) :
    l.pumpResolve.work names ≤ l.work names := by
  obtain ⟨h, -⟩ | ⟨info, queue, -, -, hqueue, h⟩ := l.pumpResolve_cases
  · rw [h]
  · rw [h]
    simp only [work, hqueue, List.length_cons, List.length_append, List.length_nil]
    omega

/-- Nothing new comes from handling what has been posted. -/
theorem mem_waiting_of_runPosted {p : Posted} {posted : List Posted}
    (hposted : l.posted = p :: posted)
    (h : info ∈ (({ l with posted } : Resolver).runPosted p).waiting) : info ∈ l.waiting := by
  rw [runPosted_eq, mem_waiting_pumpResolve] at h
  match p with
  | .found first =>
      simp only [waiting, hposted, List.map_cons, Posted.info, List.mem_append, List.mem_cons,
        List.not_mem_nil, or_false] at h ⊢
      tauto
  | .answered first (.onServiceResolved resolved) =>
      obtain ⟨daemons, heq⟩ := offer_eq ({ l with posted, resolving := false } : Resolver) resolved
      have hrest := (congrArg (info ∈ ·.waiting) heq).mp h
      simp only [waiting, hposted, List.map_cons, List.mem_append, List.mem_cons] at hrest ⊢
      tauto
  | .answered first .onResolveFailed =>
      obtain ⟨-, heq⟩ | ⟨-, heq⟩ :=
        fail_cases ({ l with posted, resolving := false } : Resolver) first
      · have hrest := (congrArg (info ∈ ·.waiting) heq).mp h
        simp only [waiting, hposted, List.map_cons, Posted.info, List.mem_append, List.mem_cons,
          List.not_mem_nil, or_false] at hrest ⊢
        tauto
      · have hrest := (congrArg (info ∈ ·.waiting) heq).mp h
        simp only [waiting, hposted, List.map_cons, List.mem_append, List.mem_cons] at hrest ⊢
        tauto

/-- A service that is handled has one step less before it, also where it is retried, for that is one
of the retries that its name has left. -/
theorem work_runPosted_lt {p : Posted} {posted : List Posted} (hposted : l.posted = p :: posted)
    (hnames : p.info.serviceName ∈ names) :
    (({ l with posted } : Resolver).runPosted p).work names < l.work names := by
  have hwork : l.work names = p.work + ({ l with posted } : Resolver).work names := by
    simp only [work, hposted, postedWork]
    omega
  rw [runPosted_eq, hwork]
  refine Nat.lt_of_le_of_lt (work_pumpResolve_le _ _) ?_
  match p with
  | .found first =>
      simp only [work, Posted.work, List.length_append, List.length_cons, List.length_nil]
      omega
  | .answered first (.onServiceResolved resolved) =>
      obtain ⟨daemons, heq⟩ := offer_eq ({ l with posted, resolving := false } : Resolver) resolved
      refine (congrArg (work names) heq).trans_lt ?_
      simp only [work, Posted.work]
      omega
  | .answered first .onResolveFailed =>
      obtain ⟨hretry, heq⟩ | ⟨-, heq⟩ :=
        fail_cases ({ l with posted, resolving := false } : Resolver) first
      · refine (congrArg (work names) heq).trans_lt ?_
        have hleft : l.resolveAttempts first.serviceName < resolveRetries := hretry
        have hlt := retriesLeft_update_lt hnames hleft
        simp only [Posted.info] at hlt
        simp only [work, Posted.work, List.length_append, List.length_cons, List.length_nil]
        omega
      · refine (congrArg (work names) heq).trans_lt ?_
        have hle := retriesLeft_update_le l.resolveAttempts names first.serviceName
        simp only [work, Posted.work]
        omega

/-- The names that cover what is on its way go on to do so, and there is less work left. -/
theorem work_step_lt (hnames : ∀ info ∈ l.waiting, info.serviceName ∈ names)
    (hown : a.isOwn = true) (hstep : l.step a = some t) :
    (∀ info ∈ t.waiting, info.serviceName ∈ names) ∧ t.work names < l.work names := by
  cases a with
  | answer k answer =>
      obtain ⟨info, hk, rfl⟩ := Option.map_eq_some_iff.1 hstep
      obtain ⟨hlt, rfl⟩ := List.getElem?_eq_some_iff.1 hk
      refine ⟨fun other hother => hnames other ?_, ?_⟩
      · have hperm := (List.getElem_cons_eraseIdx_perm hlt).mem_iff (a := other)
        simp only [waiting, List.map_append, List.map_cons, List.map_nil, Posted.info,
          List.mem_append, List.mem_cons, List.not_mem_nil, or_false, ← hperm] at hother ⊢
        tauto
      -- an answer weighs less than the request it is to
      · simp only [work, postedWork_append, Posted.work, List.length_eraseIdx_of_lt hlt]
        omega
  | main =>
      cases hposted : l.posted with
      | nil => simp [step, hposted] at hstep
      | cons p posted =>
          simp only [step, hposted, Option.some.injEq] at hstep
          rw [← hstep]
          refine ⟨fun other hother => hnames other (mem_waiting_of_runPosted hposted hother), ?_⟩
          apply work_runPosted_lt hposted
          apply hnames
          simp [waiting, hposted]
  | retry =>
      cases hretries : l.retries with
      | nil => simp [step, hretries] at hstep
      | cons info retries =>
          simp only [step, hretries, Option.some.injEq] at hstep
          rw [← hstep, enqueueResolve]
          refine ⟨fun other hother => hnames other ?_, ?_⟩
          · rw [mem_waiting_pumpResolve] at hother
            simp only [waiting, hretries, List.mem_append, List.mem_cons, List.not_mem_nil,
              or_false] at hother ⊢
            tauto
          · refine Nat.lt_of_le_of_lt (work_pumpResolve_le _ _) ?_
            simp only [work, hretries, List.length_append, List.length_cons, List.length_nil]
            omega
  | onServiceFound info => simp [ResolverLabel.isOwn] at hown
  | startDiscovery => simp [ResolverLabel.isOwn] at hown
  | mark rejectedUntil unreachableUntil => simp [ResolverLabel.isOwn] at hown
  | onDestroy => simp [ResolverLabel.isOwn] at hown

theorem retriesLeft_le (attempts : Str → Nat) (names : List Str) :
    retriesLeft attempts names ≤ 3 * names.length := by
  induction names with
  | nil => exact Nat.le_refl 0
  | cons name names ih =>
      have hname : resolveRetries - attempts name ≤ 3 := Nat.sub_le _ _
      rw [retriesLeft, List.length_cons]
      omega

/-- A service on its way has at most four tries of four steps before it. -/
theorem work_le (l : Resolver) :
    l.work (l.waiting.map NsdService.serviceName) ≤ 16 * l.waiting.length := by
  have hposted := postedWork_le l.posted
  have hretries := retriesLeft_le l.resolveAttempts (l.waiting.map NsdService.serviceName)
  have hlength : l.waiting.length =
      l.posted.length + l.resolveQueue.length + l.asked.length + l.retries.length := by
    simp only [waiting, List.length_append, List.length_map]
  rw [List.length_map] at hretries
  rw [work]
  omega

/-- Where the system has answered, and neither the main thread nor a timer has anything to do,
nothing is on its way. -/
theorem waiting_eq_nil (h : l.OneAtATime) (hrunning : l.running = true)
    (hquiet : ∀ a : ResolverLabel, a.isOwn = true → l.step a = none) : l.waiting = [] := by
  have hposted : l.posted = [] := by
    have hmain := hquiet .main rfl
    cases hposted : l.posted with
    | nil => rfl
    | cons p posted => simp [step, hposted] at hmain
  have hasked : l.asked = [] := by
    have hanswer := hquiet (.answer 0 .onResolveFailed) rfl
    cases hasked : l.asked with
    | nil => rfl
    | cons info asked => simp [step, hasked] at hanswer
  have hretries : l.retries = [] := by
    have hretry := hquiet .retry rfl
    cases hretries : l.retries with
    | nil => rfl
    | cons info retries => simp [step, hretries] at hretry
  have hqueue : l.resolveQueue = [] := by
    apply h.busy hrunning
    have hcounted := h.counted
    rw [Counted, answers, hasked, hposted] at hcounted
    cases hresolving : l.resolving with
    | false => rfl
    | true =>
        rw [hresolving] at hcounted
        exact absurd hcounted (by simp)
  rw [waiting, hposted, hasked, hretries, hqueue]
  rfl

/-- **The services that have been found settle**: whatever has happened, the queue comes to rest
within sixteen steps for each service on its way. In a running app, at rest, every service that was
enqueued in the search has been resolved, or its name has failed more often than it is retried; and
the candidates are the daemons that have been resolved in the search and can be dialled. -/
theorem found_services_settle {s : Resolver} {as bs : List ResolverLabel}
    (hrun : machine.run start as = some s) (hown : ∀ a ∈ bs, a.isOwn = true)
    (hrun' : machine.run s bs = some t) :
    bs.length ≤ 16 * s.waiting.length ∧
      (t.running = true → (∀ a : ResolverLabel, a.isOwn = true → t.step a = none) →
        t.waiting = [] ∧ ∀ info,
          Seen.enqueued info ∈ Seen.latest (machine.collect obs start (as ++ bs)) →
            Seen.Done (Seen.latest (machine.collect obs start (as ++ bs))) info) ∧
      ∀ url, (∃ e ∈ t.daemons.found, e.url = url) ↔
        ∃ info resolved,
          Seen.resolved info resolved ∈ Seen.latest (machine.collect obs start (as ++ bs)) ∧
            resolved.daemonUrl = some url := by
  have hwhole : machine.run start (as ++ bs) = some t := by
    rw [Machine.run_append, hrun]
    exact hrun'
  have htracked := tracked_of_run hwhole
  refine ⟨?_, fun hrunning hquiet => ?_, htracked.candidates⟩
  · have hlength := Machine.length_le_of_measure
      (I := fun l : Resolver => ∀ info ∈ l.waiting,
        info.serviceName ∈ s.waiting.map NsdService.serviceName)
      (fun _ _ _ hnames hown hstep => work_step_lt hnames hown hstep)
      (fun _ hinfo => List.mem_map_of_mem hinfo) (Machine.meets_of_forall hown s) hrun'
    exact (Nat.le_add_right _ _).trans (hlength.trans (work_le s))
  · have hone := oneAtATime_of_reach t (Machine.reach_of_run (.init rfl) hwhole)
    have hnone := waiting_eq_nil hone hrunning hquiet
    refine ⟨hnone, fun info hinfo => ?_⟩
    rcases htracked.kept info hinfo with hwaits | hdone
    · rw [hnone] at hwaits
      exact absurd hwaits List.not_mem_nil
    · exact hdone

theorem found_services_settle_retried : ∃ s t, machine.run start failedResolve = some s ∧
    machine.run s retriedResolve = some t ∧ retriedResolve.length ≤ 16 * s.waiting.length ∧
      t.waiting = [] := by
  obtain ⟨s, t, hs, ht, hrunning, hposted, hasked, hretries⟩ := run_retriedResolve
  have hquiet : ∀ a : ResolverLabel, a.isOwn = true → t.step a = none := by
    intro a hown
    cases a with
    | answer k answer => simp [step, hasked]
    | main => simp [step, hposted]
    | retry => simp [step, hretries]
    | onServiceFound info => simp [ResolverLabel.isOwn] at hown
    | startDiscovery => simp [ResolverLabel.isOwn] at hown
    | mark rejectedUntil unreachableUntil => simp [ResolverLabel.isOwn] at hown
    | onDestroy => simp [ResolverLabel.isOwn] at hown
  obtain ⟨hlength, hrest, -⟩ := found_services_settle hs (by decide) ht
  exact ⟨s, t, hs, ht, hlength, (hrest hrunning hquiet).1⟩

end Resolver

end DialF.Phone
