import Mathlib.Logic.Basic

/-!
# Starting a share

`start` binds the listener of the share's own port and then, one by one, those of the forward ports.
Each forward listener is handed to a task of its own at once. The handles of these tasks are kept in
a vector, and dropping the handle of a task lets the task run on: when a later bind fails, `start`
returns the error, its own listener is closed, and the forward loops spawned so far keep theirs.

The host is a list of open listeners and of what the operating system refuses. `leavesNothing_iff`
says where the first failure has to stand for a failed start to leave the host as it was.
-/

set_option autoImplicit false

namespace DialF.Share

/-- An address to listen on. -/
structure SocketAddr where
  ip : Nat
  port : Nat
  deriving DecidableEq

/-- What is shared, as far as `start` looks at it. -/
structure ResolvedShare where
  bind : SocketAddr
  token : Option String
  expiresAfter : Option Nat
  forwardPorts : List Nat
  deriving DecidableEq

/-- `require_auth`. -/
def ResolvedShare.requireAuth (config : ResolvedShare) : Bool := config.token.isSome

/-- Who holds a listener: a program or a share that is there already, a local variable of `start`,
or a spawned task. -/
inductive Holder where
  | other
  | local
  | acceptLoop (config : ResolvedShare)
  | forwardLoop (port : Nat) (requireAuth : Bool) (expiresAfter : Option Nat)
  deriving DecidableEq

/-- A socket that listens, and who holds it. -/
structure Listener where
  fd : Nat
  addr : SocketAddr
  holder : Holder
  deriving DecidableEq

/-- The listeners of a host. Each has a number of its own. -/
structure Host where
  listeners : List Listener
  nextFd : Nat
  fresh : ∀ l ∈ listeners, l.fd < nextFd

/-- What the operating system says: which addresses it refuses for reasons of its own, which clash,
the port that it assigns where none is asked for, the wildcard address, and the host's addresses. -/
structure Os where
  refuses : SocketAddr → Option String
  conflicts : SocketAddr → SocketAddr → Bool
  assigns : List SocketAddr → Nat → Nat
  unspecified : Nat
  localAddresses : List Nat

/-- Why a bind fails. -/
inductive IoError where
  | addrInUse
  | other (e : String)
  deriving DecidableEq

/-- An error of `start`, by the bind that failed. -/
inductive StartError where
  | share (addr : SocketAddr) (e : IoError)
  | forwardPort (addr : SocketAddr) (e : IoError)
  deriving DecidableEq

/-- The error at the bottom of the chain. -/
def StartError.root : StartError → IoError
  | .share _ e => e
  | .forwardPort _ e => e

/-- The address that a bind would take, where others are taken. -/
def Os.landing (os : Os) (taken : List SocketAddr) (addr : SocketAddr) : SocketAddr :=
  if addr.port = 0 then { addr with port := os.assigns taken addr.ip } else addr

/-- What is wrong with an address, where others are taken. -/
def Os.fault (os : Os) (taken : List SocketAddr) (addr : SocketAddr) : Option IoError :=
  match os.refuses addr with
  | some e => some (.other e)
  | none =>
      if taken.any (os.conflicts (os.landing taken addr)) then some .addrInUse else none

/-- The addresses that are taken. -/
def Host.addrs (h : Host) : List SocketAddr := h.listeners.map Listener.addr

/-- Open a listener. -/
def Host.open (h : Host) (addr : SocketAddr) (holder : Holder) : Host where
  listeners := h.listeners ++ [⟨h.nextFd, addr, holder⟩]
  nextFd := h.nextFd + 1
  fresh := by
    intro l hl
    rcases List.mem_append.1 hl with hold | hnew
    · exact Nat.lt_succ_of_lt (h.fresh l hold)
    · rw [List.mem_singleton.1 hnew]
      exact Nat.lt_succ_self h.nextFd

/-- Close the listener with a number. -/
def Host.close (h : Host) (fd : Nat) : Host where
  listeners := h.listeners.filter fun l => l.fd ≠ fd
  nextFd := h.nextFd
  fresh l hl := h.fresh l (List.mem_filter.1 hl).1

/-- `TcpListener::bind`. -/
def Host.bind (h : Host) (os : Os) (addr : SocketAddr) (holder : Holder) : Except IoError Host :=
  match os.fault h.addrs addr with
  | some e => .error e
  | none => .ok (h.open (os.landing h.addrs addr) holder)

/-- Hand a listener to a task. -/
def Host.spawn (h : Host) (fd : Nat) (holder : Holder) : Host where
  listeners := h.listeners.map fun l => if l.fd = fd then { l with holder := holder } else l
  nextFd := h.nextFd
  fresh := by
    intro l hl
    obtain ⟨l', hl', rfl⟩ := List.mem_map.1 hl
    split
    · exact h.fresh l' hl'
    · exact h.fresh l' hl'

/-- `forward_bind_addrs`: a wildcard stands for the addresses of the host. -/
def forwardBindAddrs (os : Os) (bind : Nat) : List Nat :=
  if bind ≠ os.unspecified then [bind] else os.localAddresses

/-- The forward listeners, in the order of the two loops. -/
def forwardAddrs (os : Os) (config : ResolvedShare) : List SocketAddr :=
  config.forwardPorts.flatMap fun port =>
    (forwardBindAddrs os config.bind.ip).map fun ip => ⟨ip, port⟩

/-- The loops over the forward ports: each listener is bound, and its task spawned, before the next
is tried. -/
def bindForwards (os : Os) (config : ResolvedShare) :
    List SocketAddr → Host → Except StartError Unit × Host
  | [], h => (.ok (), h)
  | addr :: rest, h =>
      match h.bind os addr .local with
      | .error e => (.error (.forwardPort addr e), h)
      | .ok h' =>
          bindForwards os config rest
            (h'.spawn h.nextFd
              (.forwardLoop addr.port config.requireAuth config.expiresAfter))

/-- `start`. The share's own listener is closed when `start` returns an error; nothing aborts the
tasks whose handles are dropped with it. -/
def start (os : Os) (config : ResolvedShare) (h : Host) : Except StartError ResolvedShare × Host :=
  match h.bind os config.bind .local with
  | .error e => (.error (.share config.bind e), h)
  | .ok h' =>
      -- where the listener has landed
      let config' := { config with bind := os.landing h.addrs config.bind }
      match bindForwards os config' (forwardAddrs os config') h' with
      | (.error e, h'') => (.error e, h''.close h.nextFd)
      | (.ok (), h'') => (.ok config', h''.spawn h.nextFd (.acceptLoop config'))

/-- `bind_share`: what is tried again is an address in use, where a share has just been replaced and
as long as there is time. Each try finds the host as the one before has left it; `tries` has what
the operating system says at each of those for which there is time. -/
def bindShare (config : ResolvedShare) (retry : Bool) (os : Os) :
    List Os → Host → Except StartError ResolvedShare × Host
  | [], h => start os config h
  | next :: tries, h =>
      match start os config h with
      | (.ok handle, h') => (.ok handle, h')
      | (.error e, h') =>
          if retry && e.root = .addrInUse then bindShare config retry next tries h'
          else (.error e, h')

/-! ## What a failed start leaves -/

/-- A start that fails leaves the listeners of the host, and the tasks that hold them, as they
were. -/
def LeavesNothing (os : Os) (config : ResolvedShare) (h : Host) : Prop :=
  ∀ e h', start os config h = (.error e, h') → h'.listeners = h.listeners

/-- How many addresses of a list, from its head on, can be bound one after another. -/
def Os.bindable (os : Os) (taken : List SocketAddr) : List SocketAddr → Nat
  | [] => 0
  | addr :: rest =>
      match os.fault taken addr with
      | some _ => 0
      | none => os.bindable (taken ++ [os.landing taken addr]) rest + 1

/-- The listeners that a share wants, in order. -/
def wanted (os : Os) (config : ResolvedShare) : List SocketAddr :=
  config.bind :: forwardAddrs os config

section Listeners

variable {os : Os} {config : ResolvedShare} {h h' : Host} {addr : SocketAddr} {holder : Holder}

theorem bindable_of_fault {taken rest : List SocketAddr} {e : IoError}
    (hf : os.fault taken addr = some e) : os.bindable taken (addr :: rest) = 0 := by
  rw [Os.bindable, hf]

theorem bindable_of_no_fault {taken rest : List SocketAddr} (hf : os.fault taken addr = none) :
    os.bindable taken (addr :: rest) =
      os.bindable (taken ++ [os.landing taken addr]) rest + 1 := by
  rw [Os.bindable, hf]

@[simp]
theorem open_listeners :
    (h.open addr holder).listeners = h.listeners ++ [⟨h.nextFd, addr, holder⟩] := rfl

@[simp]
theorem open_addrs : (h.open addr holder).addrs = h.addrs ++ [addr] := by
  simp [Host.addrs]

theorem bind_of_fault {e : IoError} (hf : os.fault h.addrs addr = some e) :
    h.bind os addr holder = .error e := by
  rw [Host.bind, hf]

theorem bind_of_no_fault (hf : os.fault h.addrs addr = none) :
    h.bind os addr holder = .ok (h.open (os.landing h.addrs addr) holder) := by
  rw [Host.bind, hf]

/-- The numbers of the host's listeners stay clear of the one that is opened next. -/
theorem fd_ne_nextFd {l : Listener} (hl : l ∈ h.listeners) : l.fd ≠ h.nextFd :=
  Nat.ne_of_lt (h.fresh l hl)

/-- Handing over the listener that was opened last. -/
theorem spawn_open_listeners {task : Holder} :
    ((h.open addr holder).spawn h.nextFd task).listeners =
      h.listeners ++ [⟨h.nextFd, addr, task⟩] := by
  have hold : h.listeners.map (fun l => if l.fd = h.nextFd then { l with holder := task } else l) =
      h.listeners.map id :=
    List.map_congr_left fun l hl => if_neg (fd_ne_nextFd hl)
  rw [List.map_id] at hold
  show List.map _ (h.listeners ++ [⟨h.nextFd, addr, holder⟩]) = _
  rw [List.map_append, hold, List.map_singleton, if_pos rfl]

theorem spawn_open_addrs {task : Holder} :
    ((h.open addr holder).spawn h.nextFd task).addrs = h.addrs ++ [addr] := by
  rw [Host.addrs, spawn_open_listeners, List.map_append]
  rfl

/-- A listener that a forward loop holds. -/
def Listener.IsForward (l : Listener) : Prop :=
  ∃ port requireAuth expiresAfter, l.holder = .forwardLoop port requireAuth expiresAfter

/-- **The forward listeners.** As many are bound as can be, each ends up with a loop of its own, and
there they stay, whether all are bound or not. -/
theorem bindForwards_spec (os : Os) (config : ResolvedShare) (addrs : List SocketAddr) (h : Host) :
    ∃ new : List Listener,
      (bindForwards os config addrs h).2.listeners = h.listeners ++ new ∧
        new.length = os.bindable h.addrs addrs ∧
          (∀ l ∈ new, h.nextFd ≤ l.fd ∧ l.IsForward ∧ ((∀ a ∈ addrs, a.port ≠ 0) → l.addr ∈ addrs)) ∧
            ((bindForwards os config addrs h).1 = .ok () ↔
              os.bindable h.addrs addrs = addrs.length) := by
  induction addrs generalizing h with
  | nil => exact ⟨[], by simp [bindForwards], rfl, by simp, by simp [bindForwards, Os.bindable]⟩
  | cons addr rest ih =>
      rw [bindForwards]
      cases hf : os.fault h.addrs addr with
      | some e =>
          rw [bind_of_fault hf, bindable_of_fault hf]
          exact ⟨[], by simp, rfl, by simp, by simp⟩
      | none =>
          rw [bind_of_no_fault hf, bindable_of_no_fault hf]
          obtain ⟨new, hnew, hlen, hall, hok⟩ :=
            ih ((h.open (os.landing h.addrs addr) .local).spawn h.nextFd
              (.forwardLoop addr.port config.requireAuth config.expiresAfter))
          rw [spawn_open_addrs] at hlen hok
          rw [spawn_open_listeners, List.append_assoc] at hnew
          refine ⟨_, hnew, ?_, ?_, ?_⟩
          · rw [List.length_append, hlen, List.length_singleton]
            omega
          · intro l hl
            rcases List.mem_append.1 hl with hfirst | hrest
            · rw [List.mem_singleton.1 hfirst]
              refine ⟨Nat.le_refl _,
                ⟨addr.port, config.requireAuth, config.expiresAfter, rfl⟩, fun hports => ?_⟩
              rw [Os.landing, if_neg (hports addr List.mem_cons_self)]
              exact List.mem_cons_self
            · obtain ⟨hle, hforward, haddr⟩ := hall l hrest
              refine ⟨Nat.le_of_succ_le hle, hforward, fun hports => List.mem_cons_of_mem addr ?_⟩
              exact haddr fun a ha => hports a (List.mem_cons_of_mem addr ha)
          · rw [hok, List.length_cons]
            omega

/-- Closing the share's own listener leaves the forward listeners open. -/
theorem close_listeners {new : List Listener} (hnew : ∀ l ∈ new, h.nextFd + 1 ≤ l.fd)
    (hlisteners : h'.listeners = (h.open addr holder).listeners ++ new) :
    (h'.close h.nextFd).listeners = h.listeners ++ new := by
  have hold : h.listeners.filter (fun l => l.fd ≠ h.nextFd) = h.listeners :=
    List.filter_eq_self.2 fun l hl => by simpa using fd_ne_nextFd hl
  have hkept : new.filter (fun l => l.fd ≠ h.nextFd) = new := by
    apply List.filter_eq_self.2
    intro l hl
    have hle := hnew l hl
    simp only [ne_eq, decide_eq_true_eq]
    omega
  show h'.listeners.filter (fun l => l.fd ≠ h.nextFd) = _
  rw [hlisteners, open_listeners, List.filter_append, List.filter_append, hold, hkept,
    List.filter_cons_of_neg (by simp), List.filter_nil, List.append_nil]

/-- The wildcard or concrete address decides where the forward listeners go, not the port. -/
theorem forwardAddrs_landing (taken : List SocketAddr) :
    forwardAddrs os { config with bind := os.landing taken config.bind } =
      forwardAddrs os config := by
  have hip : (os.landing taken config.bind).ip = config.bind.ip := by
    rw [Os.landing]
    split <;> rfl
  simp only [forwardAddrs, hip]

/-- **What a start comes to.** It succeeds where all it wants can be bound. Where something cannot,
it fails, and leaves behind the forward listeners that it has bound, each with its loop. -/
theorem start_spec (os : Os) (config : ResolvedShare) (h : Host) :
    (os.bindable h.addrs (wanted os config) = (wanted os config).length ∧
        ∃ handle, (start os config h).1 = .ok handle) ∨
      (os.bindable h.addrs (wanted os config) ≠ (wanted os config).length ∧
        ∃ e new, (start os config h).1 = .error e ∧
          (start os config h).2.listeners = h.listeners ++ new ∧
            (∀ l ∈ new, l.IsForward ∧ ((∀ a ∈ forwardAddrs os config, a.port ≠ 0) →
              l.addr ∈ forwardAddrs os config)) ∧
              new.length = os.bindable h.addrs (wanted os config) - 1) := by
  rw [start, wanted, List.length_cons]
  cases hf : os.fault h.addrs config.bind with
  | some e =>
      rw [bind_of_fault hf, bindable_of_fault hf]
      exact Or.inr ⟨by omega, _, [], rfl, by simp, by simp, rfl⟩
  | none =>
      rw [bind_of_no_fault hf, bindable_of_no_fault hf]
      obtain ⟨new, hnew, hlen, hall, hok⟩ := bindForwards_spec os
        { config with bind := os.landing h.addrs config.bind } (forwardAddrs os config)
        (h.open (os.landing h.addrs config.bind) .local)
      rw [open_addrs] at hlen hok
      simp only [forwardAddrs_landing]
      generalize bindForwards os _ (forwardAddrs os config) _ = result at hnew hok
      obtain ⟨result, h'⟩ := result
      cases result with
      | ok u =>
          refine Or.inl ⟨?_, _, rfl⟩
          rw [hok.1 rfl]
      | error e =>
          refine Or.inr ⟨?_, e, new, rfl, close_listeners (fun l hl => (hall l hl).1) hnew,
            fun l hl => (hall l hl).2, by omega⟩
          intro hfull
          exact absurd (hok.2 (Nat.succ.inj hfull)) (by simp)

/-- What can be bound in full clashes with nothing that was there before. -/
theorem not_conflicts_of_bindable {addrs taken : List SocketAddr}
    (hfull : os.bindable taken addrs = addrs.length) {a b : SocketAddr} (ha : a ∈ addrs)
    (hport : a.port ≠ 0) (hb : b ∈ taken) : os.conflicts a b = false := by
  induction addrs generalizing taken with
  | nil => exact absurd ha List.not_mem_nil
  | cons first rest ih =>
      cases hf : os.fault taken first with
      | some e =>
          rw [bindable_of_fault hf] at hfull
          simp at hfull
      | none =>
          rw [bindable_of_no_fault hf, List.length_cons] at hfull
          rcases List.mem_cons.1 ha with rfl | hrest
          · rw [Os.fault, Os.landing, if_neg hport] at hf
            cases hr : os.refuses a with
            | some e => simp [hr] at hf
            | none =>
                cases hclash : os.conflicts a b with
                | false => rfl
                | true =>
                    have hany : taken.any (os.conflicts a) = true :=
                      List.any_eq_true.2 ⟨b, hb, hclash⟩
                    simp [hr, hany] at hf
          · exact ih (Nat.succ.inj hfull) hrest (List.mem_append_left _ hb)

/-- **A retry fails by what the failed attempt has left**: as long as a loop listens on one of the
forward addresses, no share that wants the address starts. -/
theorem start_fails_of_left {l : Listener} (hl : l ∈ h.listeners)
    (haddr : l.addr ∈ forwardAddrs os config) (hport : l.addr.port ≠ 0)
    (hself : os.conflicts l.addr l.addr = true) :
    ∃ e new, (start os config h).1 = .error e ∧
      (start os config h).2.listeners = h.listeners ++ new := by
  rcases start_spec os config h with ⟨hfull, -⟩ | ⟨-, e, new, he, hnew, -, -⟩
  · have hclash := not_conflicts_of_bindable hfull (List.mem_cons_of_mem _ haddr) hport
      (List.mem_map_of_mem hl)
    rw [hself] at hclash
    exact absurd hclash.symm Bool.false_ne_true
  · exact ⟨e, new, he, hnew⟩

/-- So `bind_share` fails however often it tries. -/
theorem bindShare_fails_of_left {l : Listener} {retry : Bool} {tries : List Os}
    (hl : l ∈ h.listeners) (hport : l.addr.port ≠ 0)
    (hall : ∀ os' ∈ os :: tries, l.addr ∈ forwardAddrs os' config ∧
      os'.conflicts l.addr l.addr = true) :
    ∃ e, (bindShare config retry os tries h).1 = .error e := by
  induction tries generalizing os h with
  | nil =>
      obtain ⟨haddr, hself⟩ := hall os List.mem_cons_self
      obtain ⟨e, new, he, -⟩ := start_fails_of_left hl haddr hport hself
      exact ⟨e, he⟩
  | cons next tries ih =>
      obtain ⟨haddr, hself⟩ := hall os List.mem_cons_self
      obtain ⟨e, new, he, hnew⟩ := start_fails_of_left hl haddr hport hself
      rw [bindShare]
      rcases hstart : start os config h with ⟨result, h'⟩
      rw [hstart] at he hnew
      obtain rfl : result = .error e := he
      by_cases hagain : (retry && e.root = .addrInUse) = true
      · simp only [hagain, if_true]
        apply ih
        · rw [hnew]
          exact List.mem_append_left new hl
        · exact fun os' hos' => hall os' (List.mem_cons_of_mem os hos')
      · simp only [hagain]
        exact ⟨e, rfl⟩

end Listeners

/-- **A failed start leaves nothing** exactly where the first listener that cannot be bound, if
there is one, is the share's own or that of the first forward address. -/
theorem leavesNothing_iff (os : Os) (config : ResolvedShare) (h : Host) :
    LeavesNothing os config h ↔
      os.bindable h.addrs (wanted os config) ≤ 1 ∨
        os.bindable h.addrs (wanted os config) = (wanted os config).length := by
  constructor
  · intro hleaves
    rcases start_spec os config h with ⟨hfull, -⟩ | ⟨-, e, new, he, hnew, -, hlen⟩
    · exact Or.inr hfull
    · left
      have hsame := hleaves e _ (Prod.ext he rfl)
      rw [hnew] at hsame
      rw [List.append_right_eq_self.1 hsame, List.length_nil] at hlen
      omega
  · rintro hcond e h' hstart
    rcases start_spec os config h with ⟨-, handle, hok⟩ | ⟨hshort, e', new, -, hnew, -, hlen⟩
    · rw [hstart] at hok
      simp at hok
    · have hzero : new = [] := by
        apply List.eq_nil_of_length_eq_zero
        rcases hcond with hle | hfull
        · omega
        · exact absurd hfull hshort
      rw [hstart, hzero, List.append_nil] at hnew
      exact hnew

/-- A host on which another program listens on the second forward port. -/
def secondTaken : Host where
  listeners := [⟨0, ⟨1, 27184⟩, .other⟩]
  nextFd := 1
  fresh := by simp

/-- Its operating system refuses nothing but what is in use. -/
def plainOs : Os where
  refuses _ := none
  conflicts a b := a == b
  assigns _ _ := 49152
  unspecified := 0
  localAddresses := [1]

/-- The loop of the first forward port outlives the start that has failed by the second. -/
theorem not_leavesNothing_secondTaken :
    ¬ LeavesNothing plainOs ⟨⟨1, 5939⟩, some "dvs_abcdefghijkm", none, [27183, 27184]⟩
      secondTaken := by
  intro hleaves
  have hsame := hleaves (.forwardPort ⟨1, 27184⟩ .addrInUse) _ rfl
  exact absurd hsame (by decide)

end DialF.Share
