import DialF.Phone.Service

/-!
# The service is never idle

While the service runs, a socket is up or something is due that gives it another chance: a
reconnect, the end of a discovery window, or what a drop has posted. `awake_along_iff` says exactly
which steps of a run break this: a dial of an address that has no URL or whose URL the HTTP client
refuses, a socket that opens after it has been given up and takes the pending reconnect with it, and
a socket that ends before it is stored.
-/

set_option autoImplicit false

namespace DialF.Phone

open DialF.Lib

namespace Service

/-- The socket in `ws`, or about to be, is open or opening: its end has not been reported. -/
def Up (l : Service) : Prop := ∃ k, l.link.Current k ∧ k ∉ l.ended

/-- A socket is up, or something other than the reconnect is due. -/
def Backed (l : Service) : Prop := l.Up ∨ l.discoveryTimeout = true ∨ l.posted ≠ []

/-- A socket is up, or something is due. -/
def Waits (l : Service) : Prop := l.Backed ∨ l.reconnect.isSome = true

/-- The service is not idle while it runs. -/
def Awake (l : Service) : Prop := l.link.running = true → l.Waits

/-- The saved server has a URL that the HTTP client takes, if it is an address. -/
def SavedDials (accepts : Str → Bool) (l : Service) : Prop :=
  ∀ host port, serverAddress l.server = some (host, port) → Dials accepts host port

/-- The step tears the socket down and reconnects at once. -/
def Forces (l : Service) : ServiceLabel → Prop
  | .networkAvailable env => l.link.ws = none ∨ l.link.silent env.nowMs livenessTimeoutMs = true
  | .verifyLink env => l.link.suspect env.nowMs = true
  | .heartbeat env => l.link.ws ≠ none ∧ l.link.silent env.nowMs livenessTimeoutMs = true
  | _ => False

/-- The step leaves the service with something to wait for: what it dials has a URL that the HTTP
client takes, and the reconnect that it cancels or uses up is not the last resort. -/
def Clear (accepts : Str → Bool) (l : Service) : ServiceLabel → Prop
  | .onStartCommand _ => l.link.running = false → l.SavedDials accepts ∨ l.Waits
  | .reconnect _ =>
      l.link.running = true →
        (l.SavedDials accepts ∧ (l.link.ws = none ∨ serverAddress l.server = none)) ∨ l.Backed
  | .discoveryTimeout _ =>
      l.link.running = true → l.link.ws ≠ none →
        l.Up ∨ l.posted ≠ [] ∨ l.reconnect.isSome = true
  | .retry env =>
      l.link.running = true → l.link.ws = none → ∀ r ∈ l.posted.head?, r.failsOver = true →
        ∀ e, ((r.mark l.daemons env.nowMs).next env.nowMs).1 = some e →
          accepts e.url = true ∨ l.discoveryTimeout = true ∨ l.posted.tail ≠ [] ∨
            l.reconnect.isSome = true
  | .onOpen _ _ => l.link.running = true → l.Backed
  | .dropped k =>
      l.link.running = true → l.link.ws ≠ some k → l.link.opening = some k →
        l.discoveryTimeout = true ∨ l.posted ≠ [] ∨ l.reconnect.isSome = true
  | a =>
      l.link.running = true → l.Forces a →
        l.SavedDials accepts ∨ l.discoveryTimeout = true ∨ l.posted ≠ []

/-- What holds in every state: a socket that has ended is one of those that have been opened, a
stopped service has none, and while a socket is being opened the service runs and `ws` is free. -/
structure Inv (l : Service) : Prop where
  ended : ∀ k ∈ l.ended, k < l.link.sockets.length
  stopped : l.link.running = false → l.link.ws = none
  opening : ∀ k, l.link.opening = some k → l.link.running = true ∧ l.link.ws = none

end Service

/-- The links are alike but for what their sockets have sent. -/
structure Link.Alike (l t : Link) : Prop where
  running : t.running = l.running
  ws : t.ws = l.ws
  opening : t.opening = l.opening
  length : t.sockets.length = l.sockets.length

namespace Link

variable {l t : Link} {k : Nat}

theorem Alike.refl (l : Link) : l.Alike l := ⟨rfl, rfl, rfl, rfl⟩

theorem alike_onSocket {g : Socket → Socket} : l.Alike (l.onSocket k g) :=
  ⟨rfl, rfl, rfl, List.length_modify ..⟩

theorem alike_sendCurrent {f : Daemon.PhoneToServer} : l.Alike (l.sendCurrent f) := by
  unfold sendCurrent
  split
  · exact alike_onSocket
  · exact .refl l

theorem alike_setAdb (enabled : Bool) (port : Option Nat) (nowMs : Int) :
    l.Alike (l.setAdb enabled port nowMs) := by
  unfold setAdb
  split
  · exact .refl l
  · have h := alike_sendCurrent (l := { l with adbWifiEnabled := enabled, adbPort := port })
      (f := ({ l with adbWifiEnabled := enabled, adbPort := port } : Link).heartbeatFrame nowMs)
    exact ⟨h.running, h.ws, h.opening, h.length⟩

/-- A step aside leaves the sockets and their places. -/
theorem alike_of_aside {a : LinkLabel} (haside : a.isAside = true) (h : l.step a = some t) :
    l.Alike t := by
  cases a with
  | handshake k =>
      obtain ⟨sock, -, -, rfl⟩ := handshake_eq_some h
      exact alike_onSocket
  | onMessage k nowMs heartbeatAck =>
      simp only [step] at h
      split at h
      · obtain ⟨-, ht⟩ := Option.ite_none_right_eq_some.1 h
        obtain rfl := Option.some.inj ht
        exact ⟨rfl, rfl, rfl, rfl⟩
      · cases h
  | reply k f =>
      obtain ⟨sock, -, -, -, rfl⟩ := reply_eq_some h
      exact alike_onSocket
  | pokeHeartbeat nowMs =>
      obtain rfl := Option.some.inj h
      exact alike_sendCurrent
  | setAdb enabled port nowMs =>
      obtain rfl := Option.some.inj h
      exact alike_setAdb enabled port nowMs
  | onAdbResolved name port nowMs =>
      obtain rfl := Option.some.inj h
      simp only [onAdbResolved]
      split
      · have hset := alike_setAdb (l := { l with ownAdbService := some name }) true (some port) nowMs
        exact ⟨hset.running, hset.ws, hset.opening, hset.length⟩
      · exact ⟨rfl, rfl, rfl, rfl⟩
  | event f =>
      obtain rfl := Option.some.inj h
      unfold send
      split
      · exact alike_sendCurrent
      · exact alike_sendCurrent
      · exact .refl l
  | _ => simp [LinkLabel.isAside] at haside

end Link

namespace Service

variable {accepts : Str → Bool} {l t : Service}

/-! ## What a method leaves to wait for -/

theorem Up.congr (hlink : l.link.Alike t.link) (hended : t.ended = l.ended) : t.Up ↔ l.Up := by
  simp only [Up, Link.Current, hlink.ws, hlink.opening, hended]

theorem Inv.congr (h : l.Inv) (hlink : l.link.Alike t.link) (hended : t.ended = l.ended) :
    t.Inv where
  ended := by
    rw [hended, hlink.length]
    exact h.ended
  stopped := by
    rw [hlink.running, hlink.ws]
    exact h.stopped
  opening := by
    rw [hlink.opening, hlink.running, hlink.ws]
    exact h.opening

/-- A socket that has just been opened is up. -/
theorem waits_connect_iff (hinv : l.Inv) (hmain : l.link.opening = none) (host : Str)
    (port nowMs : Int) :
    (l.connect accepts host port nowMs).Waits ↔
      (l.link.running = true ∧ l.link.ws = none ∧ Dials accepts host port) ∨ l.Waits := by
  by_cases h : l.link.connect.isSome = true ∧ Dials accepts host port
  · obtain ⟨hsome, hdials⟩ := h
    obtain ⟨link, hlink⟩ := Option.isSome_iff_exists.1 hsome
    obtain ⟨⟨hrunning, hws, -⟩, hopened⟩ := link_connect_eq_some.1 hlink
    obtain ⟨url, hurl, haccepts⟩ := hdials
    rw [connect_of_dials hlink hurl haccepts]
    -- the new socket has the next number, which none that has ended has
    refine iff_of_true (Or.inl (Or.inl ⟨l.link.sockets.length, Or.inr ?_, ?_⟩)) ?_
    · rw [hopened]
    · exact fun hended => absurd (hinv.ended _ hended) (Nat.lt_irrefl _)
    · exact Or.inl ⟨hrunning, hws, url, hurl, haccepts⟩
  · obtain ⟨daemons, hsame⟩ := connect_of_not nowMs h
    rw [hsame]
    refine ⟨Or.inr, ?_⟩
    rintro (⟨hrunning, hws, hdials⟩ | hwaits)
    · refine absurd ⟨?_, hdials⟩ h
      rw [link_connect_eq_some.2 ⟨⟨hrunning, hws, hmain⟩, rfl⟩]
      rfl
    · exact hwaits

theorem waits_scheduleReconnect (hrunning : l.link.running = true) (env : Env) :
    (l.scheduleReconnect env).Waits := by
  simp only [scheduleReconnect, hrunning, if_true]
  exact Or.inr rfl

theorem waits_startDiscovery (hrunning : l.link.running = true) (env : Env) :
    (l.startDiscovery env).Waits := by
  simp only [startDiscovery]
  split
  · exact Or.inl (Or.inr (Or.inl rfl))
  · exact waits_scheduleReconnect
      (l := { l with discoveryTimeout := false, daemons := l.daemons.clear }) hrunning env

theorem waits_connectOrDiscover_iff (hinv : l.Inv) (hmain : l.link.opening = none)
    (hrunning : l.link.running = true) (env : Env) :
    (l.connectOrDiscover accepts env).Waits ↔
      (l.SavedDials accepts ∧ (l.link.ws = none ∨ serverAddress l.server = none)) ∨ l.Waits := by
  simp only [connectOrDiscover, hrunning, if_true]
  cases hserver : serverAddress l.server with
  | none =>
      -- a search opens a window, or falls back on a reconnect, also while a socket is live
      refine iff_of_true (waits_startDiscovery hrunning env) (Or.inl ⟨?_, Or.inr rfl⟩)
      intro host port haddress
      rw [hserver] at haddress
      cases haddress
  | some address =>
      obtain ⟨host, port⟩ := address
      simp only
      rw [waits_connect_iff hinv hmain]
      apply or_congr_left
      constructor
      · rintro ⟨-, hws, hdials⟩
        refine ⟨?_, Or.inl hws⟩
        intro host' port' haddress
        cases hserver.symm.trans haddress
        exact hdials
      · rintro ⟨hdials, hws | hnone⟩
        · exact ⟨hrunning, hws, hdials host port hserver⟩
        · cases hnone

theorem not_up (hws : l.link.ws = none) (hmain : l.link.opening = none) : ¬ l.Up := by
  rintro ⟨k, hcurrent | hcurrent, -⟩
  · rw [hws] at hcurrent
    cases hcurrent
  · rw [hmain] at hcurrent
    cases hcurrent

/-- Without a socket, what is due is a window's end, a retry or a reconnect. -/
theorem waits_iff_of_free (hws : l.link.ws = none) (hmain : l.link.opening = none) :
    l.Waits ↔ l.discoveryTimeout = true ∨ l.posted ≠ [] ∨ l.reconnect.isSome = true := by
  simp only [Waits, Backed, not_up hws hmain, false_or, or_assoc]

theorem ws_closeCurrent (link : Link) : link.closeCurrent.ws = none := by
  unfold Link.closeCurrent
  split
  · rfl
  · rename_i hws
    exact hws

theorem running_closeCurrent (link : Link) : link.closeCurrent.running = link.running := by
  unfold Link.closeCurrent
  split
  · rfl
  · rfl

/-- Without its socket the service is sound on the main thread. -/
theorem inv_torn (hinv : l.Inv) (hmain : l.link.opening = none) :
    Inv { l with
      link := l.link.forceReconnect, reconnectDelayMs := minReconnectMs, reconnect := none } := by
  have hkeeps : l.link.Keeps (fun _ => True) l.link.closeCurrent := Link.keeps_closeCurrent
  refine ⟨fun k hk => hkeeps.length ▸ hinv.ended k hk, fun _ => ws_closeCurrent l.link, ?_⟩
  intro k hk
  have hopening : l.link.closeCurrent.opening = some k := hk
  rw [hkeeps.opening, hmain] at hopening
  cases hopening

theorem waits_forceReconnect_iff (hinv : l.Inv) (hmain : l.link.opening = none)
    (hrunning : l.link.running = true) (env : Env) :
    (l.forceReconnect accepts env).Waits ↔
      l.SavedDials accepts ∨ l.discoveryTimeout = true ∨ l.posted ≠ [] := by
  have hclosed : l.link.closeCurrent.ws = none := ws_closeCurrent l.link
  have hkeeps : l.link.Keeps (fun _ => True) l.link.closeCurrent := Link.keeps_closeCurrent
  have hfree : l.link.closeCurrent.opening = none := hkeeps.opening.trans hmain
  have hstill : l.link.closeCurrent.running = true := (running_closeCurrent l.link).trans hrunning
  rw [forceReconnect, waits_connectOrDiscover_iff (inv_torn hinv hmain) hfree hstill,
    waits_iff_of_free hclosed hfree]
  simp [SavedDials, Link.forceReconnect, hclosed]

theorem connectNextCandidate_of_busy {nowMs : Int}
    (h : ¬ (l.link.running = true ∧ l.link.ws = none)) :
    l.connectNextCandidate accepts nowMs = (false, l) := if_neg h

theorem connectNextCandidate_of_none {nowMs : Int} (hrunning : l.link.running = true)
    (hws : l.link.ws = none) (hnext : (l.daemons.next nowMs).1 = none) :
    l.connectNextCandidate accepts nowMs =
      (false, { l with daemons := (l.daemons.next nowMs).2 }) := by
  rcases hpair : l.daemons.next nowMs with ⟨offer, daemons⟩
  rw [hpair] at hnext
  obtain rfl := hnext
  simp [connectNextCandidate, hrunning, hws, hpair]

theorem connectNextCandidate_of_some {nowMs : Int} {e : Endpoint}
    (hrunning : l.link.running = true) (hws : l.link.ws = none)
    (hnext : (l.daemons.next nowMs).1 = some e) :
    l.connectNextCandidate accepts nowMs =
      (true, connect accepts { l with daemons := (l.daemons.next nowMs).2 } e.host e.port nowMs) := by
  rcases hpair : l.daemons.next nowMs with ⟨offer, daemons⟩
  rw [hpair] at hnext
  obtain rfl := hnext
  simp [connectNextCandidate, hrunning, hws, hpair]

theorem dials_endpoint_iff (e : Endpoint) : Dials accepts e.host e.port ↔ accepts e.url = true := by
  simp [Dials, e.dials]

/-- A search result takes nothing away. -/
theorem waits_connectNextCandidate (hinv : l.Inv) (hmain : l.link.opening = none)
    (hwaits : l.Waits) (nowMs : Int) : (l.connectNextCandidate accepts nowMs).2.Waits := by
  by_cases h : l.link.running = true ∧ l.link.ws = none
  · cases hnext : (l.daemons.next nowMs).1 with
    | none =>
        rw [connectNextCandidate_of_none h.1 h.2 hnext]
        exact hwaits
    | some e =>
        rw [connectNextCandidate_of_some h.1 h.2 hnext]
        apply (waits_connect_iff (l := { l with daemons := (l.daemons.next nowMs).2 })
          ⟨hinv.ended, hinv.stopped, hinv.opening⟩ hmain e.host e.port nowMs).2
        exact Or.inr hwaits
  · rw [connectNextCandidate_of_busy h]
    exact hwaits

/-- A retry fails the service only where the next daemon cannot be dialled: the answer of
`connectNextCandidate` passes for a connect. -/
theorem waits_runRetry_iff (hinv : l.Inv) (hmain : l.link.opening = none)
    (hrunning : l.link.running = true) (r : Retry) (env : Env) :
    (l.runRetry accepts r env).Waits ↔
      (l.link.ws = none → r.failsOver = true →
        ∀ e, ((r.mark l.daemons env.nowMs).next env.nowMs).1 = some e →
          accepts e.url = true ∨ l.Waits) := by
  simp only [runRetry]
  cases hfails : r.failsOver with
  -- an ordinary drop goes through the backoff
  | false =>
      refine iff_of_true ?_ fun _ hno => absurd hno (by simp)
      exact waits_scheduleReconnect
        (l := { l with daemons := r.mark l.daemons env.nowMs }) hrunning env
  | true =>
      simp only [if_true, true_imp_iff]
      by_cases hws : l.link.ws = none
      · cases hnext : ((r.mark l.daemons env.nowMs).next env.nowMs).1 with
        -- nobody is left to try, and the answer says so
        | none =>
            rw [connectNextCandidate_of_none
              (l := { l with daemons := r.mark l.daemons env.nowMs }) hrunning hws hnext]
            refine iff_of_true ?_ fun _ e he => by cases he
            exact waits_scheduleReconnect
              (l := { l with daemons := ((r.mark l.daemons env.nowMs).next env.nowMs).2 })
              hrunning env
        -- there is a candidate, which passes for a connect whatever `connect` makes of it
        | some e =>
            rw [connectNextCandidate_of_some
              (l := { l with daemons := r.mark l.daemons env.nowMs }) hrunning hws hnext]
            rw [waits_connect_iff
              (l := { l with daemons := ((r.mark l.daemons env.nowMs).next env.nowMs).2 })
              ⟨hinv.ended, hinv.stopped, hinv.opening⟩ hmain e.host e.port env.nowMs,
              dials_endpoint_iff]
            constructor
            · rintro (⟨-, -, haccepts⟩ | hold) _ o ho
              · obtain rfl := Option.some.inj ho
                exact Or.inl haccepts
              · exact Or.inr hold
            · intro hall
              rcases hall hws e rfl with haccepts | hold
              · exact Or.inl ⟨hrunning, hws, haccepts⟩
              · exact Or.inr hold
      · rw [connectNextCandidate_of_busy
          (l := { l with daemons := r.mark l.daemons env.nowMs }) fun hfree => hws hfree.2]
        refine iff_of_true ?_ fun hno => absurd hno hws
        exact waits_scheduleReconnect
          (l := { l with daemons := r.mark l.daemons env.nowMs }) hrunning env

/-- The end of the socket in `ws` posts a retry; that of a socket which is about to be stored is
missed. -/
theorem waits_dropped_iff (hinv : l.Inv) (hwaits : l.Waits) (k : Nat) :
    (l.dropped k).Waits ↔
      (l.link.ws ≠ some k → l.link.opening = some k →
        l.discoveryTimeout = true ∨ l.posted ≠ [] ∨ l.reconnect.isSome = true) := by
  by_cases hws : l.link.ws = some k
  · refine iff_of_true ?_ fun hno => absurd hws hno
    simp only [dropped, hws, if_true]
    exact Or.inl (Or.inr (Or.inr (by simp)))
  · have hlink : l.link.dropped k = l.link.onSocket k Socket.close := by
      have hws' : (l.link.onSocket k Socket.close).ws ≠ some k := hws
      simp only [Link.dropped, hws', if_false]
    simp only [dropped, hlink, hws, if_false]
    -- `dropped` compares with `ws` only, where a socket that is being opened is not yet
    by_cases hopening : l.link.opening = some k
    · have hdown : ¬ Up { l with
          link := l.link.onSocket k Socket.close, ended := k :: l.ended } := by
        rintro ⟨j, hcurrent | hcurrent, hj⟩
        · have hnone := (hinv.opening k hopening).2
          rw [show l.link.ws = some j from hcurrent] at hnone
          cases hnone
        · obtain rfl := Option.some.inj (hopening.symm.trans hcurrent)
          exact hj List.mem_cons_self
      simp [Waits, Backed, hdown, hopening, hws, or_assoc]
    · refine iff_of_true ?_ fun _ hno => absurd hno hopening
      rcases hwaits with (⟨j, hcurrent, hj⟩ | hdue) | hreconnect
      · refine Or.inl (Or.inl ⟨j, hcurrent, ?_⟩)
        have hjk : j ≠ k := by
          rintro rfl
          exact hcurrent.elim hws hopening
        exact fun hmem => (List.mem_cons.1 hmem).elim hjk hj
      · exact Or.inl (Or.inr hdue)
      · exact Or.inr hreconnect

/-- A heartbeat that tears nothing down. -/
theorem alike_beat {env : Env}
    (h : ¬ (l.link.ws ≠ none ∧ l.link.silent env.nowMs livenessTimeoutMs = true)) :
    l.link.Alike (l.link.beat env.nowMs) := by
  unfold Link.beat
  -- without a socket the heartbeat only ends
  cases hws : l.link.ws with
  | none => exact ⟨rfl, hws.symm, rfl, rfl⟩
  | some k =>
      have hspared : ¬ l.link.silent env.nowMs livenessTimeoutMs = true := by
        intro hsilent
        exact h ⟨by simp [hws], hsilent⟩
      simp only [hspared]
      exact Link.alike_sendCurrent

/-! ## The invariant -/

/-- A method has gone on with the sockets that there are, or has opened one. -/
def Opens (l t : Service) : Prop :=
  t.ended = l.ended ∧ (t.link = l.link ∨ l.link.connect = some t.link)

theorem Opens.refl (l : Service) : l.Opens l := ⟨rfl, Or.inl rfl⟩

theorem running_of_opens (h : l.Opens t) : t.link.running = l.link.running := by
  rcases h.2 with hsame | hopened
  · rw [hsame]
  · rw [(link_connect_eq_some.1 hopened).2]

theorem inv_of_opens (hinv : l.Inv) (h : l.Opens t) : t.Inv := by
  obtain ⟨hended, hsame | hopened⟩ := h
  · exact hinv.congr (hsame ▸ .refl l.link) hended
  · obtain ⟨⟨hrunning, hws, -⟩, hlink⟩ := link_connect_eq_some.1 hopened
    refine ⟨?_, ?_, ?_⟩
    · intro k hk
      rw [hended] at hk
      rw [hlink, List.length_append]
      exact Nat.lt_add_right 1 (hinv.ended k hk)
    · intro _
      rw [hlink]
      exact hws
    · intro k _
      rw [hlink]
      exact ⟨hrunning, hws⟩

theorem opens_connect (host : Str) (port nowMs : Int) :
    l.Opens (l.connect accepts host port nowMs) := by
  by_cases h : l.link.connect.isSome = true ∧ Dials accepts host port
  · obtain ⟨hlink, url, hurl, haccepts⟩ := h
    obtain ⟨link, hlink⟩ := Option.isSome_iff_exists.1 hlink
    rw [connect_of_dials hlink hurl haccepts]
    exact ⟨rfl, Or.inr hlink⟩
  · obtain ⟨daemons, hsame⟩ := connect_of_not nowMs h
    rw [hsame]
    exact ⟨rfl, Or.inl rfl⟩

theorem opens_scheduleReconnect (env : Env) : l.Opens (l.scheduleReconnect env) := by
  refine ⟨?_, Or.inl (link_scheduleReconnect env)⟩
  simp only [scheduleReconnect]
  split
  · rfl
  · rfl

theorem opens_connectOrDiscover (env : Env) : l.Opens (l.connectOrDiscover accepts env) := by
  simp only [connectOrDiscover]
  split
  · split
    · exact opens_connect _ _ _
    · simp only [startDiscovery]
      split
      · exact ⟨rfl, Or.inl rfl⟩
      · exact opens_scheduleReconnect
          (l := { l with discoveryTimeout := false, daemons := l.daemons.clear }) env
  · exact .refl l

theorem opens_connectNextCandidate (nowMs : Int) :
    l.Opens (l.connectNextCandidate accepts nowMs).2 := by
  simp only [connectNextCandidate]
  split
  · split
    · exact ⟨rfl, Or.inl rfl⟩
    · rename_i e daemons hnext
      exact opens_connect (l := { l with daemons }) _ _ _
  · exact .refl l

theorem opens_runRetry (r : Retry) (env : Env) : l.Opens (l.runRetry accepts r env) := by
  have hnext : l.Opens (connectNextCandidate accepts
      { l with daemons := r.mark l.daemons env.nowMs } env.nowMs).2 :=
    opens_connectNextCandidate (l := { l with daemons := r.mark l.daemons env.nowMs }) env.nowMs
  simp only [runRetry]
  split
  · split
    · rename_i l' hcandidate
      rw [hcandidate] at hnext
      exact hnext
    · rename_i l' hcandidate
      rw [hcandidate] at hnext
      have hsame := link_scheduleReconnect (l := l') env
      refine ⟨(opens_scheduleReconnect env).1.trans hnext.1, ?_⟩
      rw [hsame]
      exact hnext.2
  · exact opens_scheduleReconnect (l := { l with daemons := r.mark l.daemons env.nowMs }) env

theorem inv_forceReconnect (hinv : l.Inv) (hmain : l.link.opening = none) (env : Env) :
    (l.forceReconnect accepts env).Inv :=
  inv_of_opens (inv_torn hinv hmain) (opens_connectOrDiscover env)

theorem running_forceReconnect (env : Env) :
    (l.forceReconnect accepts env).link.running = l.link.running :=
  (running_of_opens (opens_connectOrDiscover (l := { l with
    link := l.link.forceReconnect, reconnectDelayMs := minReconnectMs, reconnect := none })
    env)).trans (running_closeCurrent l.link)

theorem inv_start (identity : Identity) (server : Str) : (start identity server).Inv :=
  ⟨fun _ hk => absurd hk List.not_mem_nil, fun _ => rfl, fun _ hk => by cases hk⟩

theorem inv_dropped (hinv : l.Inv) {k : Nat} (hk : k < l.link.sockets.length) :
    (l.dropped k).Inv := by
  have hlength : (l.link.dropped k).sockets.length = l.link.sockets.length :=
    (Link.keeps_dropped (P := fun _ => True)).length
  have hfields : (l.dropped k).link = l.link.dropped k ∧ (l.dropped k).ended = k :: l.ended := by
    simp only [dropped]
    split
    · exact ⟨rfl, rfl⟩
    · exact ⟨rfl, rfl⟩
  have hcleared : (l.link.dropped k).running = l.link.running ∧
      (l.link.dropped k).opening = l.link.opening ∧
      ((l.link.dropped k).ws = l.link.ws ∨ (l.link.dropped k).ws = none) := by
    simp only [Link.dropped]
    split
    · exact ⟨rfl, rfl, Or.inr rfl⟩
    · exact ⟨rfl, rfl, Or.inl rfl⟩
  refine ⟨?_, ?_, ?_⟩
  · intro j hj
    rw [hfields.2] at hj
    rw [hfields.1, hlength]
    rcases List.mem_cons.1 hj with rfl | hold
    · exact hk
    · exact hinv.ended j hold
  · intro hstopped
    rw [hfields.1, hcleared.1] at hstopped
    rw [hfields.1]
    rcases hcleared.2.2 with hsame | hnone
    · exact hsame.trans (hinv.stopped hstopped)
    · exact hnone
  · intro j hj
    rw [hfields.1, hcleared.2.1] at hj
    rw [hfields.1, hcleared.1]
    refine ⟨(hinv.opening j hj).1, ?_⟩
    rcases hcleared.2.2 with hsame | hnone
    · exact hsame.trans (hinv.opening j hj).2
    · exact hnone

/-- **Every step keeps the invariant.** -/
theorem inv_of_step {a : ServiceLabel} (hinv : l.Inv) (h : l.step accepts a = some t) : t.Inv := by
  cases a with
  | onStartCommand env =>
      obtain ⟨-, hmain, rfl⟩ := onStartCommand_eq_some h
      split
      · exact hinv
      · refine inv_of_opens (l := { l with
          link := { l.link with running := true }, reconnectDelayMs := minReconnectMs })
          ⟨hinv.ended, fun hno => (by cases hno), fun k hk => ?_⟩ (opens_connectOrDiscover env)
        exact absurd (hmain.symm.trans hk) (by simp)
  | onDestroy =>
      obtain ⟨hmain, rfl⟩ := onMain_eq_some h
      -- `onDestroy` clears `ws` as a forced reconnect does, and nothing is being opened then
      have htorn := inv_torn hinv hmain
      refine ⟨htorn.ended, fun _ => ws_closeCurrent l.link, fun k hk => ?_⟩
      have hopening : l.link.closeCurrent.opening = some k := hk
      have hkeeps : l.link.Keeps (fun _ => True) l.link.closeCurrent := Link.keeps_closeCurrent
      rw [hkeeps.opening, hmain] at hopening
      cases hopening
  | saveServer server =>
      obtain rfl := Option.some.inj h
      exact hinv.congr (.refl l.link) rfl
  | onServiceResolved host port nowMs =>
      obtain ⟨-, rfl⟩ := onMain_eq_some h
      cases host with
      | none => exact hinv
      | some host =>
          exact inv_of_opens (l := { l with daemons := l.daemons.add host port })
            (hinv.congr (.refl l.link) rfl) (opens_connectNextCandidate nowMs)
  | discoveryTimeout env =>
      simp only [step, Option.ite_none_right_eq_some] at h
      obtain ⟨-, rfl⟩ := onMain_eq_some h.2
      have hclosed : Inv { l with discoveryTimeout := false } := hinv.congr (.refl l.link) rfl
      simp only [endDiscovery]
      split
      · exact inv_of_opens hclosed (opens_scheduleReconnect env)
      · exact hclosed
  | reconnect env =>
      simp only [step, Option.ite_none_right_eq_some] at h
      obtain ⟨-, rfl⟩ := onMain_eq_some h.2
      exact inv_of_opens (l := { l with reconnect := none }) (hinv.congr (.refl l.link) rfl)
        (opens_connectOrDiscover env)
  | publish =>
      obtain ⟨link, hlink, rfl⟩ := Option.map_eq_some_iff.1 h
      simp only [Link.step] at hlink
      split at hlink
      · rename_i k hopening
        obtain rfl := Option.some.inj hlink
        -- a socket is opened only while the service runs
        refine ⟨hinv.ended, fun hstopped => ?_, fun j hj => (by cases hj)⟩
        exact absurd ((hinv.opening k hopening).1.symm.trans hstopped) (by simp)
      · cases hlink
  | onOpen k nowMs =>
      obtain ⟨link, hlink, hopen⟩ := Option.bind_eq_some_iff.1 h
      obtain ⟨-, rfl⟩ := onListener_eq_some hopen
      obtain ⟨sock, -, -, -, rfl⟩ := Link.onOpen_eq_some hlink
      exact hinv.congr ⟨rfl, rfl, rfl, List.length_modify ..⟩ rfl
  | onClosing k badKey nowMs =>
      obtain ⟨-, rfl⟩ := onListener_eq_some h
      simp only [onClosing]
      split
      · exact hinv.congr Link.alike_onSocket rfl
      · exact hinv.congr Link.alike_onSocket rfl
  | dropped k =>
      obtain ⟨hk, rfl⟩ := onListener_eq_some h
      exact inv_dropped hinv hk.1
  | retry env =>
      simp only [step] at h
      split at h
      · rename_i r posted hposted
        obtain ⟨-, rfl⟩ := onMain_eq_some h
        exact inv_of_opens (l := { l with posted }) (hinv.congr (.refl l.link) rfl)
          (opens_runRetry r env)
      · cases h
  | networkAvailable env =>
      obtain ⟨hmain, rfl⟩ := onMain_eq_some h
      simp only [networkAvailable]
      split
      · exact inv_forceReconnect hinv hmain env
      · exact hinv
  | verifyLink env =>
      obtain ⟨hmain, rfl⟩ := onMain_eq_some h
      simp only [verifyLink]
      split
      · split
        · exact inv_forceReconnect hinv hmain env
        · exact hinv.congr Link.alike_sendCurrent rfl
      · exact hinv
  | heartbeat env =>
      simp only [step, Option.ite_none_right_eq_some] at h
      obtain ⟨hmain, rfl⟩ := onMain_eq_some h.2
      simp only [beat]
      split
      · exact inv_forceReconnect hinv hmain env
      · rename_i hspared
        exact hinv.congr (alike_beat hspared) rfl
  | link a =>
      simp only [step, Option.ite_none_right_eq_some] at h
      obtain ⟨link, hlink, rfl⟩ := Option.map_eq_some_iff.1 h.2
      exact hinv.congr (Link.alike_of_aside h.1 hlink) rfl

/-! ## What a step leaves -/

theorem awake_iff_of_running (h : t.link.running = l.link.running) :
    t.Awake ↔ (l.link.running = true → t.Waits) := by
  rw [Awake, h]

theorem awake_of_alike (h : l.Awake) {link : Link} (hlink : l.link.Alike link) :
    Awake { l with link } := by
  intro hrunning
  rcases h (hlink.running ▸ hrunning) with (hup | hdue) | hreconnect
  · exact Or.inl (Or.inl ((Up.congr (t := { l with link }) hlink rfl).2 hup))
  · exact Or.inl (Or.inr hdue)
  · exact Or.inr hreconnect

/-- A forced reconnect has no timer to fall back on: it takes the pending one off. -/
theorem awake_forceReconnect_iff (hinv : l.Inv) (hmain : l.link.opening = none) (env : Env) :
    (l.forceReconnect accepts env).Awake ↔
      (l.link.running = true →
        l.SavedDials accepts ∨ l.discoveryTimeout = true ∨ l.posted ≠ []) := by
  rw [awake_iff_of_running (running_forceReconnect env)]
  exact forall_congr' fun hrunning => waits_forceReconnect_iff hinv hmain hrunning env

/-- A start waits for something, unless it dials in vain. -/
theorem awake_start_iff (hinv : l.Inv) (hmain : l.link.opening = none)
    (hrunning : l.link.running = false) (env : Env) :
    (connectOrDiscover accepts { l with
      link := { l.link with running := true }, reconnectDelayMs := minReconnectMs } env).Awake ↔
      l.SavedDials accepts ∨ l.Waits := by
  have hstarted : Inv { l with
      link := { l.link with running := true }, reconnectDelayMs := minReconnectMs } := by
    refine ⟨hinv.ended, fun hno => (by cases hno), fun k hk => ?_⟩
    exact absurd (hmain.symm.trans hk) (by simp)
  have hfree : l.link.ws = none := hinv.stopped hrunning
  have hstill : (connectOrDiscover accepts { l with
      link := { l.link with running := true }
      reconnectDelayMs := minReconnectMs } env).link.running = true :=
    running_of_opens (opens_connectOrDiscover env)
  rw [Awake, imp_iff_right hstill, waits_connectOrDiscover_iff hstarted hmain rfl env]
  simp [SavedDials, hfree, Waits, Backed, Up, Link.Current]

/-- The end of a window schedules a reconnect, unless `ws` is taken. -/
theorem awake_endDiscovery_iff (env : Env) :
    (l.endDiscovery env).Awake ↔
      (l.link.running = true → l.link.ws ≠ none →
        l.Up ∨ l.posted ≠ [] ∨ l.reconnect.isSome = true) := by
  by_cases hfree : l.link.running = true ∧ l.link.ws = none
  · simp only [endDiscovery, hfree, true_and, if_true]
    refine iff_of_true ?_ fun _ hbusy => absurd rfl hbusy
    intro _
    exact waits_scheduleReconnect (l := { l with discoveryTimeout := false }) hfree.1 env
  · simp only [endDiscovery, hfree, if_false]
    apply forall_congr'
    intro hrunning
    have hbusy : l.link.ws ≠ none := fun hws => hfree ⟨hrunning, hws⟩
    rw [imp_iff_right hbusy]
    simp [Waits, Backed, Up, Link.Current, or_assoc]

/-- The socket that is stored is up if it was. -/
theorem awake_publish {k : Nat} (hinv : l.Inv) (hawake : l.Awake)
    (hopening : l.link.opening = some k) :
    Awake { l with link := { l.link with ws := some k, opening := none } } := by
  intro hrunning
  rcases hawake hrunning with (⟨j, hcurrent, hj⟩ | hdue) | hreconnect
  · refine Or.inl (Or.inl ⟨j, Or.inl ?_, hj⟩)
    -- while a socket is being opened, `ws` is free, so what is up is that socket
    rcases hcurrent with hws | hj'
    · rw [(hinv.opening k hopening).2] at hws
      cases hws
    · exact hopening.symm.trans hj'
  · exact Or.inl (Or.inr hdue)
  · exact Or.inr hreconnect

theorem clear_of_not_forces {a : ServiceLabel} {P : Prop} (h : ¬ l.Forces a) :
    l.link.running = true → l.Forces a → P :=
  fun _ hforces => absurd hforces h

/-- **A step leaves the service awake exactly when it is clear.** -/
theorem awake_step_iff {a : ServiceLabel} (hinv : l.Inv) (hawake : l.Awake)
    (h : l.step accepts a = some t) : t.Awake ↔ l.Clear accepts a := by
  cases a with
  | onStartCommand env =>
      obtain ⟨-, hmain, rfl⟩ := onStartCommand_eq_some h
      cases hrunning : l.link.running with
      | true =>
          refine iff_of_true ?_ fun hno => ?_
          · simpa using hawake
          · exact absurd (hrunning.symm.trans hno) (by simp)
      | false =>
          simp only [if_false, Bool.false_eq_true, Clear, hrunning, true_imp_iff]
          exact awake_start_iff hinv hmain hrunning env
  | onDestroy =>
      obtain ⟨-, rfl⟩ := onMain_eq_some h
      refine iff_of_true (fun hno => by cases hno) ?_
      exact clear_of_not_forces id
  | saveServer server =>
      obtain rfl := Option.some.inj h
      exact iff_of_true hawake (clear_of_not_forces id)
  | onServiceResolved host port nowMs =>
      obtain ⟨hmain, rfl⟩ := onMain_eq_some h
      refine iff_of_true ?_ (clear_of_not_forces id)
      cases host with
      | none => exact hawake
      | some host =>
          apply (awake_iff_of_running (l := { l with daemons := l.daemons.add host port })
            (running_of_opens (opens_connectNextCandidate nowMs))).2
          intro hrunning
          exact waits_connectNextCandidate (l := { l with daemons := l.daemons.add host port })
            (hinv.congr (.refl l.link) rfl) hmain (hawake hrunning) nowMs
  | discoveryTimeout env =>
      simp only [step, Option.ite_none_right_eq_some] at h
      obtain ⟨-, rfl⟩ := onMain_eq_some h.2
      exact awake_endDiscovery_iff env
  | reconnect env =>
      simp only [step, Option.ite_none_right_eq_some] at h
      obtain ⟨hmain, rfl⟩ := onMain_eq_some h.2
      -- the timer that has fired is no longer pending, so the dial has to succeed
      rw [awake_iff_of_running (l := { l with reconnect := none })
        (running_of_opens (opens_connectOrDiscover env))]
      apply forall_congr'
      intro hrunning
      rw [waits_connectOrDiscover_iff (l := { l with reconnect := none })
        (hinv.congr (.refl l.link) rfl) hmain hrunning env]
      simp [SavedDials, Waits, Backed, Up, Link.Current]
  | publish =>
      obtain ⟨link, hlink, rfl⟩ := Option.map_eq_some_iff.1 h
      simp only [Link.step] at hlink
      split at hlink
      · rename_i k hopening
        obtain rfl := Option.some.inj hlink
        exact iff_of_true (awake_publish hinv hawake hopening) (clear_of_not_forces id)
      · cases hlink
  | onOpen k nowMs =>
      obtain ⟨link, hlink, hopen⟩ := Option.bind_eq_some_iff.1 h
      obtain ⟨-, rfl⟩ := onListener_eq_some hopen
      obtain ⟨sock, -, -, -, rfl⟩ := Link.onOpen_eq_some hlink
      -- the pending reconnect is taken off, whichever socket has opened
      simp [Awake, Clear, onOpen, Link.onOpen, Link.onSocket, Waits, Backed, Up, Link.Current]
  | onClosing k badKey nowMs =>
      obtain ⟨-, rfl⟩ := onListener_eq_some h
      refine iff_of_true ?_ (clear_of_not_forces id)
      simp only [onClosing]
      split
      · exact hawake
      · exact hawake
  | dropped k =>
      obtain ⟨-, rfl⟩ := onListener_eq_some h
      have hrunning : (l.dropped k).link.running = l.link.running := by
        simp only [dropped, Link.dropped]
        split
        · split
          · rfl
          · rfl
        · split
          · rfl
          · rfl
      rw [awake_iff_of_running hrunning]
      exact forall_congr' fun hrunning => waits_dropped_iff hinv (hawake hrunning) k
  | retry env =>
      simp only [step] at h
      split at h
      · rename_i r posted hposted
        obtain ⟨hmain, rfl⟩ := onMain_eq_some h
        rw [awake_iff_of_running (l := { l with posted }) (running_of_opens (opens_runRetry r env))]
        simp only [Clear, hposted, List.head?_cons, Option.mem_def, Option.some.injEq,
          forall_eq', List.tail_cons]
        apply forall_congr'
        intro hrunning
        rw [waits_runRetry_iff (l := { l with posted }) (hinv.congr (.refl l.link) rfl) hmain
          hrunning r env]
        apply forall_congr'
        intro hws
        rw [waits_iff_of_free (l := { l with posted }) hws hmain]
      · cases h
  | networkAvailable env =>
      obtain ⟨hmain, rfl⟩ := onMain_eq_some h
      by_cases hforces : l.link.ws = none ∨ l.link.silent env.nowMs livenessTimeoutMs = true
      · rw [networkAvailable, if_pos hforces, awake_forceReconnect_iff hinv hmain]
        exact forall_congr' fun _ => (imp_iff_right hforces).symm
      · rw [networkAvailable, if_neg hforces]
        exact iff_of_true hawake (clear_of_not_forces hforces)
  | verifyLink env =>
      obtain ⟨hmain, rfl⟩ := onMain_eq_some h
      cases hrunning : l.link.running with
      | false =>
          simp only [verifyLink, hrunning, Bool.false_eq_true, if_false]
          refine iff_of_true hawake fun hno => ?_
          exact absurd (hrunning.symm.trans hno) (by simp)
      | true =>
          simp only [verifyLink, hrunning, if_true]
          by_cases hforces : l.link.suspect env.nowMs = true
          · rw [if_pos hforces, awake_forceReconnect_iff hinv hmain]
            exact forall_congr' fun _ => (imp_iff_right hforces).symm
          · rw [if_neg hforces]
            refine iff_of_true ?_ (clear_of_not_forces hforces)
            exact awake_of_alike hawake Link.alike_sendCurrent
  | heartbeat env =>
      simp only [step, Option.ite_none_right_eq_some] at h
      obtain ⟨hmain, rfl⟩ := onMain_eq_some h.2
      by_cases hforces : l.link.ws ≠ none ∧ l.link.silent env.nowMs livenessTimeoutMs = true
      · rw [beat, if_pos hforces, awake_forceReconnect_iff hinv hmain]
        exact forall_congr' fun _ => (imp_iff_right hforces).symm
      · rw [beat, if_neg hforces]
        refine iff_of_true ?_ (clear_of_not_forces hforces)
        exact awake_of_alike hawake (alike_beat hforces)
  | link a =>
      simp only [step, Option.ite_none_right_eq_some] at h
      obtain ⟨link, hlink, rfl⟩ := Option.map_eq_some_iff.1 h.2
      refine iff_of_true ?_ (clear_of_not_forces id)
      exact awake_of_alike hawake (Link.alike_of_aside h.1 hlink)

theorem awake_start (identity : Identity) (server : Str) : (start identity server).Awake := by
  intro hrunning
  cases hrunning

/-- **The service is never idle in a run exactly when every step of the run is clear.** -/
theorem awake_along_iff (accepts : Str → Bool) (identity : Identity) (server : Str)
    (as : List ServiceLabel) :
    (machine accepts).Along Awake (start identity server) as ↔
      (machine accepts).Meets (Clear accepts) (start identity server) as :=
  Machine.along_iff_meets (I := Inv) (fun _ _ _ hinv h => inv_of_step hinv h)
    (fun _ _ _ hinv hawake h => awake_step_iff hinv hawake h) (inv_start identity server)
    (awake_start identity server) as

/-- A saved server without a host: the service starts, skips it, and waits for nothing, even where
the HTTP client takes every URL. -/
theorem not_awake_noHost :
    ¬ (machine fun _ => true).Along Awake (start ⟨"phone1", "DialF Phone", "", "1"⟩ ":8765".toList)
      [.onStartCommand ⟨0, false, true⟩] := by
  rintro ⟨-, hawake⟩
  have haddress : serverAddress [':', '8', '7', '6', '5'] = some ([], 8765) := by decide +kernel
  have hurl : wsUrl [] 8765 = none := by decide +kernel
  simp [machine, step, onMain, start, Link.start, connectOrDiscover, connect, Link.connect, haddress,
    hurl, Machine.Along, Awake, Waits, Backed, Up, Link.Current] at hawake

end Service

end DialF.Phone
