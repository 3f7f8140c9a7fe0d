import DialF.Share.Gate

/-!
# What the gate keeps from the upstream

Two classes of host services are not for a peer to reach unchecked: those that stop the server or
change what is attached to it, and the device lists, which have to pass through the filter. `decide`
takes both out of the requests of the form `host:<cmd>` (`Withheld`).

The server runs the same services behind a device prefix, and behind a serial that it cuts out of a
rewrite; `Slips` lists the requests that reach it so (`passedOn_runs_iff`). And the gate reads only
the first request of a connection: whatever a peer sends behind one that the policy has passed is
copied, and the server reads on. `refused_iff` and `vetted_iff` say that these two ways are the only
ones.
-/

set_option autoImplicit false

namespace DialF.Share

open DialF.Lib

/-! ## Services behind a device prefix -/

/-- A class of commands that the policy forwards in no request of the form `host:<cmd>`. -/
structure Withheld (service : Str → Bool) : Prop where
  bare : ∀ cmd, IsBare cmd → service cmd = false
  named : ∀ cmd serial, namedSerial cmd = some serial → service cmd = false
  unqualified : ∀ cmd, isUnqualified ("host:".toList ++ cmd) = true → service cmd = false

/-- What is named or unqualified starts with a `t` and is none of the listed commands. -/
theorem withheld_isMutating : Withheld isMutating where
  bare cmd h := h.notMutating
  named cmd serial h := by
    rcases namedSerial_eq_some_iff.1 h with rfl | rfl
    · simp [isMutating, startsWith, stripPrefix, List.isPrefixOf?]
    · simp [isMutating, startsWith, stripPrefix, List.isPrefixOf?]
  unqualified cmd h := by
    simp [isUnqualified] at h
    rcases h with ((((rfl | rfl) | rfl) | rfl) | rfl) | rfl <;> decide

theorem withheld_isInventory : Withheld isInventory where
  bare cmd h := h.notInventory
  named cmd serial h := by
    rcases namedSerial_eq_some_iff.1 h with rfl | rfl
    · simp [isInventory]
    · simp [isInventory]
  unqualified cmd h := by
    simp [isUnqualified] at h
    rcases h with ((((rfl | rfl) | rfl) | rfl) | rfl) | rfl <;> decide

/-- The server runs a service of the class for the request, its padding taken off. -/
def HostServer.runs (srv : HostServer) (service : Str → Bool) (request : Str) : Bool :=
  match srv.parse request with
  | some h => service (trimEndMatches nul h.command)
  | none => false

/-- What the gate writes to the upstream for a request that it splices whatever the answer is. -/
def passedOn (targets : Targets) (request : Str) : Option Str :=
  match decide request targets with
  | .forward => some request
  | .rewrite replacement => some replacement
  | _ => none

section Slips

variable (srv : HostServer) (service : Str → Bool) (targets : Targets)

/-- The requests that the policy passes on and for which the server runs a service that it forwards
in no request of the form `host:<cmd>`. -/
inductive Slips : Str → Prop where
  | usb {cmd : Str} : service (trimEndMatches nul cmd) = true →
      Slips ("host-usb:".toList ++ cmd)
  | local {cmd : Str} : service (trimEndMatches nul cmd) = true →
      Slips ("host-local:".toList ++ cmd)
  | transportId {rest n cmd : Str} {id : Nat} : cutColon rest = some (n, cmd) →
      srv.transportId n = some id → service (trimEndMatches nul cmd) = true →
      Slips ("host-transport-id:".toList ++ rest)
  | serial {rest s cmd : Str} :
      (matchingSerial (trimEndMatches nul rest) targets).isSome = true →
      srv.cutSerial rest = some (s, cmd) → service (trimEndMatches nul cmd) = true →
      Slips ("host-serial:".toList ++ rest)
  /-- A bare command that is written behind the one shared serial, of which the server takes a part
  for the serial. -/
  | misread {cmd serial s cmd' : Str} : targets.onlyOne = some serial →
      IsBare (trimEndMatches nul cmd) → isServerScoped (trimEndMatches nul cmd) = false →
      srv.cutSerial (serial ++ [':'] ++ trimEndMatches nul cmd) = some (s, cmd') →
      service (trimEndMatches nul cmd') = true → Slips ("host:".toList ++ cmd)

variable {srv service targets}

theorem runs_host (cmd : Str) :
    srv.runs service ("host:".toList ++ cmd) = service (trimEndMatches nul cmd) := by
  rw [HostServer.runs, HostServer.parse_host]

theorem runs_of_prefixed {request : Str} {h : HostRequest} (hp : srv.Prefixed request h) :
    srv.runs service request = service (trimEndMatches nul h.command) := by
  rw [HostServer.runs, srv.parse_of_prefixed hp]

theorem exists_of_runs {request : Str} (hrun : srv.runs service request = true) :
    ∃ h, srv.parse request = some h ∧ service (trimEndMatches nul h.command) = true := by
  rw [HostServer.runs] at hrun
  cases hparse : srv.parse request with
  | none => simp [hparse] at hrun
  | some h => exact ⟨h, rfl, by simpa [hparse] using hrun⟩

theorem isHostRequest_of_runs {request : Str} (hrun : srv.runs service request = true) :
    isHostRequest request = true := by
  obtain ⟨h, hparse, -⟩ := exists_of_runs hrun
  exact srv.isHostRequest_of_parse hparse

/-- Of the requests of the form `host:<cmd>`, none that is forwarded runs the service. -/
theorem runs_host_of_forward (hw : Withheld service) {cmd : Str}
    (hdec : decide ("host:".toList ++ cmd) targets = .forward) :
    srv.runs service ("host:".toList ++ cmd) = false := by
  rw [runs_host]
  rcases forward_host hdec with ⟨serial, hs, -⟩ | ⟨hcmd, -⟩ | ⟨-, hun⟩
  · exact hw.named _ serial hs
  · exact hw.bare _ hcmd
  · exact hw.unqualified _ hun

theorem passedOn_of_forward {request : Str} (hdec : decide request targets = .forward) :
    passedOn targets request = some request := by
  rw [passedOn, hdec]

theorem passedOn_of_prefixed {request : Str} {h : HostRequest} (hp : srv.Prefixed request h)
    (hne : ∀ s, h.address ≠ some (.serial s)) : passedOn targets request = some request :=
  passedOn_of_forward (srv.decide_of_prefixed hp hne targets)

/-- **The requests that slip through are all there are** for which the policy passes on something
that makes the server run a withheld service. -/
theorem passedOn_runs_iff (hw : Withheld service) {request : Str} :
    (∃ f, passedOn targets request = some f ∧ srv.runs service f = true) ↔
      Slips srv service targets request := by
  constructor
  · rintro ⟨f, hf, hrun⟩
    cases hdec : decide request targets with
    | reject reason => simp [passedOn, hdec] at hf
    | filterList streaming => simp [passedOn, hdec] at hf
    | forward =>
        obtain rfl : request = f := by simpa [passedOn, hdec] using hf
        obtain ⟨h, hparse, -⟩ := exists_of_runs hrun
        rcases srv.parse_eq_some hparse with ⟨hreq, -⟩ | hp
        · rw [hreq] at hdec hrun
          rw [runs_host_of_forward hw hdec] at hrun
          exact absurd hrun (by simp)
        · rw [runs_of_prefixed hp] at hrun
          cases hp with
          | usb cmd => exact .usb hrun
          | «local» cmd => exact .local hrun
          | transportId hcut hid => exact .transportId hcut hid hrun
          | @serial rest s cmd hcut =>
              rw [decide_hostSerial targets (trimEndMatches_hostSerial rest)] at hdec
              refine .serial ?_ hcut hrun
              by_contra hm
              rw [Option.not_isSome_iff_eq_none] at hm
              simp [hm] at hdec
    | rewrite r =>
        obtain rfl : r = f := by simpa [passedOn, hdec] using hf
        obtain ⟨serial, hone, hcase⟩ := rewrite_cases hdec
        rcases hcase with ⟨-, cmd, hnamed, rfl⟩ | ⟨cmd, hreq, hbare, hscoped, rfl⟩
        · have htrim := namedSerial_trimEndMatches cmd
          rw [hnamed, Option.map_some] at htrim
          rw [runs_host, hw.named _ _ htrim] at hrun
          exact absurd hrun (by simp)
        · obtain ⟨cmd', rfl, rfl⟩ := eq_host_of_trimEndMatches hreq
          obtain ⟨h, hparse, hservice⟩ := exists_of_runs hrun
          rw [List.append_assoc, List.append_assoc, HostServer.parse_hostSerial,
            Option.map_eq_some_iff] at hparse
          obtain ⟨⟨s, cmd⟩, hcut, rfl⟩ := hparse
          rw [← List.append_assoc] at hcut
          exact .misread hone hbare hscoped hcut hservice
  · intro hslips
    cases hslips with
    | @usb cmd hservice =>
        have hp : srv.Prefixed _ _ := .usb cmd
        refine ⟨_, passedOn_of_prefixed hp (by simp), ?_⟩
        rw [runs_of_prefixed hp]
        exact hservice
    | @«local» cmd hservice =>
        have hp : srv.Prefixed _ _ := .local cmd
        refine ⟨_, passedOn_of_prefixed hp (by simp), ?_⟩
        rw [runs_of_prefixed hp]
        exact hservice
    | transportId hcut hid hservice =>
        have hp := HostServer.Prefixed.transportId hcut hid
        refine ⟨_, passedOn_of_prefixed hp (by simp), ?_⟩
        rw [runs_of_prefixed hp]
        exact hservice
    | @serial rest s cmd hm hcut hservice =>
        obtain ⟨shared, hshared⟩ := Option.isSome_iff_exists.1 hm
        refine ⟨_, passedOn_of_forward ?_, ?_⟩
        · rw [decide_hostSerial targets (trimEndMatches_hostSerial rest), hshared]
        · rw [runs_of_prefixed (.serial hcut)]
          exact hservice
    | @misread cmd serial s cmd' hone hbare hscoped hcut hservice =>
        refine ⟨"host-serial:".toList ++ (serial ++ [':'] ++ trimEndMatches nul cmd), ?_, ?_⟩
        · rw [passedOn, decide_bare targets hbare (trimEndMatches_host cmd), hscoped, hone]
          simp
        · rw [runs_of_prefixed (.serial hcut)]
          exact hservice

end Slips

/-! ## Services that stop or change the server -/

section Connection

variable (srv : HostServer) (targets : Targets) (client reply : Bytes)

/-- Nothing that the gate writes to the upstream makes it run kill, connect or disconnect. -/
def RefusesMutating : Prop :=
  ∀ r ∈ srv.requests (gate targets client reply).up, srv.runs isMutating r = false

/-- The peer's first request slips a mutating service through, or one stands behind a first request
that leaves the upstream reading and the connection spliced. -/
def SmugglesMutating : Prop :=
  ∃ request rest f, readMessage client = some (request, rest) ∧
    forwarded targets request = some f ∧ Fits f ∧
    (Slips srv isMutating targets request ∨
      srv.ends f = false ∧ splices targets request reply = true ∧
        ∃ r ∈ srv.requests rest, srv.runs isMutating r = true)

variable {srv targets client reply}

theorem forwarded_of_passedOn {request f : Str} (h : passedOn targets request = some f) :
    forwarded targets request = some f := by
  cases hdec : decide request targets <;> simp_all [passedOn, forwarded]

theorem forwarded_cases {request f : Str} (h : forwarded targets request = some f) :
    passedOn targets request = some f ∨
      ∃ streaming, decide request targets = .filterList streaming ∧ request = f := by
  cases hdec : decide request targets <;> simp_all [passedOn, forwarded]

theorem splices_of_passedOn {request f : Str} (h : passedOn targets request = some f)
    (reply : Bytes) : splices targets request reply = true := by
  cases hdec : decide request targets <;> simp_all [passedOn, splices]

/-- The first request slips the service through exactly where what is forwarded of it runs the
service, unless it is answered by a filtered list. -/
theorem slips_iff_runs {service : Str → Bool} (hw : Withheld service) {request f : Str}
    (hf : passedOn targets request = some f) :
    Slips srv service targets request ↔ srv.runs service f = true := by
  rw [← passedOn_runs_iff hw]
  constructor
  · rintro ⟨f', hf', hrun⟩
    rw [hf, Option.some.injEq] at hf'
    exact hf' ▸ hrun
  · intro hrun
    exact ⟨f, hf, hrun⟩

theorem runs_isMutating_of_filterList {request : Str} {streaming : Bool}
    (hdec : decide request targets = .filterList streaming) :
    srv.runs isMutating request = false := by
  obtain ⟨cmd, rfl, hcmd⟩ := filterList_host hdec
  rw [runs_host]
  simp only [isInventory, Bool.or_eq_true, beq_iff_eq] at hcmd
  rcases hcmd with ((h | h) | h) | h <;> rw [h] <;> decide

variable (srv targets client reply)

/-- **Kill, connect and disconnect stay refused exactly where the peer smuggles none of them.** -/
theorem refusesMutating_iff :
    RefusesMutating srv targets client reply ↔ ¬ SmugglesMutating srv targets client reply := by
  constructor
  · rintro hrefuses ⟨request, rest, f, hread, hf, hfit, hslips | ⟨hends, hsplice, r, hr, hrun⟩⟩
    · obtain ⟨f', hf', hrun⟩ := (passedOn_runs_iff withheld_isMutating).2 hslips
      obtain rfl : f = f' := Option.some.inj (hf.symm.trans (forwarded_of_passedOn hf'))
      have hquiet := hrefuses f (by rw [requests_gate srv reply hread hf hfit]; simp)
      rw [hrun] at hquiet
      exact absurd hquiet (by simp)
    · have hquiet := hrefuses r (by
        rw [requests_gate srv reply hread hf hfit]
        exact List.mem_cons_of_mem f (mem_requestsBehind.2 ⟨hends, hsplice, hr⟩))
      rw [hrun] at hquiet
      exact absurd hquiet (by simp)
  · intro hsmuggles r hr
    by_contra hrun
    rw [Bool.not_eq_false] at hrun
    obtain ⟨request, rest, f, hread, hf, hfit⟩ :=
      read_of_host_mem_requests (isHostRequest_of_runs hrun) hr
    apply hsmuggles
    refine ⟨request, rest, f, hread, hf, hfit, ?_⟩
    rw [requests_gate srv reply hread hf hfit, List.mem_cons] at hr
    rcases hr with rfl | hr
    · rcases forwarded_cases hf with hpass | ⟨streaming, hdec, rfl⟩
      · exact Or.inl ((slips_iff_runs withheld_isMutating hpass).2 hrun)
      · rw [runs_isMutating_of_filterList hdec] at hrun
        exact absurd hrun (by simp)
    · obtain ⟨hends, hsplice, hrest⟩ := mem_requestsBehind.1 hr
      exact Or.inr ⟨hends, hsplice, r, hrest, hrun⟩

/-- A kill behind the serial of the shared device reaches the upstream. -/
theorem not_refusesMutating_hostSerial :
    ¬ RefusesMutating adbServer (.only ["A".toList]) (writeMessage "host-serial:A:kill".toList)
      [] := by
  intro hrefuses
  have hfit : Fits "host-serial:A:kill".toList := by decide
  have hread := readMessage_writeMessage hfit []
  rw [List.append_nil] at hread
  have hf : forwarded (.only ["A".toList]) "host-serial:A:kill".toList =
      some "host-serial:A:kill".toList := by decide
  have hquiet := hrefuses "host-serial:A:kill".toList (by
    rw [requests_gate adbServer [] hread hf hfit]
    exact List.mem_cons_self)
  exact absurd hquiet (by decide)

/-! ## Requests behind the first one -/

/-- The policy passes the request, or produces it as a rewrite. -/
def Approved (r : Str) : Prop :=
  decide r targets = .forward ∨ (∃ streaming, decide r targets = .filterList streaming) ∨
    ∃ q, decide q targets = .rewrite r

/-- The requests that may be answered by a device list: an answer other than `OKAY` to the first
one carries none. -/
def answered : List Str → List Str
  | [] => []
  | r :: rs => if reply.take 4 = okay then r :: rs else rs

/-- Every host request that the upstream reads is approved, and every device list that reaches the
peer has passed through the filter: the lists written are filtered, and none is copied. -/
structure Vetted : Prop where
  approved : ∀ r ∈ srv.requests (gate targets client reply).up, isHostRequest r = true →
    Approved targets r
  filtered : ∀ p, Write.deviceList p ∈ (gate targets client reply).down →
    ∃ l, p = filterDeviceList l targets
  noneCopied : (∃ r ∈ answered reply (srv.requests (gate targets client reply).up),
    srv.runs isInventory r = true) → ¬ ∃ b, Write.copied b ∈ (gate targets client reply).down

/-- The peer's first request slips an answered device list through, or behind a first request that
leaves the upstream reading and the connection spliced stands one that is not approved or asks for
the device list. -/
def SlipsPast : Prop :=
  ∃ request rest f, readMessage client = some (request, rest) ∧
    forwarded targets request = some f ∧ Fits f ∧
    (Slips srv isInventory targets request ∧ reply.take 4 = okay ∨
      srv.ends f = false ∧ splices targets request reply = true ∧
        ∃ r ∈ srv.requests rest, isHostRequest r = true ∧
          (¬ Approved targets r ∨ srv.runs isInventory r = true))

variable {srv targets client reply}

theorem approved_of_forwarded {request f : Str} (h : forwarded targets request = some f) :
    Approved targets f := by
  cases hdec : decide request targets with
  | reject reason => simp [forwarded, hdec] at h
  | rewrite r =>
      obtain rfl : r = f := by simpa [forwarded, hdec] using h
      exact Or.inr (Or.inr ⟨request, hdec⟩)
  | forward =>
      obtain rfl : request = f := by simpa [forwarded, hdec] using h
      exact Or.inl hdec
  | filterList streaming =>
      obtain rfl : request = f := by simpa [forwarded, hdec] using h
      exact Or.inr (Or.inl ⟨streaming, hdec⟩)

theorem mem_of_mem_answered {r : Str} {rs : List Str} (h : r ∈ answered reply rs) : r ∈ rs := by
  cases rs with
  | nil => exact h
  | cons s rs =>
      rw [answered] at h
      split at h
      · exact h
      · exact List.mem_cons_of_mem s h

theorem mem_answered_of_mem {r s : Str} {rs : List Str} (h : r ∈ rs) :
    r ∈ answered reply (s :: rs) := by
  rw [answered]
  split
  · exact List.mem_cons_of_mem s h
  · exact h

theorem mem_answered_cons {r s : Str} {rs : List Str} (h : r ∈ answered reply (s :: rs)) :
    s = r ∧ reply.take 4 = okay ∨ r ∈ rs := by
  rw [answered] at h
  split at h
  · rename_i hokay
    rcases List.mem_cons.1 h with rfl | h
    · exact Or.inl ⟨rfl, hokay⟩
    · exact Or.inr h
  · exact Or.inr h

/-- Every list that the gate writes is a filtered one. -/
theorem deviceList_mem_gate {p : Str} (h : Write.deviceList p ∈ (gate targets client reply).down) :
    ∃ l, p = filterDeviceList l targets := by
  unfold gate at h
  split at h
  · simp at h
  · split at h
    · simp at h
    · simp at h
    · simp at h
    · unfold relayFilteredList at h
      split at h
      · simp at h
      split at h
      · simp at h
      · simp only [List.mem_cons, reduceCtorEq, false_or, List.mem_map] at h
        obtain ⟨bytes, -, hp⟩ := h
        exact ⟨_, (Write.deviceList.inj hp).symm⟩

theorem not_splices_of_filterList {request : Str} {streaming : Bool}
    (hdec : decide request targets = .filterList streaming) (hokay : reply.take 4 = okay) :
    splices targets request reply = false := by
  simp [splices, hdec, hokay]

variable (srv targets client reply)

/-- **The gate vets a connection exactly where the peer slips nothing past it.** -/
theorem vetted_iff : Vetted srv targets client reply ↔ ¬ SlipsPast srv targets client reply := by
  constructor
  · rintro ⟨happroved, -, hcopied⟩ ⟨request, rest, f, hread, hf, hfit, hslips⟩
    have hreqs := requests_gate srv reply hread hf hfit
    rcases hslips with ⟨hslips, hokay⟩ | ⟨hends, hsplice, r, hr, hhost, hbad⟩
    · obtain ⟨f', hf', hrun⟩ := (passedOn_runs_iff withheld_isInventory).2 hslips
      obtain rfl : f = f' := Option.some.inj (hf.symm.trans (forwarded_of_passedOn hf'))
      apply hcopied
      · refine ⟨f, ?_, hrun⟩
        rw [hreqs, answered, if_pos hokay]
        exact List.mem_cons_self
      · exact (copied_mem_gate_iff targets client reply).2
          ⟨request, rest, hread, splices_of_passedOn hf' reply⟩
    · have hbehind : r ∈ requestsBehind srv targets request f rest reply :=
        mem_requestsBehind.2 ⟨hends, hsplice, hr⟩
      rcases hbad with hbad | hrun
      · apply hbad
        apply happroved r _ hhost
        rw [hreqs]
        exact List.mem_cons_of_mem f hbehind
      · apply hcopied
        · refine ⟨r, ?_, hrun⟩
          rw [hreqs]
          exact mem_answered_of_mem hbehind
        · exact (copied_mem_gate_iff targets client reply).2 ⟨request, rest, hread, hsplice⟩
  · intro hslips
    refine ⟨?_, fun p => deviceList_mem_gate, ?_⟩
    · intro r hr hhost
      obtain ⟨request, rest, f, hread, hf, hfit⟩ := read_of_host_mem_requests hhost hr
      rw [requests_gate srv reply hread hf hfit, List.mem_cons] at hr
      rcases hr with rfl | hr
      · exact approved_of_forwarded hf
      · obtain ⟨hends, hsplice, hrest⟩ := mem_requestsBehind.1 hr
        by_contra hbad
        exact hslips ⟨request, rest, f, hread, hf, hfit,
          Or.inr ⟨hends, hsplice, r, hrest, hhost, Or.inl hbad⟩⟩
    · rintro ⟨r, hr, hrun⟩ hcopied
      have hhost := isHostRequest_of_runs hrun
      obtain ⟨request, rest, f, hread, hf, hfit⟩ :=
        read_of_host_mem_requests hhost (mem_of_mem_answered hr)
      rw [requests_gate srv reply hread hf hfit] at hr
      rcases mem_answered_cons hr with ⟨rfl, hokay⟩ | hr
      · -- the first request: copied answers rule the filtered list out
        obtain ⟨request', rest', hread', hsplice⟩ :=
          (copied_mem_gate_iff targets client reply).1 hcopied
        rw [hread, Option.some.injEq, Prod.mk.injEq] at hread'
        obtain ⟨rfl, rfl⟩ := hread'
        rcases forwarded_cases hf with hpass | ⟨streaming, hdec, rfl⟩
        · exact hslips ⟨request, rest, f, hread, hf, hfit,
            Or.inl ⟨(slips_iff_runs withheld_isInventory hpass).2 hrun, hokay⟩⟩
        · rw [not_splices_of_filterList hdec hokay] at hsplice
          exact absurd hsplice (by simp)
      · obtain ⟨hends, hsplice, hrest⟩ := mem_requestsBehind.1 hr
        exact hslips ⟨request, rest, f, hread, hf, hfit,
          Or.inr ⟨hends, hsplice, r, hrest, hhost, Or.inr hrun⟩⟩

/-- A kill behind a transport request reaches the upstream, which reads on. -/
theorem not_vetted_transport :
    ¬ Vetted adbServer (.only ["A".toList])
      (writeMessage "host:transport:A".toList ++ writeMessage "host:kill".toList) okay := by
  intro hvetted
  have hfit : Fits "host:transport:A".toList := by decide
  have hkill : Fits "host:kill".toList := by decide
  have hread := readMessage_writeMessage hfit (writeMessage "host:kill".toList)
  have hf : forwarded (.only ["A".toList]) "host:transport:A".toList =
      some "host:transport:A".toList := by decide
  have hbehind := requests_writeMessage_append adbServer hkill []
  rw [List.append_nil] at hbehind
  have happroved : Approved (.only ["A".toList]) "host:kill".toList := by
    apply hvetted.approved _ _ (by decide)
    rw [requests_gate adbServer okay hread hf hfit]
    apply List.mem_cons_of_mem
    rw [mem_requestsBehind, hbehind]
    exact ⟨by decide, by decide, List.mem_cons_self⟩
  rcases happroved with h | ⟨streaming, h⟩ | ⟨q, hq⟩
  · exact absurd h (by decide)
  · cases streaming <;> exact absurd h (by decide)
  · obtain ⟨serial, -, ⟨-, cmd, hnamed, hcmd⟩ | ⟨cmd, -, -, -, hcmd⟩⟩ := rewrite_cases hq
    · have hkilled : "host:".toList ++ "kill".toList = "host:".toList ++ cmd := hcmd
      rw [← List.append_cancel_left hkilled] at hnamed
      have hnone : namedSerial "kill".toList = none := by decide
      exact absurd (hnone.symm.trans hnamed) (by simp)
    · simp at hcmd

end Connection

end DialF.Share
