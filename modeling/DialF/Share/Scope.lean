import DialF.Share.HostServer

/-!
# The device scope of a share

A share of a list of devices keeps its scope on a request when a forwarded request resolves to a
device of the list or to none, and a rewritten one names a device of the list and would itself be
forwarded (`KeepsScope`).

`Escapes` lists the requests on which it does not: the address forms that `decide` passes on without
a test, a serial that the server cuts elsewhere than `decide` matches it, and a serial whose end is
taken for padding. The two directions of `keepsScope_iff` are `scope_of_forward` with
`scope_of_rewrite`, and `not_keepsScope_of_escapes`.
-/

set_option autoImplicit false

namespace DialF.Share

open DialF.Lib

variable (srv : HostServer)

/-- The policy lets the peer reach no device outside `list` by this request. -/
def KeepsScope (list : List Str) (request : Str) : Prop :=
  match decide request (.only list) with
  | .forward =>
      ∀ attached addr d, srv.addressOf request = some addr → Resolves attached addr d →
        d.serial ∈ list
  | .rewrite r =>
      (∃ serial ∈ list, srv.addressOf r = some (.serial serial)) ∧
        decide r (.only list) = .forward
  | _ => True

/-- The requests by which a peer leaves the devices of `list`. -/
inductive Escapes (list : List Str) : Str → Prop where
  /-- `host-usb:` and `host-local:` are forwarded like a request about no device. -/
  | usb (cmd : Str) : Escapes list ("host-usb:".toList ++ cmd)
  | local (cmd : Str) : Escapes list ("host-local:".toList ++ cmd)
  /-- So is a transport id before the command, -/
  | transportIdPrefix {rest n cmd : Str} {id : Nat} : cutColon rest = some (n, cmd) →
      srv.transportId n = some id → Escapes list ("host-transport-id:".toList ++ rest)
  /-- and one that is selected; it counts as a request about the server. -/
  | transportId {n : Str} {id : Nat} : srv.transportId n = some id →
      Escapes list ("host:transport-id:".toList ++ n)
  /-- A command that needs a device and that `decide` takes for one about the server, or cannot
  scope because the list is not one device. -/
  | bare {cmd : Str} {kind : Kind} : IsBare (trimEndMatches nul cmd) →
      stripPrefix "transport-id:".toList cmd = none → srv.deviceKind cmd = some kind →
      (isServerScoped (trimEndMatches nul cmd) = true ∨ (Targets.only list).onlyOne = none) →
      Escapes list ("host:".toList ++ cmd)
  /-- A serial that starts with a shared one and a colon. -/
  | serial {rest serial shared cmd : Str} :
      matchingSerial (trimEndMatches nul rest) (.only list) = some shared →
      srv.cutSerial rest = some (serial, cmd) → nul ∉ serial → serial ∉ list →
      Escapes list ("host-serial:".toList ++ rest)
  /-- A command that the server takes in part for the serial written before it. -/
  | misread {cmd serial : Str} : list = [serial] → IsBare (trimEndMatches nul cmd) →
      isServerScoped (trimEndMatches nul cmd) = false →
      (∀ cmd', srv.cutSerial (serial ++ [':'] ++ trimEndMatches nul cmd) ≠ some (serial, cmd')) →
      Escapes list ("host:".toList ++ cmd)
  /-- A shared serial that ends like a padded request. -/
  | padded {request serial : Str} : list = [serial] →
      isUnqualified (trimEndMatches nul request) = true → trimEndMatches nul serial ≠ serial →
      Escapes list request

/-! ## Devices outside a list -/

/-- A serial that the list does not contain. -/
def freshSerial (list : List Str) : Str := List.replicate (list.flatten.length + 1) 'x'

theorem freshSerial_not_mem (list : List Str) : freshSerial list ∉ list := by
  intro h
  have hle : (freshSerial list).length ≤ list.flatten.length :=
    (List.sublist_flatten_of_mem h).length_le
  rw [freshSerial, List.length_replicate] at hle
  omega

theorem nul_not_mem_freshSerial (list : List Str) : nul ∉ freshSerial list := by
  intro h
  exact absurd (List.eq_of_mem_replicate h) (by decide)

/-- A device outside the list, of the id and kind asked for. -/
def strayDevice (list : List Str) (id : Nat) (usb : Bool) : Transport :=
  ⟨freshSerial list, id, usb, nul_not_mem_freshSerial list⟩

/-- An address that does not name a serial reaches a device outside the list. -/
theorem exists_stray (list : List Str) {addr : Address} (h : ∀ s, addr ≠ .serial s) :
    ∃ attached d, Resolves attached addr d ∧ d.serial ∉ list := by
  cases addr with
  | serial s => exact absurd rfl (h s)
  | transportId n =>
      exact ⟨[strayDevice list n true], strayDevice list n true, ⟨by simp, rfl⟩,
        freshSerial_not_mem list⟩
  | kind k =>
      cases k with
      | any =>
          exact ⟨[strayDevice list 0 true], strayDevice list 0 true, rfl, freshSerial_not_mem list⟩
      | usb =>
          exact ⟨[strayDevice list 0 true], strayDevice list 0 true, rfl, freshSerial_not_mem list⟩
      | «local» =>
          exact ⟨[strayDevice list 0 false], strayDevice list 0 false, rfl,
            freshSerial_not_mem list⟩

/-! ## Forwarded requests -/

section Forward

variable {srv} {list : List Str} {request : Str}

/-- **A forwarded request that does not escape resolves within the list.** The cases are those of
the server's own reading of the request. -/
theorem scope_of_forward (hesc : ¬ Escapes srv list request)
    (hdec : decide request (.only list) = .forward) {attached : List Transport} {addr : Address}
    {d : Transport} (haddr : srv.addressOf request = some addr) (hres : Resolves attached addr d) :
    d.serial ∈ list := by
  rw [HostServer.addressOf, Option.bind_eq_some_iff] at haddr
  obtain ⟨h, hparse, haddr⟩ := haddr
  rcases srv.parse_eq_some hparse with ⟨hreq, hbare⟩ | hp
  · generalize h.command = cmd at hreq hbare
    subst hreq
    rw [haddr, HostServer.bareAddress] at hbare
    cases hnamed : namedSerial cmd with
    | some serial =>
        -- the serial compared is without padding, and so is a device's
        simp only [hnamed, Option.some.injEq] at hbare
        subst hbare
        obtain ⟨hmem, hserial⟩ := hres
        have hpad : trimEndMatches nul serial = serial := by
          rw [trimEndMatches_eq_self_iff]
          intro hne hlast
          apply d.nul_not_mem
          rw [hserial, ← hlast]
          exact List.getLast_mem hne
        have htrim : namedSerial (trimEndMatches nul cmd) = some serial := by
          rw [namedSerial_trimEndMatches, hnamed, Option.map_some, hpad]
        rw [decide_named (.only list) htrim (trimEndMatches_host cmd)] at hdec
        rw [hserial, ← Targets.allows_only]
        by_contra hall
        simp [hall] at hdec
    | none =>
        cases hid : stripPrefix "transport-id:".toList cmd with
        | some n =>
            simp only [hnamed, hid] at hbare
            rw [eq_comm, Option.map_eq_some_iff] at hbare
            obtain ⟨id, hn, -⟩ := hbare
            rw [stripPrefix_eq_some_iff.1 hid] at hesc
            exact absurd (.transportId hn) hesc
        | none =>
            simp only [hnamed, hid] at hbare
            rw [eq_comm, Option.map_eq_some_iff] at hbare
            obtain ⟨kind, hkind, -⟩ := hbare
            rcases forward_host hdec with ⟨serial, hs, -⟩ | ⟨hcmd, hwhy⟩ | ⟨hall, -⟩
            · rw [namedSerial_trimEndMatches, hnamed] at hs
              exact absurd hs (by simp)
            · exact absurd (.bare hcmd hid hkind hwhy) hesc
            · exact absurd hall (by simp)
  · have hother : (∀ s, h.address ≠ some (.serial s)) → Escapes srv list request := by
      intro hne
      cases hp with
      | serial hcut => exact absurd rfl (hne _)
      | usb cmd => exact .usb cmd
      | «local» cmd => exact .local cmd
      | transportId hcut hid => exact .transportIdPrefix hcut hid
    cases hp with
    | @serial rest s cmd hcut =>
        simp only [Option.some.injEq] at haddr
        subst haddr
        obtain ⟨hmem, rfl⟩ := hres
        rw [decide_hostSerial (.only list) (trimEndMatches_hostSerial rest)] at hdec
        cases hm : matchingSerial (trimEndMatches nul rest) (.only list) with
        | none => simp [hm] at hdec
        | some shared =>
            by_contra hout
            exact hesc (.serial hm hcut d.nul_not_mem hout)
    | usb cmd => exact absurd (hother (by simp)) hesc
    | «local» cmd => exact absurd (hother (by simp)) hesc
    | transportId hcut hid => exact absurd (hother (by simp)) hesc

end Forward

/-! ## Rewritten requests -/

section Rewrite

variable {srv} {list : List Str} {request : Str}

/-- **A rewrite of a request that does not escape names the shared device**, and the policy agrees
with it. -/
theorem scope_of_rewrite (hesc : ¬ Escapes srv list request) {r : Str}
    (hdec : decide request (.only list) = .rewrite r) :
    (∃ serial ∈ list, srv.addressOf r = some (.serial serial)) ∧
      decide r (.only list) = .forward := by
  obtain ⟨serial, hone, hcase⟩ := rewrite_cases hdec
  obtain rfl : list = [serial] := Targets.onlyOne_only_eq_some.1 hone
  rcases hcase with ⟨hun, cmd, hnamed, rfl⟩ | ⟨cmd, hreq, hbare, hscoped, rfl⟩
  · have hpad : trimEndMatches nul serial = serial := by
      by_contra hpad
      exact hesc (.padded rfl hun hpad)
    refine ⟨⟨serial, by simp, ?_⟩, ?_⟩
    · rw [HostServer.addressOf, HostServer.parse_host]
      simp [HostServer.bareAddress, hnamed]
    · have htrim : namedSerial (trimEndMatches nul cmd) = some serial := by
        rw [namedSerial_trimEndMatches, hnamed, Option.map_some, hpad]
      rw [decide_named _ htrim (trimEndMatches_host cmd), if_pos (by simp [Targets.allows])]
  · -- the request is `host:` and the command, with the padding that `decide` has taken off
    obtain ⟨cmd', rfl, rfl⟩ := eq_host_of_trimEndMatches hreq
    obtain ⟨cmd'', hcut⟩ : ∃ cmd'', srv.cutSerial (serial ++ [':'] ++ trimEndMatches nul cmd') =
        some (serial, cmd'') := by
      by_contra hcut
      exact hesc (.misread rfl hbare hscoped fun cmd'' h => hcut ⟨cmd'', h⟩)
    simp only [List.append_assoc] at hcut ⊢
    refine ⟨⟨serial, by simp, ?_⟩, ?_⟩
    · rw [HostServer.addressOf, HostServer.parse_hostSerial, hcut]
      rfl
    · rw [decide_hostSerial _ (trimEndMatches_hostSerial _)]
      have hcolon : trimEndMatches nul (serial ++ [':']) = serial ++ [':'] := by
        rw [trimEndMatches_eq_self_iff]
        intro _
        rw [List.getLast_append_singleton]
        decide
      have hmatch : matchingSerial (trimEndMatches nul (serial ++ ([':'] ++ trimEndMatches nul cmd')))
          (.only [serial]) = some serial := by
        rw [← List.append_assoc, trimEndMatches_append hcolon, List.append_assoc]
        simp only [matchingSerial, List.find?_cons, stripPrefix_append, startsWith_append]
      rw [hmatch]

end Rewrite

/-! ## Requests that escape -/

section Escape

variable {srv} {list : List Str} {request : Str}

theorem not_keepsScope_of_forward (addr : Address)
    (hdec : decide request (.only list) = .forward) (haddr : srv.addressOf request = some addr)
    (hne : ∀ s, addr ≠ .serial s) : ¬ KeepsScope srv list request := by
  intro hkeeps
  rw [KeepsScope, hdec] at hkeeps
  obtain ⟨attached, d, hres, hout⟩ := exists_stray list hne
  exact hout (hkeeps attached addr d haddr hres)

theorem not_keepsScope_of_prefixed {h : HostRequest} (hp : srv.Prefixed request h)
    {addr : Address} (haddr : h.address = some addr) (hne : ∀ s, addr ≠ .serial s) :
    ¬ KeepsScope srv list request := by
  refine not_keepsScope_of_forward addr (srv.decide_of_prefixed hp ?_ _) ?_ hne
  · intro s hs
    rw [haddr, Option.some.injEq] at hs
    exact hne s hs
  · rw [HostServer.addressOf, srv.parse_of_prefixed hp]
    exact haddr

theorem isBare_transportId (n : Str) : IsBare ("transport-id:".toList ++ n) where
  notMutating := by simp [isMutating, startsWith, stripPrefix, List.isPrefixOf?]
  notInventory := by simp [isInventory]
  notNamed := by simp [namedSerial, stripPrefix, List.isPrefixOf?]
  notUnqualified := by simp [isUnqualified]

/-- **Every request of `Escapes` does escape.** -/
theorem not_keepsScope_of_escapes (hesc : Escapes srv list request) :
    ¬ KeepsScope srv list request := by
  cases hesc with
  | usb cmd => exact not_keepsScope_of_prefixed (.usb cmd) rfl (by simp)
  | «local» cmd => exact not_keepsScope_of_prefixed (.local cmd) rfl (by simp)
  | transportIdPrefix hcut hid =>
      exact not_keepsScope_of_prefixed (.transportId hcut hid) rfl (by simp)
  | @transportId n id hid =>
      have hreq : trimEndMatches nul ("host:transport-id:".toList ++ n) =
          "host:".toList ++ ("transport-id:".toList ++ trimEndMatches nul n) :=
        trimEndMatches_append (by decide) n
      refine not_keepsScope_of_forward (.transportId id) ?_ ?_ (by simp)
      · rw [decide_bare _ (isBare_transportId _) hreq, if_pos]
        simp [isServerScoped, startsWith, stripPrefix, List.isPrefixOf?]
      · have hparse := srv.parse_host ("transport-id:".toList ++ n)
        rw [← List.append_assoc] at hparse
        rw [HostServer.addressOf]
        refine (congrArg (Option.bind · HostRequest.address) hparse).trans ?_
        simp [HostServer.bareAddress, namedSerial, stripPrefix, List.isPrefixOf?, hid]
  | @bare cmd kind hbare hid hkind hwhy =>
      refine not_keepsScope_of_forward (.kind kind) ?_ ?_ (by simp)
      · rw [decide_bare _ hbare (trimEndMatches_host cmd)]
        rcases hwhy with hscoped | hone
        · rw [if_pos hscoped]
        · rw [hone]
          simp
      · have hnamed : namedSerial cmd = none := by
          have h := hbare.notNamed
          rwa [namedSerial_trimEndMatches, Option.map_eq_none_iff] at h
        rw [HostServer.addressOf, HostServer.parse_host]
        simp only [HostServer.bareAddress, hnamed, hid, hkind, Option.bind_some, Option.map_some]
  | @serial rest serial shared cmd hm hcut hnul hout =>
      intro hkeeps
      rw [KeepsScope, decide_hostSerial _ (trimEndMatches_hostSerial rest), hm] at hkeeps
      apply hout
      refine hkeeps [⟨serial, 0, true, hnul⟩] (.serial serial) ⟨serial, 0, true, hnul⟩ ?_ ?_
      · rw [HostServer.addressOf, HostServer.parse_hostSerial, hcut]
        rfl
      · exact ⟨by simp, rfl⟩
  | @misread cmd serial hlist hbare hscoped hcut =>
      subst hlist
      intro hkeeps
      rw [KeepsScope, decide_bare _ hbare (trimEndMatches_host cmd), hscoped] at hkeeps
      obtain ⟨⟨serial', hmem, haddr⟩, -⟩ := hkeeps
      obtain rfl : serial' = serial := by simpa using hmem
      simp only [List.append_assoc] at haddr hcut
      rw [HostServer.addressOf, HostServer.parse_hostSerial] at haddr
      simp only [Option.bind_eq_some_iff, Option.map_eq_some_iff, Prod.exists] at haddr
      obtain ⟨h, ⟨s, cmd', hs, rfl⟩, haddr⟩ := haddr
      simp only [Option.some.injEq, Address.serial.injEq] at haddr
      exact hcut cmd' (haddr ▸ hs)
  | @padded _ serial hlist hun hpad =>
      subst hlist
      intro hkeeps
      obtain ⟨cmd, hreq⟩ : ∃ cmd, trimEndMatches nul request = "host:".toList ++ cmd := by
        simp only [isUnqualified, Bool.or_eq_true, beq_iff_eq] at hun
        rcases hun with ((((h | h) | h) | h) | h) | h <;> exact ⟨_, h⟩
      rw [hreq] at hun
      have hdec := decide_unqualified hun hreq [serial]
      obtain ⟨cmd', hnamed, hdec⟩ := hdec
      rw [KeepsScope, hdec] at hkeeps
      have htrim : namedSerial (trimEndMatches nul cmd') = some (trimEndMatches nul serial) := by
        rw [namedSerial_trimEndMatches, hnamed, Option.map_some]
      have hforward := hkeeps.2
      rw [decide_named _ htrim (trimEndMatches_host cmd')] at hforward
      have hall : Targets.allows (.only [serial]) (trimEndMatches nul serial) = true := by
        by_contra hall
        simp [hall] at hforward
      rw [Targets.allows_only, List.mem_singleton] at hall
      exact hpad hall

end Escape

/-- **A share keeps its scope exactly on the requests that do not escape.** -/
theorem keepsScope_iff (list : List Str) (request : Str) :
    KeepsScope srv list request ↔ ¬ Escapes srv list request := by
  constructor
  · intro hkeeps hesc
    exact not_keepsScope_of_escapes hesc hkeeps
  · intro hesc
    rw [KeepsScope]
    cases hdec : decide request (.only list) with
    | forward => exact fun _ _ _ haddr hres => scope_of_forward hesc hdec haddr hres
    | rewrite r => exact scope_of_rewrite hesc hdec
    | filterList streaming => trivial
    | reject reason => trivial

/-- A transport id reaches a device that is not shared. -/
theorem not_keepsScope_transportId :
    ¬ KeepsScope adbServer ["A".toList] "host:transport-id:7".toList := by
  intro hkeeps
  have hforward : decide "host:transport-id:7".toList (.only ["A".toList]) = .forward := by decide
  have haddr : adbServer.addressOf "host:transport-id:7".toList = some (.transportId 7) := by decide
  rw [KeepsScope, hforward] at hkeeps
  have hB : "B".toList ∈ ["A".toList] :=
    hkeeps [⟨"B".toList, 7, true, by decide⟩] (.transportId 7) ⟨"B".toList, 7, true, by decide⟩
      haddr ⟨List.mem_singleton.2 rfl, rfl⟩
  exact absurd hB (by decide)

end DialF.Share
