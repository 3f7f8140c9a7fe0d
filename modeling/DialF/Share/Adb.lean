import DialF.Lib.Frame

/-!
# The sharing policy of a device share

`Targets` says which devices a share exposes and `decide` settles the fate of a connection from its
first request.

`decide` is an ordered list of tests on the request, its padding taken off. A request has one of
seven shapes (`shape`), and on each of them `decide` is one equation (`decide_mutating` …
`decide_other`); the results on the scope of a share and on refused services go by these shapes and
never unfold `decide`.
-/

set_option autoImplicit false

namespace DialF.Share

open DialF.Lib

/-- Which devices a share exposes. -/
inductive Targets where
  | all
  | only (list : List Str)
  deriving DecidableEq

namespace Targets

/-- `Targets::allows`. -/
def allows : Targets → Str → Bool
  | .all, _ => true
  | .only list, serial => list.any (· == serial)

/-- The single device to resolve an unqualified request to, when that is unambiguous. -/
def onlyOne : Targets → Option Str
  | .only [serial] => some serial
  | _ => none

/-- `Targets::describe`. -/
def describe : Targets → Str
  | .all => "all attached devices".toList
  | .only list => (List.intersperse ", ".toList list).flatten

@[simp] theorem allows_all (serial : Str) : allows .all serial = true := rfl

theorem allows_only {list : List Str} {serial : Str} :
    allows (.only list) serial = true ↔ serial ∈ list := by
  simp [allows]

@[simp] theorem onlyOne_all : onlyOne .all = none := rfl

theorem onlyOne_only_eq_some {list : List Str} {serial : Str} :
    onlyOne (.only list) = some serial ↔ list = [serial] := by
  cases list with
  | nil => simp [onlyOne]
  | cons s rest =>
      cases rest with
      | nil => simp [onlyOne]
      | cons t rest => simp [onlyOne]

end Targets

/-- What to do with a connection, decided from its first request. -/
inductive Decision where
  | forward
  | rewrite (replacement : Str)
  | filterList (streaming : Bool)
  | reject (reason : Str)
  deriving DecidableEq

/-- Whether a bare `host:<cmd>` asks about the server rather than a device. -/
def isServerScoped (cmd : Str) : Bool :=
  cmd == "version".toList || cmd == "kill".toList || cmd == "devices".toList ||
    cmd == "devices-l".toList || cmd == "track-devices".toList || cmd == "track-devices-l".toList ||
    cmd == "host-features".toList || cmd == "server-status".toList || cmd == "reconnect".toList ||
    cmd == "reconnect-offline".toList || startsWith "emulator:".toList cmd ||
    startsWith "connect:".toList cmd || startsWith "disconnect".toList cmd ||
    startsWith "transport".toList cmd || startsWith "tport".toList cmd

/-- The text that refuses a device. -/
def notShared (serial : Str) (targets : Targets) : Str :=
  "device `".toList ++ serial ++ "` is not shared by this host (sharing: ".toList ++
    targets.describe ++ ")".toList

/-- The shared serial that `rest`, of the form `<serial>:<command>`, addresses, if any. With
everything shared the serial is not needed and left empty. -/
def matchingSerial (rest : Str) : Targets → Option Str
  | .all => some []
  | .only list =>
      list.find? fun s =>
        match stripPrefix s rest with
        | some r => startsWith [':'] r
        | none => false

/-- The padding that a request may carry at its end. -/
abbrev nul : Char := '\x00'

/-- The requests that select a device without naming one. -/
def isUnqualified (req : Str) : Bool :=
  req == "host:transport-any".toList || req == "host:transport-usb".toList ||
    req == "host:transport-local".toList || req == "host:tport:any".toList ||
    req == "host:tport:usb".toList || req == "host:tport:local".toList

/-- Decide a connection's fate from its first request. -/
def decide (request : Str) (targets : Targets) : Decision :=
  let req := trimEndMatches nul request
  if req == "host:kill".toList then
    .reject ("host:kill is blocked by dialf device sharing (it would stop the host's adb " ++
      "server)").toList
  else if startsWith "host:connect:".toList req || startsWith "host:disconnect".toList req then
    .reject "attaching/detaching devices on the host is blocked by dialf device sharing".toList
  else if req == "host:devices".toList || req == "host:devices-l".toList then
    .filterList false
  else if req == "host:track-devices".toList || req == "host:track-devices-l".toList then
    .filterList true
  else
    match (stripPrefix "host:transport:".toList req).or
        (stripPrefix "host:tport:serial:".toList req) with
    | some serial =>
        if targets.allows serial then .forward else .reject (notShared serial targets)
    | none =>
        match stripPrefix "host-serial:".toList req with
        | some rest =>
            match matchingSerial rest targets with
            | some _ => .forward
            | none =>
                .reject ("`".toList ++ rest ++ "` is not a shared device (sharing: ".toList ++
                  targets.describe ++ ")".toList)
        | none =>
            if isUnqualified req then
              match targets with
              | .all => .forward
              | .only list =>
                  match (Targets.only list).onlyOne with
                  | some serial =>
                      -- the `tport` form asks for the transport id as well, so it stays one
                      if startsWith "host:tport:".toList req then
                        .rewrite ("host:tport:serial:".toList ++ serial)
                      else .rewrite ("host:transport:".toList ++ serial)
                  | none =>
                      .reject ("several devices are shared (".toList ++
                        (Targets.only list).describe ++
                        ") — pick one with `adb -s <serial>`".toList)
            else
              match stripPrefix "host:".toList req with
              | some rest =>
                  if isServerScoped rest then .forward
                  else
                    match targets.onlyOne with
                    | some serial =>
                        .rewrite ("host-serial:".toList ++ serial ++ [':'] ++ rest)
                    | none => .forward
              | none => .forward

/-! ## The shapes of a request

Every request has one of seven shapes, and `decide` is one equation on each of them. -/

/-- A `host:<cmd>` that stops the server or changes what is attached to it. -/
def isMutating (cmd : Str) : Bool :=
  cmd == "kill".toList || startsWith "connect:".toList cmd || startsWith "disconnect".toList cmd

/-- A `host:<cmd>` that asks for the device list. -/
def isInventory (cmd : Str) : Bool :=
  cmd == "devices".toList || cmd == "devices-l".toList || cmd == "track-devices".toList ||
    cmd == "track-devices-l".toList

/-- The serial that a `host:<cmd>` names. -/
def namedSerial (cmd : Str) : Option Str :=
  (stripPrefix "transport:".toList cmd).or (stripPrefix "tport:serial:".toList cmd)

/-- A `host:<cmd>` that none of the earlier rules of `decide` takes. -/
structure IsBare (cmd : Str) : Prop where
  notMutating : isMutating cmd = false
  notInventory : isInventory cmd = false
  notNamed : namedSerial cmd = none
  notUnqualified : isUnqualified ("host:".toList ++ cmd) = false

/-- The shape of a request, its padding taken off. -/
inductive Shape : Str → Prop where
  | mutating {cmd : Str} : isMutating cmd = true → Shape ("host:".toList ++ cmd)
  | inventory {cmd : Str} : isInventory cmd = true → Shape ("host:".toList ++ cmd)
  | named {cmd serial : Str} : namedSerial cmd = some serial → Shape ("host:".toList ++ cmd)
  | unqualified {cmd : Str} : isUnqualified ("host:".toList ++ cmd) = true →
      Shape ("host:".toList ++ cmd)
  | bare {cmd : Str} : IsBare cmd → Shape ("host:".toList ++ cmd)
  | hostSerial (rest : Str) : Shape ("host-serial:".toList ++ rest)
  | other {req : Str} : stripPrefix "host:".toList req = none →
      stripPrefix "host-serial:".toList req = none → Shape req

theorem shape (req : Str) : Shape req := by
  cases hhost : stripPrefix "host:".toList req with
  | none =>
      cases hserial : stripPrefix "host-serial:".toList req with
      | none => exact .other hhost hserial
      | some rest =>
          rw [stripPrefix_eq_some_iff.1 hserial]
          exact .hostSerial rest
  | some cmd =>
      rw [stripPrefix_eq_some_iff.1 hhost]
      by_cases h1 : isMutating cmd = true
      · exact .mutating h1
      by_cases h2 : isInventory cmd = true
      · exact .inventory h2
      cases h3 : namedSerial cmd with
      | some serial => exact .named h3
      | none =>
          by_cases h4 : isUnqualified ("host:".toList ++ cmd) = true
          · exact .unqualified h4
          · rw [Bool.not_eq_true] at h1 h2 h4
            exact .bare ⟨h1, h2, h3, h4⟩

theorem namedSerial_eq_some_iff {cmd serial : Str} :
    namedSerial cmd = some serial ↔
      cmd = "transport:".toList ++ serial ∨ cmd = "tport:serial:".toList ++ serial := by
  rw [namedSerial, Option.or_eq_some_iff, stripPrefix_eq_some_iff, stripPrefix_eq_some_iff]
  constructor
  · rintro (h | ⟨-, h⟩)
    · exact Or.inl h
    · exact Or.inr h
  · rintro (h | h)
    · exact Or.inl h
    · refine Or.inr ⟨?_, h⟩
      rw [h, stripPrefix_eq_none_iff]
      intro r
      simp

section Equations

attribute [local simp] decide isUnqualified startsWith stripPrefix

variable {request : Str} (targets : Targets)

theorem decide_mutating {cmd : Str} (hcmd : isMutating cmd = true)
    (hreq : trimEndMatches nul request = "host:".toList ++ cmd) :
    ∃ reason, decide request targets = .reject reason := by
  simp only [isMutating, Bool.or_eq_true, beq_iff_eq, startsWith_iff] at hcmd
  simp only [decide, hreq]
  rcases hcmd with (rfl | ⟨r, rfl⟩) | ⟨r, rfl⟩
  · exact ⟨_, rfl⟩
  · refine ⟨_, (if_neg ?_).trans (if_pos ?_)⟩
    · simp
    · simp [startsWith, stripPrefix]
  · refine ⟨_, (if_neg ?_).trans (if_pos ?_)⟩
    · simp
    · simp [startsWith, stripPrefix]

theorem decide_inventory {cmd : Str} (hcmd : isInventory cmd = true)
    (hreq : trimEndMatches nul request = "host:".toList ++ cmd) :
    ∃ streaming, decide request targets = .filterList streaming := by
  simp only [isInventory, Bool.or_eq_true, beq_iff_eq] at hcmd
  rcases hcmd with ((rfl | rfl) | rfl) | rfl
  · exact ⟨false, by simp [decide, hreq, startsWith, stripPrefix]⟩
  · exact ⟨false, by simp [decide, hreq, startsWith, stripPrefix]⟩
  · exact ⟨true, by simp [decide, hreq, startsWith, stripPrefix]⟩
  · exact ⟨true, by simp [decide, hreq, startsWith, stripPrefix]⟩

theorem decide_named {cmd serial : Str} (hcmd : namedSerial cmd = some serial)
    (hreq : trimEndMatches nul request = "host:".toList ++ cmd) :
    decide request targets =
      if targets.allows serial then .forward else .reject (notShared serial targets) := by
  rcases namedSerial_eq_some_iff.1 hcmd with rfl | rfl
  · simp [decide, hreq, startsWith, stripPrefix, List.isPrefixOf?]
  · simp [decide, hreq, startsWith, stripPrefix, List.isPrefixOf?]

theorem decide_hostSerial {rest : Str}
    (hreq : trimEndMatches nul request = "host-serial:".toList ++ rest) :
    decide request targets =
      match matchingSerial rest targets with
      | some _ => .forward
      | none =>
          .reject ("`".toList ++ rest ++ "` is not a shared device (sharing: ".toList ++
            targets.describe ++ ")".toList) := by
  simp [decide, hreq, startsWith, stripPrefix, List.isPrefixOf?]

/-- A request that selects a device without naming one is rewritten to name the one shared
device, and refused where there is not one. -/
theorem decide_unqualified {cmd : Str} (hcmd : isUnqualified ("host:".toList ++ cmd) = true)
    (hreq : trimEndMatches nul request = "host:".toList ++ cmd) (list : List Str) :
    match (Targets.only list).onlyOne with
    | some serial =>
        ∃ cmd', namedSerial cmd' = some serial ∧
          decide request (.only list) = .rewrite ("host:".toList ++ cmd')
    | none => ∃ reason, decide request (.only list) = .reject reason := by
  simp only [isUnqualified, Bool.or_eq_true, beq_iff_eq] at hcmd
  rw [← hreq] at hcmd
  cases hone : (Targets.only list).onlyOne with
  | none =>
      refine ⟨"several devices are shared (".toList ++ (Targets.only list).describe ++
        ") — pick one with `adb -s <serial>`".toList, ?_⟩
      rcases hcmd with ((((h | h) | h) | h) | h) | h <;>
        simp [decide, h, hone, startsWith, stripPrefix, List.isPrefixOf?, isUnqualified]
  | some serial =>
      have htransport := namedSerial_eq_some_iff.2 (Or.inl (rfl : _ = "transport:".toList ++ serial))
      have htport := namedSerial_eq_some_iff.2 (Or.inr (rfl : _ = "tport:serial:".toList ++ serial))
      rcases hcmd with ((((h | h) | h) | h) | h) | h
      · exact ⟨_, htransport, by simp [decide, h, hone, startsWith, stripPrefix, List.isPrefixOf?,
          isUnqualified]⟩
      · exact ⟨_, htransport, by simp [decide, h, hone, startsWith, stripPrefix, List.isPrefixOf?,
          isUnqualified]⟩
      · exact ⟨_, htransport, by simp [decide, h, hone, startsWith, stripPrefix, List.isPrefixOf?,
          isUnqualified]⟩
      -- the `tport` forms keep asking for the transport id
      · exact ⟨_, htport, by simp [decide, h, hone, startsWith, stripPrefix, List.isPrefixOf?,
          isUnqualified]⟩
      · exact ⟨_, htport, by simp [decide, h, hone, startsWith, stripPrefix, List.isPrefixOf?,
          isUnqualified]⟩
      · exact ⟨_, htport, by simp [decide, h, hone, startsWith, stripPrefix, List.isPrefixOf?,
          isUnqualified]⟩

theorem decide_unqualified_all {cmd : Str} (hcmd : isUnqualified ("host:".toList ++ cmd) = true)
    (hreq : trimEndMatches nul request = "host:".toList ++ cmd) :
    decide request .all = .forward := by
  simp only [isUnqualified, Bool.or_eq_true, beq_iff_eq] at hcmd
  rw [← hreq] at hcmd
  rcases hcmd with ((((h | h) | h) | h) | h) | h <;>
    simp [decide, h, startsWith, stripPrefix, List.isPrefixOf?, isUnqualified]

theorem decide_bare {cmd : Str} (hcmd : IsBare cmd)
    (hreq : trimEndMatches nul request = "host:".toList ++ cmd) :
    decide request targets =
      if isServerScoped cmd then .forward
      else
        match targets.onlyOne with
        | some serial => .rewrite ("host-serial:".toList ++ serial ++ [':'] ++ cmd)
        | none => .forward := by
  obtain ⟨h1, h2, h3, h4⟩ := hcmd
  simp [isMutating, startsWith, stripPrefix] at h1
  simp [isInventory] at h2
  simp [namedSerial, stripPrefix] at h3
  simp [isUnqualified] at h4
  simp [decide, hreq, startsWith, stripPrefix, List.isPrefixOf?, isUnqualified, h1, h2, h3, h4]

theorem decide_other (hhost : stripPrefix "host:".toList (trimEndMatches nul request) = none)
    (hserial : stripPrefix "host-serial:".toList (trimEndMatches nul request) = none) :
    decide request targets = .forward := by
  unfold decide
  generalize trimEndMatches nul request = req at hhost hserial ⊢
  have hne : ∀ r, req ≠ "host:".toList ++ r := stripPrefix_eq_none_iff.1 hhost
  have hlit : ∀ {lit cmd : Str}, lit = "host:".toList ++ cmd → (req == lit) = false := by
    rintro _ cmd rfl
    rw [beq_eq_false_iff_ne]
    exact hne cmd
  have hstrip : ∀ {p cmd : Str}, p = "host:".toList ++ cmd → stripPrefix p req = none := by
    rintro _ cmd rfl
    rw [stripPrefix_eq_none_iff]
    intro r hr
    exact hne (cmd ++ r) (by rw [hr, List.append_assoc])
  have hstart : ∀ {p cmd : Str}, p = "host:".toList ++ cmd → startsWith p req = false := by
    intro p cmd hp
    rw [startsWith, hstrip hp]
    rfl
  -- every test of the body is on a literal that starts with `host:`
  simp only [hlit (rfl : "host:kill".toList = "host:".toList ++ "kill".toList),
    hstart (rfl : "host:connect:".toList = "host:".toList ++ "connect:".toList),
    hstart (rfl : "host:disconnect".toList = "host:".toList ++ "disconnect".toList),
    hlit (rfl : "host:devices".toList = "host:".toList ++ "devices".toList),
    hlit (rfl : "host:devices-l".toList = "host:".toList ++ "devices-l".toList),
    hlit (rfl : "host:track-devices".toList = "host:".toList ++ "track-devices".toList),
    hlit (rfl : "host:track-devices-l".toList = "host:".toList ++ "track-devices-l".toList),
    hstrip (rfl : "host:transport:".toList = "host:".toList ++ "transport:".toList),
    hstrip (rfl : "host:tport:serial:".toList = "host:".toList ++ "tport:serial:".toList),
    isUnqualified,
    hlit (rfl : "host:transport-any".toList = "host:".toList ++ "transport-any".toList),
    hlit (rfl : "host:transport-usb".toList = "host:".toList ++ "transport-usb".toList),
    hlit (rfl : "host:transport-local".toList = "host:".toList ++ "transport-local".toList),
    hlit (rfl : "host:tport:any".toList = "host:".toList ++ "tport:any".toList),
    hlit (rfl : "host:tport:usb".toList = "host:".toList ++ "tport:usb".toList),
    hlit (rfl : "host:tport:local".toList = "host:".toList ++ "tport:local".toList),
    hhost, hserial, Bool.or_self, Bool.false_eq_true, if_false, Option.or_none]

end Equations

/-! ## What a verdict says about the request -/

@[simp] theorem trimEndMatches_host (cmd : Str) :
    trimEndMatches nul ("host:".toList ++ cmd) = "host:".toList ++ trimEndMatches nul cmd :=
  trimEndMatches_append (by decide) cmd

/-- A request that reads `host:<cmd>` without its padding is `host:` and the padded command. -/
theorem eq_host_of_trimEndMatches {request cmd : Str}
    (h : trimEndMatches nul request = "host:".toList ++ cmd) :
    ∃ cmd', request = "host:".toList ++ cmd' ∧ cmd = trimEndMatches nul cmd' := by
  obtain ⟨n, hn⟩ := trimEndMatches_append_replicate nul request
  rw [h, List.append_assoc] at hn
  refine ⟨cmd ++ List.replicate n nul, hn, ?_⟩
  rw [hn, trimEndMatches_host] at h
  exact (List.append_cancel_left h).symm

@[simp] theorem trimEndMatches_hostSerial (rest : Str) :
    trimEndMatches nul ("host-serial:".toList ++ rest) =
      "host-serial:".toList ++ trimEndMatches nul rest :=
  trimEndMatches_append (by decide) rest

theorem namedSerial_trimEndMatches (cmd : Str) :
    namedSerial (trimEndMatches nul cmd) = (namedSerial cmd).map (trimEndMatches nul) := by
  rw [namedSerial, namedSerial, stripPrefix_trimEndMatches (by decide),
    stripPrefix_trimEndMatches (by decide)]
  cases stripPrefix "transport:".toList cmd <;> rfl

/-- A `host:<cmd>` is forwarded where it names a shared serial, where it asks about the server, or
where the policy has no one device to scope it to. -/
theorem forward_host {cmd : Str} {targets : Targets}
    (h : decide ("host:".toList ++ cmd) targets = .forward) :
    (∃ serial, namedSerial (trimEndMatches nul cmd) = some serial ∧ targets.allows serial = true) ∨
      (IsBare (trimEndMatches nul cmd) ∧
        (isServerScoped (trimEndMatches nul cmd) = true ∨ targets.onlyOne = none)) ∨
      (targets = .all ∧ isUnqualified ("host:".toList ++ trimEndMatches nul cmd) = true) := by
  have htrim := trimEndMatches_host cmd
  have hshape := shape ("host:".toList ++ trimEndMatches nul cmd)
  generalize hreq : "host:".toList ++ trimEndMatches nul cmd = req at hshape
  cases hshape with
  | mutating hcmd =>
      rw [List.append_cancel_left hreq] at htrim
      obtain ⟨reason, hr⟩ := decide_mutating targets hcmd htrim
      rw [hr] at h
      exact absurd h (by simp)
  | inventory hcmd =>
      rw [List.append_cancel_left hreq] at htrim
      obtain ⟨streaming, hr⟩ := decide_inventory targets hcmd htrim
      rw [hr] at h
      exact absurd h (by simp)
  | @named cmd' serial hcmd =>
      rw [List.append_cancel_left hreq] at htrim ⊢
      rw [decide_named targets hcmd htrim] at h
      refine Or.inl ⟨serial, hcmd, ?_⟩
      by_contra hall
      simp [hall] at h
  | unqualified hcmd =>
      rw [List.append_cancel_left hreq] at htrim
      refine Or.inr (Or.inr ⟨?_, hcmd⟩)
      cases targets with
      | all => rfl
      | only list =>
          have hun := decide_unqualified hcmd htrim list
          rw [h] at hun
          cases hone : (Targets.only list).onlyOne <;> simp [hone] at hun
  | @bare cmd' hcmd =>
      rw [List.append_cancel_left hreq] at htrim ⊢
      rw [decide_bare targets hcmd htrim] at h
      refine Or.inr (Or.inl ⟨hcmd, ?_⟩)
      by_cases hscoped : isServerScoped cmd' = true
      · exact Or.inl hscoped
      · rw [if_neg hscoped] at h
        refine Or.inr ?_
        cases hone : targets.onlyOne with
        | none => rfl
        | some serial => simp [hone] at h
  | hostSerial rest => simp at hreq
  | other hhost _ =>
      rw [← hreq, stripPrefix_append] at hhost
      exact absurd hhost (by simp)

/-- A rewrite names the one shared device: in place of a selection that names none, or before the
command of a bare request. -/
theorem rewrite_cases {request replacement : Str} {targets : Targets}
    (h : decide request targets = .rewrite replacement) :
    ∃ serial, targets.onlyOne = some serial ∧
      ((isUnqualified (trimEndMatches nul request) = true ∧
          ∃ cmd, namedSerial cmd = some serial ∧ replacement = "host:".toList ++ cmd) ∨
        ∃ cmd, trimEndMatches nul request = "host:".toList ++ cmd ∧ IsBare cmd ∧
          isServerScoped cmd = false ∧
          replacement = "host-serial:".toList ++ serial ++ [':'] ++ cmd) := by
  have hshape := shape (trimEndMatches nul request)
  generalize hreq : trimEndMatches nul request = req at hshape
  cases hshape with
  | mutating hcmd =>
      obtain ⟨reason, hr⟩ := decide_mutating targets hcmd hreq
      rw [hr] at h
      exact absurd h (by simp)
  | inventory hcmd =>
      obtain ⟨streaming, hr⟩ := decide_inventory targets hcmd hreq
      rw [hr] at h
      exact absurd h (by simp)
  | named hcmd =>
      rw [decide_named targets hcmd hreq] at h
      split at h <;> exact absurd h (by simp)
  | unqualified hcmd =>
      cases targets with
      | all =>
          rw [decide_unqualified_all hcmd hreq] at h
          exact absurd h (by simp)
      | only list =>
          have hun := decide_unqualified hcmd hreq list
          rw [h] at hun
          cases hone : (Targets.only list).onlyOne with
          | none => simp [hone] at hun
          | some serial =>
              simp only [hone, Decision.rewrite.injEq] at hun
              exact ⟨serial, rfl, Or.inl ⟨hcmd, hun⟩⟩
  | @bare cmd hcmd =>
      rw [decide_bare targets hcmd hreq] at h
      by_cases hscoped : isServerScoped cmd = true
      · simp [hscoped] at h
      · rw [if_neg hscoped] at h
        cases hone : targets.onlyOne with
        | none => simp [hone] at h
        | some serial =>
            simp only [hone, Decision.rewrite.injEq] at h
            exact ⟨serial, rfl, Or.inr ⟨cmd, rfl, hcmd, by simpa using hscoped, h.symm⟩⟩
  | hostSerial rest =>
      rw [decide_hostSerial targets hreq] at h
      split at h <;> exact absurd h (by simp)
  | other hhost hserial =>
      rw [← hreq] at hhost hserial
      rw [decide_other targets hhost hserial] at h
      exact absurd h (by simp)

/-- Only a bare request for the device list is answered by a filtered one. -/
theorem filterList_host {request : Str} {targets : Targets} {streaming : Bool}
    (h : decide request targets = .filterList streaming) :
    ∃ cmd, request = "host:".toList ++ cmd ∧ isInventory (trimEndMatches nul cmd) = true := by
  have hshape := shape (trimEndMatches nul request)
  generalize hreq : trimEndMatches nul request = req at hshape
  cases hshape with
  | mutating hcmd =>
      obtain ⟨reason, hr⟩ := decide_mutating targets hcmd hreq
      rw [hr] at h
      exact absurd h (by simp)
  | inventory hcmd =>
      obtain ⟨cmd', rfl, rfl⟩ := eq_host_of_trimEndMatches hreq
      exact ⟨cmd', rfl, hcmd⟩
  | named hcmd =>
      rw [decide_named targets hcmd hreq] at h
      split at h <;> exact absurd h (by simp)
  | unqualified hcmd =>
      cases targets with
      | all =>
          rw [decide_unqualified_all hcmd hreq] at h
          exact absurd h (by simp)
      | only list =>
          have hun := decide_unqualified hcmd hreq list
          rw [h] at hun
          cases hone : (Targets.only list).onlyOne <;> simp [hone] at hun
  | @bare cmd hcmd =>
      rw [decide_bare targets hcmd hreq] at h
      by_cases hscoped : isServerScoped cmd = true
      · simp [hscoped] at h
      · rw [if_neg hscoped] at h
        cases hone : targets.onlyOne <;> simp [hone] at h
  | hostSerial rest =>
      rw [decide_hostSerial targets hreq] at h
      split at h <;> exact absurd h (by simp)
  | other hhost hserial =>
      rw [← hreq] at hhost hserial
      rw [decide_other targets hhost hserial] at h
      exact absurd h (by simp)

end DialF.Share
