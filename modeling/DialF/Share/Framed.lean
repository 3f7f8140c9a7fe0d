import DialF.Share.Gate

/-!
# The framing of a forwarded request

`gate` reads a request, decides on it and frames it again for the upstream server. Decoding the
payload is lossy and a rewrite is longer than the request, so what is framed again need not have the
length that was read. `framed_iff` says for which messages the upstream gets exactly one well-formed
frame around what `decide` approved: those whose approved text has a length of four digits
(`ApprovedFits`). A longer one is written under five digits, since the width of `{:04x}` is a
minimum.
-/

set_option autoImplicit false

namespace DialF.Share

open DialF.Lib

/-- One adb frame: four hexadecimal digits that give the length of the payload, and the payload. -/
def IsFrame (bytes payload : Bytes) : Prop :=
  ∃ digits : Bytes, bytes = digits ++ payload ∧ digits.length = 4 ∧
    Frame.hexDigits 0 digits = some payload.length

/-- `f` is what `decide` approves for a request: the request itself or its rewrite. -/
def IsApproved (targets : Targets) (request f : Str) : Prop :=
  match decide request targets with
  | .reject _ => False
  | .rewrite replacement => f = replacement
  | .forward => f = request
  | .filterList _ => f = request

/-- **A message and its answer are framed**: whatever the upstream replies, the bytes that `gate`
writes to it before the splice are one frame around what was approved, and a payload of at most
`0xffff` bytes reads back from what `write_message` wrote. -/
structure Framed (targets : Targets) (client : Bytes) : Prop where
  oneFrame : ∀ (request : Str) (rest : Bytes) (f : Str) (reply : Bytes),
    readMessage client = some (request, rest) → IsApproved targets request f →
      ∃ frame, IsFrame frame (utf8 f) ∧
        (gate targets client reply).up =
          frame ++ if splices targets request reply then rest else []
  readsBack : ∀ (payload : Str) (rest : Bytes), (utf8 payload).length ≤ 0xffff →
    readMessage (writeMessage payload ++ rest) = some (payload, rest)

/-- What `decide` approves for a request, if anything, has at most `0xffff` bytes. -/
def ApprovedFits (targets : Targets) (request : Str) : Prop :=
  match decide request targets with
  | .reject _ => True
  | .rewrite replacement => (utf8 replacement).length ≤ 0xffff
  | .forward => (utf8 request).length ≤ 0xffff
  | .filterList _ => (utf8 request).length ≤ 0xffff

theorem isApproved_iff_forwarded {targets : Targets} {request f : Str} :
    IsApproved targets request f ↔ forwarded targets request = some f := by
  rw [IsApproved, forwarded]
  cases decide request targets with
  | reject reason => simp
  | rewrite replacement => simp [eq_comm]
  | forward => simp [eq_comm]
  | filterList streaming => simp [eq_comm]

theorem approvedFits_iff {targets : Targets} {request : Str} :
    ApprovedFits targets request ↔ ∀ f, IsApproved targets request f → (utf8 f).length ≤ 0xffff := by
  simp only [ApprovedFits, IsApproved]
  cases decide request targets with
  | reject reason => simp
  | rewrite replacement => simp
  | forward => simp
  | filterList streaming => simp

/-! ## Frames and lengths -/

/-- `write_message` writes one frame exactly where the length has four digits. -/
theorem isFrame_writeMessage_iff {payload : Str} :
    IsFrame (writeMessage payload) (utf8 payload) ↔ (utf8 payload).length ≤ 0xffff := by
  rw [writeMessage, Frame.encode]
  constructor
  · rintro ⟨digits, heq, hlen, -⟩
    by_contra hlong
    obtain ⟨pre, d, post, hhex, hpre, -⟩ := Frame.hex04_of_ge (show 65536 ≤ (utf8 payload).length by
      omega)
    have hdigits : Frame.hex04 (utf8 payload).length = digits := List.append_cancel_right heq
    -- the fifth digit does not fit
    rw [← hdigits, hhex, List.length_append, List.length_cons, hpre] at hlen
    omega
  · intro hfit
    have hlt : (utf8 payload).length < 65536 := by omega
    exact ⟨_, rfl, Frame.length_hex04 hlt, Frame.hexDigits_hex04 hlt⟩

/-- The rewrite of a bare request is longer than the request by the serial and eight bytes. -/
theorem length_hostSerial (serial cmd : Str) :
    (utf8 ("host-serial:".toList ++ serial ++ [':'] ++ cmd)).length =
      (utf8 ("host:".toList ++ cmd)).length + (utf8 serial).length + 8 := by
  have h1 : (utf8 "host-serial:".toList).length = 12 := by decide
  have h2 : (utf8 "host:".toList).length = 5 := by decide
  have h3 : (utf8 [':']).length = 1 := by decide
  simp only [utf8_append, List.length_append, h1, h2, h3]
  omega

theorem approvedFits_of_framed {targets : Targets} {client rest : Bytes} {request : Str}
    (hframed : Framed targets client) (hread : readMessage client = some (request, rest)) :
    ApprovedFits targets request := by
  rw [approvedFits_iff]
  intro f happ
  obtain ⟨frame, hframe, hup⟩ := hframed.oneFrame request rest f [] hread happ
  rw [gate_up targets [] hread, isApproved_iff_forwarded.1 happ] at hup
  have hmsg : writeMessage f = frame := List.append_cancel_right hup
  rw [← hmsg] at hframe
  exact isFrame_writeMessage_iff.1 hframe

/-- **The exact condition for a forwarded request to be framed.** -/
theorem framed_iff (targets : Targets) (client : Bytes) :
    Framed targets client ↔
      ∀ request rest, readMessage client = some (request, rest) → ApprovedFits targets request := by
  constructor
  · intro hframed request rest hread
    exact approvedFits_of_framed hframed hread
  · intro hfits
    constructor
    · intro request rest f reply hread happ
      have hlen := approvedFits_iff.1 (hfits request rest hread) f happ
      refine ⟨writeMessage f, isFrame_writeMessage_iff.2 hlen, ?_⟩
      rw [gate_up targets reply hread, isApproved_iff_forwarded.1 happ]
    · intro payload rest hlen
      apply readMessage_writeMessage
      rw [Fits]
      omega

/-! ## A request that outgrows its frame -/

section Outgrown

/-- A command that no rule of `decide` knows. -/
theorem isBare_cons_a (s : Str) : IsBare ('a' :: s) where
  notMutating := by simp [isMutating, startsWith, stripPrefix, List.isPrefixOf?]
  notInventory := by simp [isInventory]
  notNamed := by simp [namedSerial, stripPrefix, List.isPrefixOf?]
  notUnqualified := by simp [isUnqualified]

/-- A request for such a command, of `n + 6` bytes. -/
def longRequest (n : Nat) : Str := "host:".toList ++ 'a' :: List.replicate n 'a'

theorem length_longRequest (n : Nat) : (utf8 (longRequest n)).length = n + 6 := by
  have hrep : (utf8 (List.replicate n 'a')).length = n := by
    induction n with
    | zero => rfl
    | succ n ih =>
        rw [List.replicate_succ, utf8_cons, List.length_append, ih, Nat.add_comm]
        rfl
  have hhead : (utf8 "host:".toList).length = 5 := by decide
  have ha : (String.utf8EncodeChar 'a').length = 1 := by decide
  rw [longRequest, utf8_append, utf8_cons, List.length_append, List.length_append, hrep, hhead, ha]
  omega

theorem trimEndMatches_longRequest (n : Nat) :
    trimEndMatches nul (longRequest n) = longRequest n := by
  rw [longRequest, trimEndMatches_host, trimEndMatches_eq_self_iff.2]
  intro h hnul
  have hmem : nul ∈ List.replicate (n + 1) 'a' := hnul ▸ List.getLast_mem h
  exact absurd (List.eq_of_mem_replicate hmem) (by decide)

theorem decide_longRequest (n : Nat) (serial : Str) :
    decide (longRequest n) (.only [serial]) =
      .rewrite ("host-serial:".toList ++ serial ++ [':'] ++ 'a' :: List.replicate n 'a') :=
  decide_bare (.only [serial]) (isBare_cons_a (List.replicate n 'a')) (trimEndMatches_longRequest n)

/-- The rewrite for the one shared device fits as long as the serial leaves room for it. -/
theorem approvedFits_longRequest (n : Nat) (serial : Str) :
    ApprovedFits (.only [serial]) (longRequest n) ↔ n + (utf8 serial).length + 14 ≤ 0xffff := by
  have hlen := length_longRequest n
  rw [ApprovedFits, decide_longRequest]
  simp only [length_hostSerial]
  rw [← longRequest]
  omega

/-- No such request whose rewrite is too long is framed, though it is read. -/
theorem not_framed_of_serial {n : Nat} (hn : n + 6 ≤ 0xffff) {serial : Str}
    (hlong : 0xffff < n + (utf8 serial).length + 14) :
    ¬ Framed (.only [serial]) (writeMessage (longRequest n)) := by
  have hfit : Fits (longRequest n) := by
    rw [Fits, length_longRequest]
    omega
  have hread : readMessage (writeMessage (longRequest n)) = some (longRequest n, []) := by
    have h := readMessage_writeMessage hfit []
    rwa [List.append_nil] at h
  intro hframed
  have happ := approvedFits_of_framed hframed hread
  rw [approvedFits_longRequest] at happ
  omega

/-- A request of `0xffff` bytes is read, and its rewrite for the one shared device `A` is not
framed. -/
theorem not_framed_longRequest :
    ¬ Framed (.only ["A".toList]) (writeMessage (longRequest 65529)) :=
  not_framed_of_serial (Nat.le_refl _) (by decide)

end Outgrown

end DialF.Share
