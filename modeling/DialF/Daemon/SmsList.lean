import Mathlib.Data.List.Dedup
import Mathlib.Data.List.Perm.Basic
import DialF.Daemon.Superseded

/-!
# Listing messages

The daemon keeps the messages that a phone has reported, up to a bound, in the order of the reports.
The phone reports a message as it comes in, and for each `sms.list` the newest of its inbox; every
report is appended. An entry carries which message it is of, which the daemon does not see
(`recordSms_record`).

The store is the end of all reports (`run_store`). `listsWell_iff`: what `sms.list` returns is
stable, and has each message once up to the bound, exactly in the runs in which no message is twice
among the reports that the store has room for at a request.
-/

set_option autoImplicit false

namespace DialF.Daemon

/-- A record, with the message that it is of. -/
structure SmsEntry where
  message : Nat
  record : SmsRecord
  deriving DecidableEq

/-- A row of the phone's inbox. -/
structure SmsRow where
  message : Nat
  address : Option String
  body : String
  date : Int
  sent : Bool
  deriving DecidableEq

/-- The `sms` frame of a row, as the daemon records it. -/
def SmsRow.entry (row : SmsRow) : SmsEntry where
  message := row.message
  record := {
    direction := if row.sent then .outgoing else .incoming
    sender := row.address
    recipient := none
    body := row.body
    ts := row.date }

/-- How many messages `list_sms` reports. -/
def listSmsLimit : Nat := 20

/-- The reply to `list_sms`: the newest of the inbox, which the query has in front. -/
def listSmsReply (rows : List SmsRow) : List SmsEntry := (rows.take listSmsLimit).map SmsRow.entry

/-- As much of the end of a list as an inbox keeps. -/
def kept {α : Type} (l : List α) : List α := l.drop (l.length - inboxCap)

/-- `record_sms`. -/
def recordSms (store : List SmsEntry) (e : SmsEntry) : List SmsEntry := kept (store ++ [e])

/-- What can happen to the messages. -/
inductive SmsEvent where
  /-- A message comes in, and the phone reports it. -/
  | live (e : SmsEntry)
  /-- The phone's inbox becomes another. -/
  | inbox (rows : List SmsRow)
  /-- `sms.list`. -/
  | list

/-- The phone's inbox, and the daemon's store for the phone. -/
structure SmsState where
  rows : List SmsRow
  store : List SmsEntry

namespace SmsState

/-- What one event leaves. -/
def step (s : SmsState) : SmsEvent → SmsState
  | .live e => { s with store := recordSms s.store e }
  | .inbox rows => { s with rows }
  | .list => { s with store := (listSmsReply s.rows).foldl recordSms s.store }

/-- The events one by one. -/
def run (s : SmsState) (events : List SmsEvent) : SmsState := events.foldl step s

end SmsState

/-- A phone with an inbox that has reported nothing. -/
def SmsState.start (rows : List SmsRow) : SmsState := ⟨rows, []⟩

/-- What `sms.list` returns after some events. -/
def smsList (rows : List SmsRow) (events : List SmsEvent) : List SmsEntry :=
  ((SmsState.start rows).run (events ++ [.list])).store

/-- The reports of the phone: what has come in, and its replies. -/
def reports : List SmsRow → List SmsEvent → List SmsEntry
  | _, [] => []
  | rows, .live e :: events => e :: reports rows events
  | _, .inbox rows :: events => reports rows events
  | rows, .list :: events => listSmsReply rows ++ reports rows events

/-- A message is recent: after its last report there are reports of fewer others than an inbox
keeps. -/
def Recent (seq : List SmsEntry) (message : Nat) : Prop :=
  ∃ a e b, seq = a ++ e :: b ∧ e.message = message ∧ message ∉ b.map SmsEntry.message ∧
    (b.map SmsEntry.message).dedup.length < inboxCap

/-- **`sms.list` is stable** in a run: each request returns every recent message once, and nothing
twice; and repeated at once it returns the same. -/
structure ListsWell (rows : List SmsRow) (events : List SmsEvent) : Prop where
  once : ∀ before after, events = before ++ .list :: after →
    ((smsList rows before).map SmsEntry.message).Nodup
  all : ∀ before after, events = before ++ .list :: after →
    ∀ m, Recent (reports rows (before ++ [.list])) m →
      m ∈ (smsList rows before).map SmsEntry.message
  same : ∀ before after, events = before ++ .list :: .list :: after →
    smsList rows (before ++ [.list]) = smsList rows before

/-! ## The end of a list -/

section Kept

variable {α β : Type} {l l' : List α}

/-- A list that is long enough hides what is before it. -/
theorem kept_append_of_le (h : inboxCap ≤ l'.length) (l : List α) : kept (l ++ l') = kept l' := by
  have hlen : (l ++ l').length - inboxCap = l.length + (l'.length - inboxCap) := by
    rw [List.length_append]
    omega
  rw [kept, hlen, ← List.drop_drop, List.drop_left, kept]

theorem kept_eq_self (h : l.length ≤ inboxCap) : kept l = l := by
  rw [kept, Nat.sub_eq_zero_of_le h, List.drop_zero]

theorem kept_append (l l' : List α) : kept (kept l ++ l') = kept (l ++ l') := by
  by_cases h : l.length ≤ inboxCap
  · rw [kept_eq_self h]
  · have hlen : inboxCap ≤ (kept l ++ l').length := by
      rw [List.length_append, kept, List.length_drop]
      omega
    have hsplit : l ++ l' = l.take (l.length - inboxCap) ++ (kept l ++ l') := by
      rw [← List.append_assoc, kept, List.take_append_drop]
    rw [hsplit, kept_append_of_le hlen]

theorem kept_kept (l : List α) : kept (kept l) = kept l := by
  have happend := kept_append l []
  rwa [List.append_nil, List.append_nil] at happend

theorem kept_map (f : α → β) (l : List α) : kept (l.map f) = (kept l).map f := by
  rw [kept, kept, List.length_map, List.map_drop]

theorem kept_sublist (l : List α) : (kept l).Sublist l := List.drop_sublist _ l

/-- The end of a list stays, where it is short enough. -/
theorem sublist_kept_append (h : l'.length ≤ inboxCap) (l : List α) :
    l'.Sublist (kept (l ++ l')) := by
  have hle : (l ++ l').length - inboxCap ≤ l.length := by
    rw [List.length_append]
    omega
  rw [kept, List.drop_append_of_le_length hle]
  exact List.sublist_append_right _ l'

end Kept

/-! ## The store -/

/-- Without the message, an entry is recorded as the daemon does it. -/
theorem recordSms_record (store : List SmsEntry) (e : SmsEntry) :
    (recordSms store e).map SmsEntry.record = pushSms (store.map SmsEntry.record) e.record := by
  rw [recordSms, ← kept_map, List.map_append]
  rfl

theorem foldl_recordSms (store reply : List SmsEntry) (h : kept store = store) :
    reply.foldl recordSms store = kept (store ++ reply) := by
  induction reply generalizing store with
  | nil => rw [List.foldl_nil, List.append_nil, h]
  | cons e reply ih =>
      have hkept : kept (recordSms store e) = recordSms store e := kept_kept _
      rw [List.foldl_cons, ih _ hkept, recordSms, kept_append, List.append_assoc]
      rfl

/-- **The store** is the end of all reports. -/
theorem run_store (s : SmsState) (events : List SmsEvent) (h : kept s.store = s.store) :
    (s.run events).store = kept (s.store ++ reports s.rows events) := by
  induction events generalizing s with
  | nil => rw [reports, List.append_nil, h]; rfl
  | cons event events ih =>
      show ((s.step event).run events).store = _
      cases event with
      | live e =>
          have hstore : (s.step (.live e)).store = kept (s.store ++ [e]) := by
            simp only [SmsState.step, recordSms]
          have hreports : reports s.rows (.live e :: events) = [e] ++ reports s.rows events := rfl
          have hrows : (s.step (.live e)).rows = s.rows := by simp only [SmsState.step]
          rw [ih _ (by rw [hstore, kept_kept]), hstore, hrows, kept_append, List.append_assoc, hreports]
      | inbox rows => exact ih ⟨rows, s.store⟩ h
      | list =>
          have hstore : (s.step .list).store = kept (s.store ++ listSmsReply s.rows) :=
            foldl_recordSms s.store _ h
          rw [ih _ (by rw [hstore, kept_kept]), hstore, kept_append, List.append_assoc, reports]
          rfl

section Reports

variable {rows : List SmsRow}

theorem smsList_eq (rows : List SmsRow) (events : List SmsEvent) :
    smsList rows events = kept (reports rows (events ++ [.list])) := by
  have hempty : kept (SmsState.start rows).store = (SmsState.start rows).store :=
    kept_eq_self (Nat.zero_le inboxCap)
  rw [smsList, run_store _ _ hempty]
  simp only [SmsState.start, List.nil_append]

/-- The reports of a run and of what comes after it. -/
theorem reports_append (rows : List SmsRow) (events : List SmsEvent) :
    ∃ rows', ∀ events',
      reports rows (events ++ events') = reports rows events ++ reports rows' events' := by
  induction events generalizing rows with
  | nil => exact ⟨rows, fun _ => rfl⟩
  | cons event events ih =>
      cases event with
      | live e =>
          obtain ⟨rows', h⟩ := ih rows
          exact ⟨rows', fun events' => congrArg (e :: ·) (h events')⟩
      | inbox rows'' => exact ih rows''
      | list =>
          obtain ⟨rows', h⟩ := ih rows
          refine ⟨rows', fun events' => ?_⟩
          show listSmsReply rows ++ reports rows (events ++ events') = _
          rw [h, ← List.append_assoc]
          rfl

theorem length_listSmsReply (rows : List SmsRow) : (listSmsReply rows).length ≤ listSmsLimit := by
  rw [listSmsReply, List.length_map]
  exact List.length_take_le _ _

/-- A recent message is in the store, where no message is in it twice. -/
theorem mem_kept_of_recent {seq : List SmsEntry} {m : Nat}
    (hnodup : ((kept seq).map SmsEntry.message).Nodup) (h : Recent seq m) :
    m ∈ (kept seq).map SmsEntry.message := by
  obtain ⟨a, e, b, rfl, rfl, -, hfew⟩ := h
  by_cases hlen : b.length < inboxCap
  · have hmem : e ∈ kept (a ++ e :: b) :=
      (sublist_kept_append (by rw [List.length_cons]; omega) a).subset List.mem_cons_self
    exact List.mem_map_of_mem hmem
  · -- the store is full of later reports, of as many messages
    have hkept : kept (a ++ e :: b) = kept b := by
      rw [show a ++ e :: b = (a ++ [e]) ++ b by simp]
      exact kept_append_of_le (by omega) _
    rw [hkept] at hnodup
    have hsub : (kept b).map SmsEntry.message ⊆ (b.map SmsEntry.message).dedup := by
      intro x hx
      rw [List.mem_dedup]
      exact ((kept_sublist b).map _).subset hx
    have hle := (List.subperm_of_subset hnodup hsub).length_le
    have hfull : ((kept b).map SmsEntry.message).length = inboxCap := by
      rw [List.length_map, kept, List.length_drop]
      omega
    omega

/-- Where the reply is reported twice, there are no messages in it. -/
theorem listSmsReply_eq_nil {l : List SmsEntry}
    (h : ((kept (l ++ (listSmsReply rows ++ listSmsReply rows))).map SmsEntry.message).Nodup) :
    listSmsReply rows = [] := by
  have hlen := length_listSmsReply rows
  have hcap : 2 * listSmsLimit ≤ inboxCap := by decide
  have hsub : (listSmsReply rows ++ listSmsReply rows).Sublist
      (kept (l ++ (listSmsReply rows ++ listSmsReply rows))) :=
    sublist_kept_append (by rw [List.length_append]; omega) l
  have hnodup := h.sublist (hsub.map SmsEntry.message)
  rw [List.map_append, List.nodup_append] at hnodup
  cases hreply : listSmsReply rows with
  | nil => rfl
  | cons e reply =>
      rw [hreply] at hnodup
      exact absurd rfl (hnodup.2.2 e.message (by simp) e.message (by simp))

end Reports

/-- **Where `sms.list` is stable**: exactly in the runs in which, at each request, the reports that
the store has room for are of different messages. -/
theorem listsWell_iff (rows : List SmsRow) (events : List SmsEvent) :
    ListsWell rows events ↔
      ∀ before after, events = before ++ .list :: after →
        ((kept (reports rows (before ++ [.list]))).map SmsEntry.message).Nodup := by
  constructor
  · intro h before after hevents
    rw [← smsList_eq]
    exact h.once before after hevents
  · intro h
    constructor
    · intro before after hevents
      rw [smsList_eq]
      exact h before after hevents
    · intro before after hevents m hrecent
      rw [smsList_eq]
      exact mem_kept_of_recent (h before after hevents) hrecent
    · intro before after hevents
      -- a second request right after this one: its reply would be in the store twice
      obtain ⟨rows', happend⟩ := reports_append rows before
      have htwice := h (before ++ [.list]) after (by simp [hevents])
      rw [smsList_eq, smsList_eq]
      rw [List.append_assoc, List.singleton_append, happend] at htwice ⊢
      rw [happend]
      have hnil : listSmsReply rows' = [] := listSmsReply_eq_nil (by simpa [reports] using htwice)
      simp [reports, hnil]

/-- Asked twice, the daemon returns the one message of the inbox twice. -/
theorem not_listsWell_askedTwice :
    ¬ ListsWell [⟨0, some "+15550100", "hello", 1700000000000, false⟩] [.list, .list] := by
  intro h
  exact absurd (h.same [] [] rfl) (by decide)

end DialF.Daemon
