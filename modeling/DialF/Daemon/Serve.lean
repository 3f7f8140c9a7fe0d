import DialF.Daemon.Inbound
import DialF.Jobs.Runner
import DialF.Lib.Text

/-!
# Serve sessions and runtime overrides

Three layers say how an inbound call is handled: the numbers of the serve session that is live, the
map that `override.set` stores, and the configuration. A session holds the one serve slot; it
registers its numbers one by one, streams events until it ends in one way or another, takes out what
bears its token and gives the slot back. `override.set` and `override.clear` come in between from
other connections.

The table of overrides is that of the session, whatever its phase (`Inv`). From that follow the
order of the layers in every state, and that a session which has ended leaves no trace: a run
without it resolves every number alike (`Alike`).
-/

set_option autoImplicit false

namespace DialF.Daemon

open DialF.Lib

/-! ## Runtime overrides -/

/-- One number's value in a request to set the runtime map. -/
inductive AutoanswerValue where
  | steps (steps : List Jobs.Step)
  | yaml (yaml : String)
  | path (path : String)

/-- What validation finds on the host: the file system, the YAML parser, and the texts by which the
steps of an inline job are carried. -/
structure SetEnv where
  createDirAll : String → Except String Unit
  readToString : String → Except String String
  parse : String → Except String (List Jobs.Step)
  text : Jobs.Step → String

/-- `validate_record_dir`. -/
def validateRecordDir (env : SetEnv) (dir : String) : Except String String :=
  if isRelativePath dir.toList then
    .error ("record_dir must be an absolute path (the daemon runs with cwd=/): `" ++ dir ++ "`")
  else
    match env.createDirAll dir with
    | .error e => .error ("create record_dir `" ++ dir ++ "`: " ++ e)
    | .ok _ => .ok dir

/-- `check_inline_paths`, from the step at `i` on. -/
def checkInlinePaths (number : String) : Nat → List Jobs.Step → Except String Unit
  | _, [] => .ok ()
  | i, step :: rest =>
      match step.kind with
      | .audioPlay file =>
          if isRelativePath file.toList then
            .error ("autoanswer " ++ number ++ ": step " ++ toString i ++ " plays relative path `" ++
              file ++ "` — inline job content has no directory to resolve it against; use an " ++
              "absolute path")
          else checkInlinePaths number (i + 1) rest
      | _ => checkInlinePaths number (i + 1) rest

/-- One entry of `validate_autoanswer`. -/
def validateEntry (env : SetEnv) (number : String) (value : Option AutoanswerValue) :
    Except String InboundJob :=
  if trim number.toList = [] then .error "autoanswer: empty phone number key"
  else
    match value with
    | none => .ok .answerOnly
    | some (.path p) =>
        if isRelativePath p.toList then
          .error ("autoanswer " ++ number ++ ": job path must be absolute (socket callers have no " ++
            "working directory to resolve `" ++ p ++ "` against)")
        else
          match env.readToString p with
          | .error e => .error ("autoanswer " ++ number ++ ": read job file " ++ p ++ ": " ++ e)
          | .ok text =>
              -- parsed so that a typo fails here; the file is read again when a call comes
              match env.parse text with
              | .error e => .error ("autoanswer " ++ number ++ ": parse job file " ++ p ++ ": " ++ e)
              | .ok _ => .ok (.path p)
    | some (.yaml yaml) =>
        match env.parse yaml with
        | .error e => .error ("autoanswer " ++ number ++ ": parse job content: " ++ e)
        | .ok steps => (checkInlinePaths number 0 steps).map fun _ => .steps (steps.map env.text)
    | some (.steps steps) =>
        (checkInlinePaths number 0 steps).map fun _ => .steps (steps.map env.text)

/-- `validate_autoanswer`: the first bad entry fails the request. -/
def validateAutoanswer (env : SetEnv) :
    List (String × Option AutoanswerValue) → (AList fun _ : String => InboundJob) →
      Except String (AList fun _ : String => InboundJob)
  | [], out => .ok out
  | (number, value) :: rest, out =>
      match validateEntry env number value with
      | .error e => .error e
      | .ok job => validateAutoanswer env rest (out.insert number job)

/-- `runtime_overrides`. -/
structure RuntimeOverrides where
  recordDir : Option String
  autoanswer : Option (AList fun _ : String => InboundJob)

/-- `override.set`: everything is validated before anything is stored. -/
def RuntimeOverrides.set (ovr : RuntimeOverrides) (env : SetEnv) (recordDir : Option String)
    (autoanswer : Option (List (String × Option AutoanswerValue))) :
    Except String RuntimeOverrides :=
  if recordDir = none ∧ autoanswer.isNone then
    .error "override.set requires `record_dir` and/or `autoanswer`"
  else
    match recordDir.mapM (validateRecordDir env) with
    | .error e => .error e
    | .ok dir =>
        match autoanswer.mapM fun map => validateAutoanswer env map ∅ with
        | .error e => .error e
        | .ok map => .ok ⟨dir.or ovr.recordDir, map.or ovr.autoanswer⟩

/-- `override.clear`: the named ones, or both where none is named. -/
def RuntimeOverrides.clear (ovr : RuntimeOverrides) (recordDir autoanswer : Bool) :
    RuntimeOverrides :=
  let all := !recordDir && !autoanswer
  ⟨if recordDir || all then none else ovr.recordDir,
    if autoanswer || all then none else ovr.autoanswer⟩

/-! ## Sessions -/

/-- How far a serve session has come; while it registers, how many numbers it has registered. -/
inductive ServePhase where
  | registering (n : Nat)
  | confirming
  | streaming
  | leaving
  | cleared
  deriving DecidableEq

/-- The session of a connection that holds the serve slot. -/
structure Session where
  conn : Nat
  token : Nat
  numbers : List String
  path : String
  device : Option String
  phase : ServePhase
  deriving DecidableEq

/-- What wakes the loop of a session: a line of its client, the end of the connection, an event that
is written or not, or the state of the event channel. -/
inductive StreamEvent where
  | line
  | disconnected
  | event (written : Bool)
  | lagged
  | closed
  deriving DecidableEq

/-- The loop is left by a client that is gone, by a failed write, and where no more events come. -/
def StreamEvent.leaves : StreamEvent → Bool
  | .disconnected => true
  | .event written => !written
  | .closed => true
  | .line | .lagged => false

/-- What a session does next. -/
inductive SessionLabel where
  | register
  | confirm (written : Bool)
  | stream (e : StreamEvent)
  | clear
  | release
  deriving DecidableEq

namespace Routes

/-- `register_override`. -/
def registerOverride (r : Routes) (number : String) (ov : AutoanswerOverride) : Routes :=
  { r with overrides := r.overrides.insert number ov }

/-- `clear_overrides`: what bears another token is retained. -/
def clearOverrides (r : Routes) (token : Nat) : Routes :=
  { r with
    overrides :=
      ⟨r.overrides.entries.filter fun e => e.2.token ≠ token,
        r.overrides.nodupKeys.sublist List.filter_sublist⟩ }

end Routes

namespace Session

/-- What the session registers for each of its numbers. -/
def override (v : Session) : AutoanswerOverride := ⟨v.token, v.path, v.device⟩

/-- The numbers that the session lists now: none any more once it has cleared them. -/
def listed (v : Session) : List String :=
  match v.phase with
  | .registering n => v.numbers.take n
  | .cleared => []
  | .confirming | .streaming | .leaving => v.numbers

/-- One stretch of `serve_autoanswer`. -/
def next (v : Session) (r : Routes) : SessionLabel → Option (Routes × Option Session)
  | .register =>
      match v.phase with
      | .registering n =>
          match v.numbers[n]? with
          | some number =>
              some (r.registerOverride number v.override,
                some { v with phase := .registering (n + 1) })
          | none => some (r, some { v with phase := .confirming })
      | _ => none
  | .confirm written =>
      if v.phase = .confirming then
        some (r, some { v with phase := if written then .streaming else .leaving })
      else none
  | .stream e =>
      if v.phase = .streaming then
        some (r, some { v with phase := if e.leaves then .leaving else .streaming })
      else none
  -- whatever the loop ended by
  | .clear =>
      if v.phase = .leaving then
        some (r.clearOverrides v.token, some { v with phase := .cleared })
      else none
  | .release => if v.phase = .cleared then some (r, none) else none

end Session

/-- The layers, the record directory, the token counter, the session that holds the slot, and the
connections that have asked to serve. -/
structure Serve where
  routes : Routes
  recordDir : Option String
  serveToken : Nat
  session : Option Session
  served : List Nat

/-- What can happen to the sessions of `serve` and to the overrides. -/
inductive ServeLabel where
  | serve (conn : Nat) (numbers : List String) (path : String) (device : Option String)
  | reject (conn : Nat)
  | session (conn : Nat) (a : SessionLabel)
  | overrideSet (env : SetEnv) (recordDir : Option String)
      (autoanswer : Option (List (String × Option AutoanswerValue)))
  | overrideClear (recordDir autoanswer : Bool)

namespace Serve

/-- A daemon that has just started, with what its configuration says. -/
def start (config : AList fun _ : String => Option String) (configDir : Option String) : Serve :=
  ⟨⟨∅, none, config, configDir⟩, none, 1, none, []⟩

/-- `RuntimeOverrides`, as the state holds them. -/
def runtimeOverrides (s : Serve) : RuntimeOverrides := ⟨s.recordDir, s.routes.runtime⟩

/-- The overrides are put into the state. -/
def setRuntimeOverrides (s : Serve) (ovr : RuntimeOverrides) : Serve :=
  { s with routes := { s.routes with runtime := ovr.autoanswer }, recordDir := ovr.recordDir }

/-- One step. A connection is finished once its request to serve is, so it serves once. -/
def step (s : Serve) : ServeLabel → Option Serve
  | .serve conn numbers path device =>
      if conn ∉ s.served ∧ s.session = none then
        some { s with
          serveToken := s.serveToken + 1
          served := conn :: s.served
          session := some ⟨conn, s.serveToken, numbers, path, device, .registering 0⟩ }
      else none
  -- the slot is taken
  | .reject conn =>
      if conn ∉ s.served ∧ s.session ≠ none then some { s with served := conn :: s.served }
      else none
  | .session conn a =>
      match s.session with
      | some v =>
          if v.conn = conn then
            (v.next s.routes a).map fun r => { s with routes := r.1, session := r.2 }
          else none
      | none => none
  | .overrideSet env recordDir autoanswer =>
      match s.runtimeOverrides.set env recordDir autoanswer with
      | .ok ovr => some (s.setRuntimeOverrides ovr)
      | .error _ => some s
  | .overrideClear recordDir autoanswer =>
      some (s.setRuntimeOverrides (s.runtimeOverrides.clear recordDir autoanswer))

/-- All runs of sessions and overrides, under a config. -/
def machine (config : AList fun _ : String => Option String) (configDir : Option String) :
    Machine Serve ServeLabel where
  Init s := s = start config configDir
  step := step

/-- `resolve_inbound` with the overrides as they stand in `s` and the layers below as they stand in
`t`: they are behind two locks, which are taken one after the other. -/
def resolve (s t : Serve) (number : String) : Option InboundHandler :=
  { t.routes with overrides := s.routes.overrides }.resolveInbound number

/-! ## The table of overrides -/

section Table

variable {r r' : Routes} {v : Session} {w : Option Session} {a : SessionLabel}

theorem registerOverride_lookup (r : Routes) (number n : String) (ov : AutoanswerOverride) :
    (r.registerOverride number ov).overrides.lookup n =
      if n = number then some ov else r.overrides.lookup n := by
  by_cases h : n = number
  · subst h
    rw [if_pos rfl]
    exact AList.lookup_insert r.overrides
  · rw [if_neg h]
    exact AList.lookup_insert_ne h

/-- An override is left where it bears another token. -/
theorem clearOverrides_lookup (r : Routes) (token : Nat) (n : String) :
    (r.clearOverrides token).overrides.lookup n =
      (r.overrides.lookup n).filter fun ov => ov.token ≠ token := by
  ext ov
  rw [Option.filter_eq_some_iff]
  have hmem : ∀ l : AList fun _ : String => AutoanswerOverride,
      l.lookup n = some ov ↔ (⟨n, ov⟩ : Sigma fun _ : String => AutoanswerOverride) ∈ l.entries :=
    fun _ => AList.mem_lookup_iff
  rw [hmem, hmem]
  exact List.mem_filter

/-- What the table says of a number by the session. -/
def entry (session : Option Session) (number : String) : Option AutoanswerOverride :=
  session.bind fun v => if number ∈ v.listed then some v.override else none

/-- The table of overrides is that of the session. -/
def Inv (s : Serve) : Prop :=
  ∀ number, s.routes.overrides.lookup number = entry s.session number

/-- A stretch of a session touches the table of overrides only. -/
theorem next_frame (h : v.next r a = some (r', w)) :
    r'.runtime = r.runtime ∧ r'.config = r.config ∧ r'.configDir = r.configDir ∧
      ∀ u, w = some u → u.conn = v.conn := by
  obtain ⟨conn, token, numbers, path, device, phase⟩ := v
  cases a with
  | register =>
      cases phase with
      | registering n =>
          simp only [Session.next] at h
          cases hn : numbers[n]? with
          | none =>
              rw [hn] at h
              obtain ⟨rfl, rfl⟩ := Prod.mk.inj (Option.some.inj h)
              exact ⟨rfl, rfl, rfl, by rintro u ⟨⟩; rfl⟩
          | some number =>
              rw [hn] at h
              obtain ⟨rfl, rfl⟩ := Prod.mk.inj (Option.some.inj h)
              exact ⟨rfl, rfl, rfl, by rintro u ⟨⟩; rfl⟩
      | _ => simp [Session.next] at h
  | _ =>
      simp only [Session.next, Option.ite_none_right_eq_some, Option.some.injEq, Prod.mk.injEq] at h
      obtain ⟨-, rfl, rfl⟩ := h
      exact ⟨rfl, rfl, rfl, by rintro u ⟨⟩ <;> rfl⟩

/-- It keeps the table. -/
theorem next_table (h : v.next r a = some (r', w))
    (htable : ∀ number, r.overrides.lookup number = entry (some v) number) (number : String) :
    r'.overrides.lookup number = entry w number := by
  obtain ⟨conn, token, numbers, path, device, phase⟩ := v
  cases a with
  | register =>
      cases phase with
      | registering n =>
          simp only [Session.next] at h
          cases hn : numbers[n]? with
          | none =>
              -- the loop over the numbers is over
              rw [hn] at h
              obtain ⟨rfl, rfl⟩ := Prod.mk.inj (Option.some.inj h)
              have htake : numbers.take n = numbers :=
                List.take_of_length_le (List.getElem?_eq_none_iff.1 hn)
              rw [htable]
              simp only [entry, Option.bind_some, Session.listed, htake]
              rfl
          | some new =>
              rw [hn] at h
              obtain ⟨rfl, rfl⟩ := Prod.mk.inj (Option.some.inj h)
              rw [registerOverride_lookup, htable]
              simp only [entry, Option.bind_some, Session.listed, List.take_add_one, hn,
                Option.toList_some, List.mem_append, List.mem_singleton]
              by_cases heq : number = new
              · simp [heq, Session.override]
              · by_cases hold : number ∈ numbers.take n
                · simp [heq, hold, Session.override]
                · simp [heq, hold]
      | _ => simp [Session.next] at h
  | confirm written =>
      simp only [Session.next, Option.ite_none_right_eq_some, Option.some.injEq, Prod.mk.injEq] at h
      obtain ⟨rfl, rfl, rfl⟩ := h
      rw [htable]
      cases written <;> rfl
  | stream e =>
      simp only [Session.next, Option.ite_none_right_eq_some, Option.some.injEq, Prod.mk.injEq] at h
      obtain ⟨rfl, rfl, rfl⟩ := h
      rw [htable]
      cases he : e.leaves <;> rfl
  | clear =>
      simp only [Session.next, Option.ite_none_right_eq_some, Option.some.injEq, Prod.mk.injEq] at h
      obtain ⟨rfl, rfl, rfl⟩ := h
      -- whatever the table has bears the token of the session
      rw [clearOverrides_lookup, htable]
      simp only [entry, Option.bind_some, Session.listed, List.not_mem_nil, if_false]
      by_cases hmem : number ∈ numbers
      · simp [hmem, Session.override]
      · simp [hmem]
  | release =>
      simp only [Session.next, Option.ite_none_right_eq_some, Option.some.injEq, Prod.mk.injEq] at h
      obtain ⟨rfl, rfl, rfl⟩ := h
      rw [htable]
      simp [entry, Session.listed]

end Table

section Steps

variable {config : AList fun _ : String => Option String} {configDir : Option String}
  {s s' t : Serve}

theorem inv_start : Inv (start config configDir) := by
  intro number
  rw [start, AList.lookup_empty]
  rfl

/-- What a step can do. -/
inductive Does (s : Serve) : ServeLabel → Serve → Prop where
  | serve (conn : Nat) (numbers : List String) (path : String) (device : Option String) :
      conn ∉ s.served → s.session = none →
        Does s (.serve conn numbers path device)
          { s with
            serveToken := s.serveToken + 1
            served := conn :: s.served
            session := some ⟨conn, s.serveToken, numbers, path, device, .registering 0⟩ }
  | reject (conn : Nat) : Does s (.reject conn) { s with served := conn :: s.served }
  | session {v : Session} {r : Routes} {w : Option Session} (a : SessionLabel) :
      s.session = some v → v.next s.routes a = some (r, w) →
        Does s (.session v.conn a) { s with routes := r, session := w }
  | overrides (a : ServeLabel) (ovr : RuntimeOverrides) :
      (∀ s' : Serve, s'.runtimeOverrides = s.runtimeOverrides →
        step s' a = some (s'.setRuntimeOverrides ovr)) →
          (∀ conn b, a ≠ .session conn b) → (∀ conn numbers path device,
            a ≠ .serve conn numbers path device) → (∀ conn, a ≠ .reject conn) →
              Does s a (s.setRuntimeOverrides ovr)

theorem setRuntimeOverrides_self (s : Serve) : s.setRuntimeOverrides s.runtimeOverrides = s := rfl

theorem does_of_step {a : ServeLabel} (h : step s a = some t) : Does s a t := by
  cases a with
  | serve conn numbers path device =>
      simp only [step] at h
      by_cases hfree : conn ∉ s.served ∧ s.session = none
      · rw [if_pos hfree] at h
        obtain rfl := Option.some.inj h
        exact .serve conn numbers path device hfree.1 hfree.2
      · rw [if_neg hfree] at h
        exact absurd h (by simp)
  | reject conn =>
      simp only [step] at h
      by_cases htaken : conn ∉ s.served ∧ s.session ≠ none
      · rw [if_pos htaken] at h
        obtain rfl := Option.some.inj h
        exact .reject conn
      · rw [if_neg htaken] at h
        exact absurd h (by simp)
  | session conn a =>
      simp only [step] at h
      cases hv : s.session with
      | none =>
          rw [hv] at h
          exact absurd h (by simp)
      | some v =>
          rw [hv] at h
          by_cases hconn : v.conn = conn
          · subst hconn
            simp only [if_true, Option.map_eq_some_iff] at h
            obtain ⟨⟨r, w⟩, hnext, rfl⟩ := h
            exact .session a hv hnext
          · simp [hconn] at h
  | overrideSet env recordDir autoanswer =>
      cases hset : s.runtimeOverrides.set env recordDir autoanswer with
      | ok ovr =>
          have hstep : ∀ s' : Serve, s'.runtimeOverrides = s.runtimeOverrides →
              step s' (.overrideSet env recordDir autoanswer) =
                some (s'.setRuntimeOverrides ovr) := by
            intro s' hs'
            simp only [step, hs', hset]
          rw [hstep s rfl] at h
          obtain rfl := Option.some.inj h
          exact .overrides _ ovr hstep (by simp) (by simp) (by simp)
      | error e =>
          -- a request that is refused changes nothing
          have hstep : ∀ s' : Serve, s'.runtimeOverrides = s.runtimeOverrides →
              step s' (.overrideSet env recordDir autoanswer) =
                some (s'.setRuntimeOverrides s.runtimeOverrides) := by
            intro s' hs'
            simp only [step, hs', hset]
            rw [← hs', setRuntimeOverrides_self]
          rw [hstep s rfl] at h
          obtain rfl := Option.some.inj h
          exact .overrides _ _ hstep (by simp) (by simp) (by simp)
  | overrideClear recordDir autoanswer =>
      have hstep : ∀ s' : Serve, s'.runtimeOverrides = s.runtimeOverrides →
          step s' (.overrideClear recordDir autoanswer) =
            some (s'.setRuntimeOverrides (s.runtimeOverrides.clear recordDir autoanswer)) := by
        intro s' hs'
        simp only [step, hs']
      rw [hstep s rfl] at h
      obtain rfl := Option.some.inj h
      exact .overrides _ _ hstep (by simp) (by simp) (by simp)

theorem Inv.step {a : ServeLabel} (hI : Inv s) (h : step s a = some t) : Inv t := by
  cases does_of_step h with
  | serve conn numbers path device _ hfree =>
      intro number
      rw [hI number, hfree]
      simp [entry, Session.listed]
  | reject conn => exact hI
  | session a hv hnext => exact next_table hnext fun number => hv ▸ hI number
  | overrides a ovr _ _ _ _ => exact hI

theorem inv_of_run {as : List ServeLabel} (hI : Inv s)
    (hrun : (machine config configDir).run s as = some t) : Inv t :=
  Machine.run_invariant (M := machine config configDir) (fun _ _ _ hI hstep => Inv.step hI hstep) hI
    hrun

/-- The configuration is what it was at the start. -/
theorem config_of_run {as : List ServeLabel}
    (hs : s.routes.config = config ∧ s.routes.configDir = configDir)
    (hrun : (machine config configDir).run s as = some t) :
    t.routes.config = config ∧ t.routes.configDir = configDir := by
  refine Machine.run_invariant (M := machine config configDir)
    (P := fun s => s.routes.config = config ∧ s.routes.configDir = configDir) ?_ hs hrun
  rintro s a t ⟨hc, hd⟩ hstep
  cases does_of_step hstep with
  | session a hv hnext =>
      obtain ⟨-, hconfig, hdir, -⟩ := next_frame hnext
      exact ⟨hconfig.trans hc, hdir.trans hd⟩
  | _ => exact ⟨hc, hd⟩

/-! ## The order of the layers -/

/-- What an entry of the runtime map asks for. -/
def handlerOf : InboundJob → InboundHandler
  | .answerOnly => .answerOnly
  | .path p => .job p none
  | .steps steps => .steps steps

/-- What an entry of the configuration asks for. -/
def configuredHandler (configDir : Option String) : Option String → InboundHandler
  | none => .answerOnly
  | some path => .job (resolveUnder configDir path) none

/-- Where no override stands, the runtime map decides, or else the configuration. -/
theorem resolveInbound_of_no_override {r : Routes} {number : String}
    (h : r.overrides.lookup number = none) :
    r.resolveInbound number =
      match r.runtime with
      | some map => (map.lookup number).map handlerOf
      | none => (r.config.lookup number).map (configuredHandler r.configDir) := by
  rw [Routes.resolveInbound, h]
  cases r.runtime with
  | some map =>
      cases hjob : map.lookup number with
      | none => simp [hjob]
      | some job => cases job <;> simp [hjob, handlerOf]
  | none =>
      cases hpath : r.config.lookup number with
      | none => rfl
      | some path => cases path <;> rfl

/-- A number that the session lists goes to the session. -/
theorem resolve_of_listed (hI : Inv s) {v : Session} {number : String} (hv : s.session = some v)
    (hlisted : number ∈ v.listed) : resolve s t number = some (.job v.path v.device) := by
  have hlookup : s.routes.overrides.lookup number = some v.override := by
    rw [hI number, hv, entry, Option.bind_some, if_pos hlisted]
  simp only [resolve, Routes.resolveInbound, hlookup]
  rfl

/-- Any other number goes to the layers below. -/
theorem resolve_of_not_listed (hI : Inv s) {number : String}
    (hnot : ∀ v, s.session = some v → number ∉ v.listed) :
    resolve s t number =
      match t.routes.runtime with
      | some map => (map.lookup number).map handlerOf
      | none => (t.routes.config.lookup number).map (configuredHandler t.routes.configDir) := by
  have hlookup : s.routes.overrides.lookup number = none := by
    rw [hI number, entry]
    cases hv : s.session with
    | none => rfl
    | some v => exact if_neg (hnot v hv)
  exact resolveInbound_of_no_override
    (r := { t.routes with overrides := s.routes.overrides }) hlookup

/-! ## A run without one of its sessions -/

/-- The session but for its token. -/
def untokened (v : Session) : Session := { v with token := 0 }

/-- Another token makes no difference to the course of a session. -/
theorem next_untokened {v v' : Session} {r : Routes} (r' : Routes) {w : Option Session} {q : Routes}
    (a : SessionLabel) (hv : untokened v' = untokened v) (h : v.next r a = some (q, w)) :
    ∃ q' w', v'.next r' a = some (q', w') ∧ w'.map untokened = w.map untokened := by
  obtain ⟨conn, token, numbers, path, device, phase⟩ := v
  obtain ⟨conn', token', numbers', path', device', phase'⟩ := v'
  simp only [untokened, Session.mk.injEq, true_and] at hv
  obtain ⟨rfl, rfl, rfl, rfl, rfl⟩ := hv
  cases a with
  | register =>
      cases phase' with
      | registering n =>
          simp only [Session.next] at h ⊢
          cases hn : numbers'[n]? with
          | none =>
              rw [hn] at h
              obtain ⟨-, rfl⟩ := Prod.mk.inj (Option.some.inj h)
              exact ⟨_, _, rfl, rfl⟩
          | some number =>
              rw [hn] at h
              obtain ⟨-, rfl⟩ := Prod.mk.inj (Option.some.inj h)
              exact ⟨_, _, rfl, rfl⟩
      | _ => simp [Session.next] at h
  | _ =>
      simp only [Session.next, Option.ite_none_right_eq_some, Option.some.injEq, Prod.mk.injEq] at h
      obtain ⟨hphase, -, rfl⟩ := h
      exact ⟨_, _, if_pos hphase, rfl⟩

/-- The label is of another connection than `c`, and no refusal: a request that the session of `c`
kept out would have been served without it. -/
def apartFrom (c : Nat) : ServeLabel → Bool
  | .serve conn _ _ _ => conn != c
  | .reject _ => false
  | .session conn _ => conn != c
  | .overrideSet _ _ _ | .overrideClear _ _ => true

/-- Two states are alike but for the session of `c`, which only the first may have. -/
structure Alike (c : Nat) (s s' : Serve) : Prop where
  runtime : s'.routes.runtime = s.routes.runtime
  config : s'.routes.config = s.routes.config
  configDir : s'.routes.configDir = s.routes.configDir
  recordDir : s'.recordDir = s.recordDir
  session : s'.session.map untokened = (s.session.filter fun v => v.conn ≠ c).map untokened
  served : ∀ conn ∈ s'.served, conn ∈ s.served

theorem Alike.refl {c : Nat} (h : s.session = none) : Alike c s s where
  runtime := rfl
  config := rfl
  configDir := rfl
  recordDir := rfl
  session := by rw [h]; rfl
  served _ h := h

/-- A step of another connection has the same effect without the session. -/
theorem Alike.mine {c : Nat} {a : ServeLabel} (h : Alike c s s') (ha : apartFrom c a = true)
    (hstep : step s a = some t) : ∃ t', step s' a = some t' ∧ Alike c t t' := by
  cases does_of_step hstep with
  | serve conn numbers path device hserved hfree =>
      have hfree' : s'.session = none := by
        have hsession := h.session
        rw [hfree] at hsession
        exact Option.map_eq_none_iff.1 hsession
      have hserved' : conn ∉ s'.served := fun hmem => hserved (h.served conn hmem)
      have hne : conn ≠ c := by simpa [apartFrom] using ha
      refine ⟨_, if_pos ⟨hserved', hfree'⟩, h.runtime, h.config, h.configDir, h.recordDir, ?_, ?_⟩
      · rw [Option.filter_some_pos (by simpa using hne)]
        rfl
      · intro conn' hconn'
        rcases List.mem_cons.1 hconn' with rfl | hold
        · exact List.mem_cons_self
        · exact List.mem_cons_of_mem _ (h.served conn' hold)
  | reject conn => exact absurd ha Bool.false_ne_true
  | @session v r w a hv hnext =>
      have hne : v.conn ≠ c := by simpa [apartFrom] using ha
      have hsession := h.session
      rw [hv, Option.filter_some_pos (by simpa using hne), Option.map_some] at hsession
      obtain ⟨v', hv', huntok⟩ := Option.map_eq_some_iff.1 hsession
      have hconn : v'.conn = v.conn := by
        show (untokened v').conn = (untokened v).conn
        rw [huntok]
      obtain ⟨r', w', hnext', hw⟩ := next_untokened s'.routes a huntok hnext
      obtain ⟨hruntime, hconfig, hdir, hw'⟩ := next_frame hnext
      obtain ⟨hruntime', hconfig', hdir', -⟩ := next_frame hnext'
      refine ⟨{ s' with routes := r', session := w' }, ?_,
        hruntime'.trans (h.runtime.trans hruntime.symm),
        hconfig'.trans (h.config.trans hconfig.symm), hdir'.trans (h.configDir.trans hdir.symm),
        h.recordDir, ?_, h.served⟩
      · simp only [step, hv', hconn, if_true, hnext', Option.map_some]
      · show w'.map untokened = (w.filter fun v => v.conn ≠ c).map untokened
        rw [hw]
        cases w with
        | none => rfl
        | some u => rw [Option.filter_some_pos (by simpa [hw' u rfl] using hne)]
  | overrides a ovr hsame _ _ _ =>
      have hovr : s'.runtimeOverrides = s.runtimeOverrides := by
        rw [runtimeOverrides, runtimeOverrides, h.recordDir, h.runtime]
      exact ⟨_, hsame s' hovr, rfl, h.config, h.configDir, rfl, h.session, h.served⟩

/-- A step of the session itself, or a refusal, does not show without it. -/
theorem Alike.other {c : Nat} {a : ServeLabel} (h : Alike c s s') (ha : apartFrom c a = false)
    (hstep : step s a = some t) : Alike c t s' := by
  cases does_of_step hstep with
  | serve conn numbers path device hserved hfree =>
      obtain rfl : conn = c := by simpa [apartFrom] using ha
      refine ⟨h.runtime, h.config, h.configDir, h.recordDir, ?_, ?_⟩
      · rw [h.session, hfree, Option.filter_some_neg (by simp)]
        rfl
      · exact fun conn' hconn' => List.mem_cons_of_mem _ (h.served conn' hconn')
  | reject conn =>
      exact ⟨h.runtime, h.config, h.configDir, h.recordDir, h.session,
        fun conn' hconn' => List.mem_cons_of_mem _ (h.served conn' hconn')⟩
  | @session v r w a hv hnext =>
      obtain rfl : v.conn = c := by simpa [apartFrom] using ha
      obtain ⟨hruntime, hconfig, hdir, hw⟩ := next_frame hnext
      refine ⟨h.runtime.trans hruntime.symm, h.config.trans hconfig.symm,
        h.configDir.trans hdir.symm, h.recordDir, ?_, h.served⟩
      rw [h.session, hv]
      cases w with
      | none => rw [Option.filter_some_neg (by simp)]; rfl
      | some u => rw [Option.filter_some_neg (by simp), Option.filter_some_neg (by simp [hw u rfl])]
  | overrides a ovr _ hsession hserve hreject =>
      cases a with
      | serve conn numbers path device => exact absurd rfl (hserve conn numbers path device)
      | reject conn => exact absurd rfl (hreject conn)
      | session conn b => exact absurd rfl (hsession conn b)
      | overrideSet env recordDir autoanswer => exact absurd ha.symm Bool.false_ne_true
      | overrideClear recordDir autoanswer => exact absurd ha.symm Bool.false_ne_true

/-- A run leaves the states alike to the run without the session. -/
theorem alike_of_run {c : Nat} {as : List ServeLabel} (h : Alike c s s')
    (hrun : (machine config configDir).run s as = some t) :
    ∃ t', (machine config configDir).run s' (as.filter (apartFrom c)) = some t' ∧ Alike c t t' := by
  have hother : ∀ s s' a t, Alike c s s' → apartFrom c a = false → True →
      step s a = some t → Alike c t s' :=
    fun _ _ _ _ halike ha _ hstep => halike.other ha hstep
  exact Machine.run_filter (M := machine config configDir)
    (fun _ _ _ _ halike ha hstep => halike.mine ha hstep) hother h (Machine.meets_true s as) hrun

/-- The session of `c` has ended, or never was. -/
def Over (c : Nat) (s : Serve) : Prop :=
  ∀ v, s.session = some v → v.conn = c → v.phase = .cleared

/-- Alike states in which the session is over have alike tables. -/
theorem Alike.entry_eq {c : Nat} (h : Alike c s s') (hover : Over c s) (number : String) :
    (entry s'.session number).map (fun ov => (ov.path, ov.device)) =
      (entry s.session number).map fun ov => (ov.path, ov.device) := by
  have hsession := h.session
  cases hv : s.session with
  | none =>
      rw [hv, Option.filter_none, Option.map_none, Option.map_eq_none_iff] at hsession
      rw [hsession]
  | some v =>
      rw [hv] at hsession
      by_cases hc : v.conn = c
      · rw [Option.filter_some_neg (by simpa using hc), Option.map_none,
          Option.map_eq_none_iff] at hsession
        rw [hsession]
        simp [entry, Session.listed, hover v hv hc]
      · rw [Option.filter_some_pos (by simpa using hc), Option.map_some] at hsession
        obtain ⟨v', hv', huntok⟩ := Option.map_eq_some_iff.1 hsession
        obtain ⟨conn, token, numbers, path, device, phase⟩ := v
        obtain ⟨conn', token', numbers', path', device', phase'⟩ := v'
        simp only [untokened, Session.mk.injEq, true_and] at huntok
        obtain ⟨rfl, rfl, rfl, rfl, rfl⟩ := huntok
        rw [hv']
        have hlisted : ∀ token : Nat,
            (⟨conn', token, numbers', path', device', phase'⟩ : Session).listed =
              (⟨conn', 0, numbers', path', device', phase'⟩ : Session).listed := fun _ => rfl
        simp only [entry, Option.bind_some, hlisted token, hlisted token']
        by_cases hmem : number ∈ (⟨conn', 0, numbers', path', device', phase'⟩ : Session).listed
        · simp [hmem, Session.override]
        · simp [hmem]

/-- Resolution looks at the path and the device of an override only. -/
theorem resolve_congr {r r' : Routes} {number : String}
    (hoverrides : (r'.overrides.lookup number).map (fun ov => (ov.path, ov.device)) =
      (r.overrides.lookup number).map fun ov => (ov.path, ov.device))
    (hruntime : r'.runtime = r.runtime) (hconfig : r'.config = r.config)
    (hdir : r'.configDir = r.configDir) :
    r'.resolveInbound number = r.resolveInbound number := by
  cases hov : r.overrides.lookup number with
  | none =>
      rw [hov, Option.map_none, Option.map_eq_none_iff] at hoverrides
      rw [resolveInbound_of_no_override hov, resolveInbound_of_no_override hoverrides, hruntime,
        hconfig, hdir]
  | some ov =>
      rw [hov, Option.map_some] at hoverrides
      obtain ⟨ov', hov', heq⟩ := Option.map_eq_some_iff.1 hoverrides
      simp only [Prod.mk.injEq] at heq
      rw [Routes.resolveInbound, Routes.resolveInbound, hov, hov']
      simp only [heq]

/-- **Precedence of the layers over whole runs.** After any run, with any further run between the
two reads of a resolution: a number that the live session lists is handled by the session; else the
runtime map decides if one is set, and the configuration if none is. Once the session of a
connection is over, resolution gives what it gives after the run without that session. -/
theorem resolution_precedence (config : AList fun _ : String => Option String)
    (configDir : Option String) (as bs : List ServeLabel) (s t : Serve)
    (has : (machine config configDir).run (start config configDir) as = some s)
    (hbs : (machine config configDir).run s bs = some t) (number : String) :
    (∀ v, s.session = some v → number ∈ v.listed →
      resolve s t number = some (.job v.path v.device)) ∧
    ((∀ v, s.session = some v → number ∉ v.listed) →
      resolve s t number =
        match t.routes.runtime with
        | some map => (map.lookup number).map handlerOf
        | none => (config.lookup number).map (configuredHandler configDir)) ∧
    ∀ c, Over c s →
      ∃ s' t', (machine config configDir).run (start config configDir)
          (as.filter (apartFrom c)) = some s' ∧
        (machine config configDir).run s' (bs.filter (apartFrom c)) = some t' ∧
          resolve s t number = resolve s' t' number := by
  have hI : Inv s := inv_of_run inv_start has
  have hconfig : t.routes.config = config ∧ t.routes.configDir = configDir :=
    config_of_run (config_of_run ⟨rfl, rfl⟩ has) hbs
  refine ⟨fun v hv hlisted => resolve_of_listed hI hv hlisted, fun hnot => ?_, fun c hover => ?_⟩
  · rw [resolve_of_not_listed hI hnot, hconfig.1, hconfig.2]
  · obtain ⟨s', has', halike⟩ := alike_of_run (c := c) (Alike.refl rfl) has
    obtain ⟨t', hbs', halike'⟩ := alike_of_run halike hbs
    have hI' : Inv s' := inv_of_run inv_start has'
    have htable : (s'.routes.overrides.lookup number).map (fun ov => (ov.path, ov.device)) =
        (s.routes.overrides.lookup number).map fun ov => (ov.path, ov.device) := by
      rw [hI number, hI' number]
      exact halike.entry_eq hover number
    refine ⟨s', t', has', hbs', ?_⟩
    apply Eq.symm
    exact resolve_congr htable halike'.runtime halike'.config halike'.configDir

/-- A session that is replaced by another, with the runtime map set to nothing in between. -/
theorem resolution_precedence_replaced :
    ∃ s, (machine ∅ none).run (start ∅ none)
        [.serve 0 ["1"] "a.yaml" none, .session 0 .register, .session 0 .register,
          .session 0 (.confirm true), .overrideSet ⟨fun _ => .ok (), .error, fun _ => .ok [],
            fun _ => ""⟩ none (some []), .session 0 (.stream .disconnected), .session 0 .clear,
          .session 0 .release, .serve 1 ["2"] "b.yaml" none, .session 1 .register] = some s ∧
      resolve s s "2" = some (.job "b.yaml" none) ∧ resolve s s "1" = none := by
  have hrun : ∃ s, (machine ∅ none).run (start ∅ none)
      [.serve 0 ["1"] "a.yaml" none, .session 0 .register, .session 0 .register,
        .session 0 (.confirm true), .overrideSet ⟨fun _ => .ok (), .error, fun _ => .ok [],
          fun _ => ""⟩ none (some []), .session 0 (.stream .disconnected), .session 0 .clear,
        .session 0 .release, .serve 1 ["2"] "b.yaml" none, .session 1 .register] = some s ∧
      s.session = some ⟨1, 2, ["2"], "b.yaml", none, .registering 1⟩ ∧
        s.routes.runtime = some ∅ := ⟨_, rfl, rfl, rfl⟩
  obtain ⟨s, hrun, hsession, hruntime⟩ := hrun
  refine ⟨s, hrun, ?_, ?_⟩
  · exact (resolution_precedence ∅ none _ [] s s hrun rfl "2").1 _ hsession (by decide)
  · rw [(resolution_precedence ∅ none _ [] s s hrun rfl "1").2.1, hruntime]
    · rfl
    · rintro v hv
      obtain rfl := Option.some.inj (hsession.symm.trans hv)
      decide

end Steps

end Serve

end DialF.Daemon
