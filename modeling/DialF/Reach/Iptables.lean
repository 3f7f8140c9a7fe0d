import DialF.Lib.FirstMatch
import DialF.Share.DeviceList
import DialF.Share.ForwardPorts

/-!
# Reading an iptables listing

`iptables_open` of `reachability.rs` says whether a listing lets a port in. It looks for a rule of
the chain that accepts, for every interface, a packet to the port, and takes the chain to be open at
the first one, and at a policy line that accepts. It does not look at the rules that drop or reject.

A listing is read here line by line (`Reads`) and means what iptables makes of it: the first rule
that a packet hits decides, and the policy where it hits none (`letsIn`). `iptablesOpen_iff` says
for which listings the answer is yes exactly where packets are let in on every interface.
-/

set_option autoImplicit false

namespace DialF.Reach

open DialF.Lib DialF.Share

/-- Whether a port is let in by a rule set. -/
inductive Open where
  | yes
  /-- Only on these interfaces. -/
  | onlyOn (ifaces : List Str)
  | no
  /-- Couldn't read or interpret the rules. -/
  | unknown
  deriving DecidableEq

/-! ## The scan -/

/-- `8765`, `8000:9000`, `8000-9000`, or a comma list of those. -/
def portsCover (spec : Str) (port : Nat) : Bool :=
  (spec.splitOn ',').any fun part =>
    match splitDash (trim part) with
    | some (lo, hi) =>
        match parseU16 lo, parseU16 hi with
        | some lo, some hi => decide (lo ≤ port ∧ port ≤ hi)
        | _, _ => false
    | none => parseU16 (trim part) == some port

/-- The word behind the first place of a flag. -/
def argOf (flag : Str) (t : List Str) : Option Str := (t.dropWhile (· != flag))[1]?

/-- Rules with these do not open a port to an arbitrary phone. -/
def skippedFlags : List Str :=
  ["-s".toList, "-d".toList, "--ctstate".toList, "--state".toList, "--icmp-type".toList,
    "--sport".toList]

/-- The protocol and the ports of a rule let the packet through to it. -/
def ruleMatches (ruleProto dports : Option Str) (proto : Str) (port : Nat) : Bool :=
  match ruleProto, dports with
  -- Neither protocol nor port: everything.
  | none, none => true
  | some p, none => p == proto
  | p, some spec => p.all (· == proto) && portsCover spec port

/-- The scan over the words of each line, with the interfaces found so far. -/
def iptablesGo (chain target proto : Str) (port : Nat) (onlyOn : List Str) : List (List Str) → Open
  | [] => if onlyOn = [] then .no else .onlyOn onlyOn
  | t :: rest =>
      if t.head?.bind (stripPrefix [':']) = some chain then
        if t[1]? = some "ACCEPT".toList then .yes
        else iptablesGo chain target proto port onlyOn rest
      else if argOf "-A".toList t ≠ some chain ∨ argOf "-j".toList t ≠ some target then
        iptablesGo chain target proto port onlyOn rest
      else if skippedFlags.any (t.contains ·) then iptablesGo chain target proto port onlyOn rest
      else if ruleMatches (argOf "-p".toList t)
          ((argOf "--dport".toList t).or (argOf "--dports".toList t)) proto port = false then
        iptablesGo chain target proto port onlyOn rest
      else
        match argOf "-i".toList t with
        | none => .yes
        | some iface =>
            if iface = "lo".toList ∨ iface ∈ onlyOn then
              iptablesGo chain target proto port onlyOn rest
            else iptablesGo chain target proto port (onlyOn ++ [iface]) rest

/-- Does an iptables rule list accept `proto`/`port` into `chain`? -/
def iptablesOpen (rules chain target proto : Str) (port : Nat) : Open :=
  iptablesGo chain target proto port [] ((lines rules).map words)

/-! ## Listings -/

/-- A port, or a range of ports with the character between its ends. -/
inductive PortRange where
  | one (n : Nat)
  | range (lo : Nat) (dash : Char) (hi : Nat)

namespace PortRange

/-- How it is written. -/
def text : PortRange → Str
  | one n => decimalOf n
  | range lo dash hi => decimalOf lo ++ dash :: decimalOf hi

/-- The port is meant. -/
def has (port : Nat) : PortRange → Bool
  | one n => n == port
  | range lo _ hi => decide (lo ≤ port ∧ port ≤ hi)

/-- The ends are ports, and the character between them is one that separates. -/
def Legal : PortRange → Prop
  | one n => n ≤ 65535
  | range lo dash hi => lo ≤ 65535 ∧ hi ≤ 65535 ∧ isDash dash = true

end PortRange

/-- A rule of a chain: what a packet has to be to hit it, and where it goes then. -/
structure Rule where
  chain : Str
  iface : Option Str
  proto : Option Str
  ports : Option (List PortRange)
  jump : Str

/-- The flags that the scan understands, and that of an extension. -/
inductive Flag where
  | append
  | iface
  | proto
  | dport
  | dports
  | jump
  | extension
  deriving DecidableEq

/-- How it is written. -/
def Flag.text : Flag → Str
  | append => "-A".toList
  | iface => "-i".toList
  | proto => "-p".toList
  | dport => "--dport".toList
  | dports => "--dports".toList
  | jump => "-j".toList
  | extension => "-m".toList

namespace Rule

/-- What a rule says, each with its flag; the ports under the one or the other of two. -/
def options (portFlag : Flag) (r : Rule) : List (Flag × Str) :=
  (.append, r.chain) :: (.jump, r.jump) ::
    ((r.iface.map fun i => (.iface, i)).toList ++ (r.proto.map fun p => (.proto, p)).toList ++
      (r.ports.map fun ps => (portFlag, List.intercalate [','] (ps.map PortRange.text))).toList)

/-- A packet of this protocol to this port hits the rule, on the interfaces that it is for. -/
def covers (proto : Str) (port : Nat) (r : Rule) : Bool :=
  r.proto.all (· == proto) && r.ports.all fun ps => ps.any (PortRange.has port)

/-- A packet that hits the rule is accepted. -/
def accepts (target : Str) (r : Rule) : Bool :=
  r.jump == "ACCEPT".toList ||
    (r.jump == target && !(["DROP".toList, "REJECT".toList].contains target))

/-- The rule is one that iptables takes, with a jump that is understood. -/
structure Legal (target : Str) (r : Rule) : Prop where
  jump : r.jump ∈ ["ACCEPT".toList, "DROP".toList, "REJECT".toList, target]
  ports : ∀ ps, r.ports = some ps → ps ≠ [] ∧ ∀ p ∈ ps, p.Legal
  /-- An interface is named, not a pattern of names. -/
  iface : ∀ i, r.iface = some i → '+' ∉ i
  /-- A protocol is named; the name of all of them is not used. -/
  proto : ∀ p, r.proto = some p → p ≠ "all".toList ∧ ¬ p.all Char.isDigit

end Rule

/-- A line of a listing. -/
inductive Entry where
  /-- No words, those that frame the table, or a comment. -/
  | frame
  | policy (chain verdict : Str)
  | rule (r : Rule)

/-- The words are those of the rule, in any order of its flags, behind the name of a command or
not. -/
structure ReadsRule (t : List Str) (r : Rule) (portFlag : Flag) (command : Option Str)
    (extensions : List Str) (opts : List (Flag × Str)) : Prop where
  words : t = command.toList ++ opts.flatMap fun o => [o.1.text, o.2]
  perm : opts.Perm (r.options portFlag ++ extensions.map fun m => (.extension, m))
  portFlag : portFlag = .dport ∨ portFlag = .dports
  /-- No flag, no policy and no comment. -/
  command : ∀ c, command = some c →
    c.head? ≠ some '-' ∧ c.head? ≠ some ':' ∧ c.head? ≠ some '#'
  /-- No value looks like a flag. -/
  value : ∀ o ∈ opts, o.2.head? ≠ some '-'
  extension : ∀ m ∈ extensions, m = "multiport".toList ∨ some m = r.proto

/-- What the words of a line say. -/
inductive Reads (target : Str) : List Str → Entry → Prop where
  | blank : Reads target [] .frame
  | filter : Reads target ["*filter".toList] .frame
  | commit : Reads target ["COMMIT".toList] .frame
  /-- A comment, without a rule in it. -/
  | comment {word : Str} {ws : List Str} : (∀ w ∈ ws, w ≠ "-A".toList) →
      Reads target (('#' :: word) :: ws) .frame
  | policy {chain verdict : Str} {counters : List Str} :
      verdict ∈ ["ACCEPT".toList, "DROP".toList, "-".toList] →
      (∀ w ∈ counters, w.head? = some '[') →
      Reads target ((':' :: chain) :: verdict :: counters) (.policy chain verdict)
  | rule {t : List Str} {r : Rule} {portFlag : Flag} {command : Option Str} {extensions : List Str}
      {opts : List (Flag × Str)} : r.Legal target →
      ReadsRule t r portFlag command extensions opts → Reads target t (.rule r)

/-- The text is a listing with these entries. -/
def IsRules (rules target : Str) (listing : List Entry) : Prop :=
  List.Forall₂ (Reads target) ((lines rules).map words) listing

/-- The rules of a chain, in order. -/
def rulesOf (chain : Str) (listing : List Entry) : List Rule :=
  listing.filterMap fun
    | .rule r => if r.chain = chain then some r else none
    | _ => none

/-- The policy in force: the last one given for the chain. Without one, a packet that hits no rule
is not accepted by the chain. -/
def policyAccepts (chain : Str) (listing : List Entry) : Bool :=
  (listing.filterMap fun
    | .policy c verdict => if c = chain then some verdict else none
    | _ => none).getLast? == some "ACCEPT".toList

/-- A packet that arrives on the interface is accepted: the first rule that it hits decides, and the
policy where it hits none. -/
def letsIn (listing : List Entry) (chain target proto : Str) (port : Nat) (iface : Str) : Bool :=
  firstMatch (fun r => r.covers proto port && reaches Rule.iface iface r) (Rule.accepts target)
    (policyAccepts chain listing) (rulesOf chain listing)

/-- A line that opens the port by itself: a policy that accepts, or a rule for every interface that
goes to the target. -/
def Entry.Opens (chain target proto : Str) (port : Nat) : Entry → Prop
  | .frame => False
  | .policy c verdict => c = chain ∧ verdict = "ACCEPT".toList
  | .rule r => r.chain = chain ∧ r.jump = target ∧ r.covers proto port = true ∧ r.iface = none

/-- A line opens the port by itself. -/
def HasOpening (listing : List Entry) (chain target proto : Str) (port : Nat) : Prop :=
  ∃ e ∈ listing, e.Opens chain target proto port

/-- A rule that drops or rejects comes before those that could have decided, or no rule decides and
the policy does not accept. -/
def IsShut (listing : List Entry) (chain target proto : Str) (port : Nat) : Prop :=
  Blocked (Rule.covers proto port) Rule.iface (Rule.accepts target) (policyAccepts chain listing)
    (rulesOf chain listing)

/-! ## Ports -/

theorem PortRange.not_mem_text {p : PortRange} (hp : p.Legal) {c : Char} (hc : c ∈ p.text) :
    c ≠ ',' ∧ Lib.isWhitespace c = false := by
  have hdecimal : ∀ {n : Nat} {c : Char}, c ∈ decimalOf n →
      c ≠ ',' ∧ Lib.isWhitespace c = false := by
    intro n c hc
    have hdigit := Nat.isDigit_of_mem_toDigits (by decide) (by decide) hc
    refine ⟨?_, (isDigit_facts hdigit).2.2⟩
    rintro rfl
    exact absurd hdigit (by decide)
  cases p with
  | one n => exact hdecimal hc
  | range lo dash hi =>
      rcases List.mem_append.1 hc with hc | hc
      · exact hdecimal hc
      · rcases List.mem_cons.1 hc with rfl | hc
        · have hdash := hp.2.2
          simp only [isDash, Bool.or_eq_true, beq_iff_eq] at hdash
          rcases hdash with rfl | rfl <;> decide
        · exact hdecimal hc

theorem parseU16_decimalOf {n : Nat} (hn : n ≤ 65535) : parseU16 (decimalOf n) = some n :=
  parseU16_eq_some_iff.2 ⟨isNumeral_decimalOf n, hn⟩

theorem isDash_of_mem_decimalOf {n : Nat} {c : Char} (hc : c ∈ decimalOf n) : isDash c = false :=
  ((isNumeral_decimalOf n).not_mem hc).1

/-- What the scan finds in the text of ports. -/
theorem portsCover_text {ps : List PortRange} (hne : ps ≠ []) (hps : ∀ p ∈ ps, p.Legal) (port : Nat) :
    portsCover (List.intercalate [','] (ps.map PortRange.text)) port =
      ps.any (PortRange.has port) := by
  have hcomma : ∀ part ∈ ps.map PortRange.text, ',' ∉ part := by
    intro part hpart hc
    obtain ⟨p, hp, rfl⟩ := List.mem_map.1 hpart
    exact (PortRange.not_mem_text (hps p hp) hc).1 rfl
  rw [portsCover, List.splitOn_intercalate _ hcomma (by simpa using hne), List.any_map,
    Bool.eq_iff_iff, List.any_eq_true, List.any_eq_true]
  apply exists_congr
  intro p
  apply and_congr_right
  intro hp
  have hlegal := hps p hp
  rw [Function.comp_apply, trim_eq_self fun c hc => (PortRange.not_mem_text hlegal hc).2]
  cases p with
  | one n =>
      have hnone : splitDash (decimalOf n) = none :=
        splitDash_eq_none_iff.2 fun c hc => isDash_of_mem_decimalOf hc
      simp only [PortRange.text, hnone, parseU16_decimalOf hlegal, PortRange.has]
      simp
  | range lo dash hi =>
      have hsome : splitDash (decimalOf lo ++ dash :: decimalOf hi) =
          some (decimalOf lo, decimalOf hi) :=
        splitDash_append (fun c hc => isDash_of_mem_decimalOf hc) hlegal.2.2
      simp only [PortRange.text, hsome, parseU16_decimalOf hlegal.1, parseU16_decimalOf hlegal.2.1,
        PortRange.has]

/-! ## Flags -/

theorem Flag.text_injective {f g : Flag} (h : f.text = g.text) : f = g := by
  cases f <;> cases g <;> first | rfl | exact absurd h (by decide)

theorem Flag.head?_text (f : Flag) : f.text.head? = some '-' := by
  cases f <;> rfl

theorem Flag.text_not_mem_skippedFlags (f : Flag) : f.text ∉ skippedFlags := by
  cases f <;> decide

theorem argOf_cons_self (flag v : Str) (t : List Str) : argOf flag (flag :: v :: t) = some v := by
  simp [argOf]

theorem argOf_cons_of_ne {flag w : Str} (h : w ≠ flag) (t : List Str) :
    argOf flag (w :: t) = argOf flag t := by
  rw [argOf, List.dropWhile_cons_of_pos (by simpa using h)]
  rfl

/-- The value of a flag that is given once, or not at all. -/
theorem argOf_flatMap {flag : Flag} {opts : List (Flag × Str)} {value : Option Str}
    (hvalue : ∀ o ∈ opts, o.2.head? ≠ some '-') (h : ∀ v, (flag, v) ∈ opts ↔ value = some v) :
    argOf flag.text (opts.flatMap fun o => [o.1.text, o.2]) = value := by
  have hfirst : ∀ v, (flag, v) ∈ opts → (∀ w, (flag, w) ∈ opts → w = v) →
      argOf flag.text (opts.flatMap fun o => [o.1.text, o.2]) = some v := by
    intro v hv hone
    clear h
    induction opts with
    | nil => simp at hv
    | cons o opts ih =>
        rw [List.flatMap_cons, List.cons_append, List.cons_append, List.nil_append]
        by_cases hflag : o.1 = flag
        · subst hflag
          rw [argOf_cons_self, hone o.2 (by simp)]
        · have hv' : (flag, v) ∈ opts := by
            refine (List.mem_cons.1 hv).resolve_left ?_
            rintro rfl
            exact hflag rfl
          have hne : o.2 ≠ flag.text := by
            intro heq
            exact hvalue o (by simp) (heq ▸ flag.head?_text)
          rw [argOf_cons_of_ne (fun heq => hflag (Flag.text_injective heq)), argOf_cons_of_ne hne]
          exact ih (fun o ho => hvalue o (by simp [ho])) hv' (fun w hw => hone w (by simp [hw]))
  cases value with
  | some v =>
      apply hfirst v ((h v).2 rfl)
      intro w hw
      exact (Option.some.inj ((h w).1 hw)).symm
  | none =>
      have hnot : ∀ w ∈ opts.flatMap fun o => [o.1.text, o.2], w ≠ flag.text := by
        intro w hw heq
        obtain ⟨o, ho, hw⟩ := List.mem_flatMap.1 hw
        rcases List.mem_cons.1 hw with rfl | hw
        · have hmem : (flag, o.2) ∈ opts := Flag.text_injective heq ▸ ho
          exact absurd ((h o.2).1 hmem) (by simp)
        · obtain rfl := List.mem_singleton.1 hw
          exact hvalue o ho (heq ▸ flag.head?_text)
      rw [argOf, List.dropWhile_eq_nil_iff.2 (by simpa using hnot)]
      rfl

/-! ## Rules -/

section ReadsRule

variable {t : List Str} {r : Rule} {portFlag : Flag} {command : Option Str} {extensions : List Str}
  {opts : List (Flag × Str)}

theorem ReadsRule.argOf (h : ReadsRule t r portFlag command extensions opts) (flag : Flag)
    {value : Option Str} (hflag : flag ≠ .extension)
    (hvalue : ∀ v, (flag, v) ∈ r.options portFlag ↔ value = some v) :
    Reach.argOf flag.text t = value := by
  have hopts : Reach.argOf flag.text (opts.flatMap fun o => [o.1.text, o.2]) = value := by
    apply argOf_flatMap h.value
    intro v
    rw [h.perm.mem_iff, List.mem_append, ← hvalue]
    constructor
    · rintro (hmem | hmem)
      · exact hmem
      · obtain ⟨m, -, heq⟩ := List.mem_map.1 hmem
        exact absurd (Prod.mk.inj heq).1.symm hflag
    · exact Or.inl
  rw [h.words]
  cases hcommand : command with
  | none => exact hopts
  | some c =>
      have hne : c ≠ flag.text := by
        rintro rfl
        exact (h.command _ hcommand).1 flag.head?_text
      rw [← hopts]
      exact argOf_cons_of_ne hne _

theorem ReadsRule.argOf_chain (h : ReadsRule t r portFlag command extensions opts) :
    Reach.argOf "-A".toList t = some r.chain := by
  refine h.argOf .append (by decide) ?_
  intro v
  rcases h.portFlag with rfl | rfl <;> simp [Rule.options, eq_comm]

theorem ReadsRule.argOf_jump (h : ReadsRule t r portFlag command extensions opts) :
    Reach.argOf "-j".toList t = some r.jump := by
  refine h.argOf .jump (by decide) ?_
  intro v
  rcases h.portFlag with rfl | rfl <;> simp [Rule.options, eq_comm]

theorem ReadsRule.argOf_iface (h : ReadsRule t r portFlag command extensions opts) :
    Reach.argOf "-i".toList t = r.iface := by
  refine h.argOf .iface (by decide) ?_
  intro v
  rcases h.portFlag with rfl | rfl <;> simp [Rule.options]

theorem ReadsRule.argOf_proto (h : ReadsRule t r portFlag command extensions opts) :
    Reach.argOf "-p".toList t = r.proto := by
  refine h.argOf .proto (by decide) ?_
  intro v
  rcases h.portFlag with rfl | rfl <;> simp [Rule.options]

/-- The text of the ports of a rule. -/
def portsText (r : Rule) : Option Str :=
  r.ports.map fun ps => List.intercalate [','] (ps.map PortRange.text)

theorem ReadsRule.argOf_ports (h : ReadsRule t r portFlag command extensions opts) :
    (Reach.argOf "--dport".toList t).or (Reach.argOf "--dports".toList t) = portsText r := by
  have hmine : Reach.argOf portFlag.text t = portsText r := by
    refine h.argOf portFlag ?_ ?_
    · rcases h.portFlag with rfl | rfl <;> decide
    · intro v
      rcases h.portFlag with rfl | rfl <;> simp [Rule.options, portsText]
  have hother : ∀ flag, flag = .dport ∨ flag = .dports → flag ≠ portFlag →
      Reach.argOf flag.text t = none := by
    intro flag hflag hne
    refine h.argOf flag ?_ ?_
    · rcases hflag with rfl | rfl <;> decide
    · intro v
      rcases hflag with rfl | rfl <;> simp [Rule.options, hne.symm]
  rcases h.portFlag with rfl | rfl
  · have hnone := hother .dports (Or.inr rfl) (by decide)
    rw [show "--dport".toList = Flag.dport.text from rfl, hmine,
      show "--dports".toList = Flag.dports.text from rfl, hnone, Option.or_none]
  · have hnone := hother .dport (Or.inl rfl) (by decide)
    rw [show "--dport".toList = Flag.dport.text from rfl, hnone,
      show "--dports".toList = Flag.dports.text from rfl, hmine, Option.none_or]

theorem ReadsRule.head_ne (h : ReadsRule t r portFlag command extensions opts) (chain : Str) :
    t.head?.bind (stripPrefix [':']) ≠ some chain := by
  have hcolon : ∀ w : Str, w.head? ≠ some ':' → stripPrefix [':'] w = none := by
    intro w hw
    rw [stripPrefix_eq_none_iff]
    rintro rest rfl
    exact hw rfl
  rw [h.words]
  cases hcommand : command with
  | some c => simp [hcolon c (h.command c hcommand).2.1]
  | none =>
      cases opts with
      | nil => simp
      | cons o opts => simp [hcolon o.1.text (by simp [Flag.head?_text])]

theorem ReadsRule.not_skipped (h : ReadsRule t r portFlag command extensions opts) :
    skippedFlags.any (t.contains ·) = false := by
  have hdash : ∀ w ∈ skippedFlags, w.head? = some '-' := by decide
  simp only [List.any_eq_false, List.contains_iff_mem]
  intro w hw hmem
  rw [h.words, List.mem_append] at hmem
  rcases hmem with hmem | hmem
  · exact (h.command w (Option.mem_toList.1 hmem)).1 (hdash w hw)
  · obtain ⟨o, ho, hmem⟩ := List.mem_flatMap.1 hmem
    rcases List.mem_cons.1 hmem with rfl | hmem
    · exact o.1.text_not_mem_skippedFlags hw
    · obtain rfl := List.mem_singleton.1 hmem
      exact h.value o ho (hdash _ hw)

end ReadsRule

theorem ruleMatches_eq {target : Str} {r : Rule} (h : r.Legal target) (proto : Str) (port : Nat) :
    ruleMatches r.proto (portsText r) proto port = r.covers proto port := by
  cases hports : r.ports with
  | none => cases hproto : r.proto <;> simp [ruleMatches, portsText, Rule.covers, hports, hproto]
  | some ps =>
      obtain ⟨hne, hps⟩ := h.ports ps hports
      simp [ruleMatches, portsText, Rule.covers, hports, portsCover_text hne hps]

/-! ## The answer -/

variable {rules chain target proto : Str} {port : Nat} {listing : List Entry}

theorem argOf_eq_none {flag : Str} {t : List Str} (h : ∀ w ∈ t, w ≠ flag) :
    argOf flag t = none := by
  rw [argOf, List.dropWhile_eq_nil_iff.2 (by simpa using h)]
  rfl

/-- What the scan does with one line. -/
theorem iptablesGo_cons {t : List Str} {e : Entry} (h : Reads target t e) (chain proto : Str)
    (port : Nat) (onlyOn : List Str) (rest : List (List Str)) :
    (e.Opens chain target proto port →
        iptablesGo chain target proto port onlyOn (t :: rest) = .yes) ∧
      (¬ e.Opens chain target proto port → ∃ onlyOn',
        iptablesGo chain target proto port onlyOn (t :: rest) =
          iptablesGo chain target proto port onlyOn' rest) := by
  cases h with
  | blank => exact ⟨False.elim, fun _ => ⟨onlyOn, by simp [iptablesGo, argOf]⟩⟩
  | filter =>
      refine ⟨False.elim, fun _ => ⟨onlyOn, ?_⟩⟩
      rw [iptablesGo, if_neg (by simp [stripPrefix]), if_pos (Or.inl (by simp [argOf]))]
  | commit =>
      refine ⟨False.elim, fun _ => ⟨onlyOn, ?_⟩⟩
      rw [iptablesGo, if_neg (by simp [stripPrefix]), if_pos (Or.inl (by simp [argOf]))]
  | @comment word ws hws =>
      have hnone : argOf "-A".toList (('#' :: word) :: ws) = none := by
        apply argOf_eq_none
        rw [List.forall_mem_cons]
        exact ⟨by simp, hws⟩
      refine ⟨False.elim, fun _ => ⟨onlyOn, ?_⟩⟩
      rw [iptablesGo, if_neg (by simp [stripPrefix]), if_pos (Or.inl (by rw [hnone]; simp))]
  | @policy c verdict counters hverdict hcounters =>
      have hhead : (((':' :: c) :: verdict :: counters).head?.bind (stripPrefix [':'])) = some c :=
        stripPrefix_append [':'] c
      by_cases hc : c = chain
      · subst hc
        rw [iptablesGo, if_pos hhead]
        refine ⟨fun hopens => if_pos (congrArg some hopens.2), fun hnot => ⟨onlyOn, if_neg ?_⟩⟩
        exact fun heq => hnot ⟨rfl, Option.some.inj heq⟩
      · -- the policy of another chain has no flag
        have hnone : argOf "-A".toList ((':' :: c) :: verdict :: counters) = none := by
          apply argOf_eq_none
          simp only [List.forall_mem_cons]
          refine ⟨by simp, ?_, ?_⟩
          · rintro rfl
            exact absurd hverdict (by decide)
          · rintro w hw rfl
            exact absurd (hcounters _ hw) (by decide)
        refine ⟨fun hopens => absurd hopens.1 hc, fun _ => ⟨onlyOn, ?_⟩⟩
        rw [iptablesGo, if_neg (by rw [hhead]; simpa using hc),
          if_pos (Or.inl (by rw [hnone]; simp))]
  | @rule t r portFlag command extensions opts hlegal hreads =>
      rw [iptablesGo, if_neg (hreads.head_ne chain), hreads.argOf_chain, hreads.argOf_jump,
        hreads.not_skipped, hreads.argOf_ports, hreads.argOf_proto, hreads.argOf_iface,
        ruleMatches_eq hlegal]
      constructor
      · rintro ⟨rfl, rfl, hcovers, hiface⟩
        simp [hcovers, hiface]
      · intro hnot
        split
        · exact ⟨onlyOn, rfl⟩
        · rename_i hgoes
          split
          · exact ⟨onlyOn, rfl⟩
          · split
            · exact ⟨onlyOn, rfl⟩
            · rename_i hcovers
              simp only [ne_eq, not_or, not_not, Option.some.injEq, Bool.not_eq_false]
                at hgoes hcovers
              cases hiface : r.iface with
              | none => exact absurd ⟨hgoes.1, hgoes.2, hcovers, hiface⟩ hnot
              | some iface =>
                  dsimp only
                  split
                  · exact ⟨onlyOn, rfl⟩
                  · exact ⟨onlyOn ++ [iface], rfl⟩

/-- The scan says yes exactly where a line opens the port by itself. -/
theorem iptablesGo_eq_yes_iff {ts : List (List Str)} (h : List.Forall₂ (Reads target) ts listing)
    (onlyOn : List Str) :
    iptablesGo chain target proto port onlyOn ts = .yes ↔
      HasOpening listing chain target proto port := by
  induction h generalizing onlyOn with
  | nil =>
      rw [iptablesGo]
      split <;> simp [HasOpening]
  | @cons t e ts listing hreads _ ih =>
      obtain ⟨hyes, hgo⟩ := iptablesGo_cons hreads chain proto port onlyOn ts
      by_cases hopens : e.Opens chain target proto port
      · rw [hyes hopens]
        exact ⟨fun _ => ⟨e, by simp, hopens⟩, fun _ => rfl⟩
      · obtain ⟨onlyOn', heq⟩ := hgo hopens
        rw [heq, ih onlyOn']
        simp [HasOpening, hopens]

theorem iptablesOpen_eq_yes_iff (h : IsRules rules target listing) :
    iptablesOpen rules chain target proto port = .yes ↔
      HasOpening listing chain target proto port :=
  iptablesGo_eq_yes_iff h []

/-- Packets are let in on every interface exactly where the chain is not shut. -/
theorem forall_letsIn_iff :
    (∀ iface, letsIn listing chain target proto port iface = true) ↔
      ¬ IsShut listing chain target proto port :=
  forall_firstMatch_iff

/-- For the target ACCEPT the scan errs on one side: with no line that opens the port, the chain is
shut. -/
theorem isShut_of_not_hasOpening (h : ¬ HasOpening listing chain "ACCEPT".toList proto port) :
    IsShut listing chain "ACCEPT".toList proto port := by
  have hpolicy : policyAccepts chain listing = false := by
    rw [policyAccepts, beq_eq_false_iff_ne]
    intro hlast
    obtain ⟨e, he, hsome⟩ := List.mem_filterMap.1 (List.mem_of_getLast? hlast)
    cases e with
    | frame => cases hsome
    | rule r => cases hsome
    | policy c verdict =>
        obtain ⟨hc, hverdict⟩ := Option.ite_none_right_eq_some.1 hsome
        exact h ⟨_, he, hc, Option.some.inj hverdict⟩
  have hrule : ∀ r ∈ rulesOf chain listing, r.covers proto port = true → r.iface = none →
      r.accepts "ACCEPT".toList = false := by
    intro r hr hcovers hiface
    obtain ⟨e, he, hsome⟩ := List.mem_filterMap.1 hr
    cases e with
    | frame => cases hsome
    | policy c verdict => cases hsome
    | rule r' =>
        obtain ⟨hchain, hr'⟩ := Option.ite_none_right_eq_some.1 hsome
        obtain rfl := Option.some.inj hr'
        have hjump : r'.jump ≠ "ACCEPT".toList :=
          fun hjump => h ⟨_, he, hchain, hjump, hcovers, hiface⟩
        rw [Rule.accepts, beq_eq_false_iff_ne.2 hjump]
        rfl
  rw [IsShut, hpolicy]
  exact blocked_of_not_opens hrule

/-- **What the answer is worth**: it is yes exactly where packets are let in on every interface, for
just those listings in which a line opens the port where the chain is not shut, and none does where
it is. -/
theorem iptablesOpen_iff (h : IsRules rules target listing) :
    (iptablesOpen rules chain target proto port = .yes ↔
        ∀ iface, letsIn listing chain target proto port iface = true) ↔
      (HasOpening listing chain target proto port ↔ ¬ IsShut listing chain target proto port) := by
  rw [iptablesOpen_eq_yes_iff h, forall_letsIn_iff]

/-- A listing with a rule for one port, and one that rejects the rest. -/
def rejecting (policy : String) : Str :=
  [":INPUT " ++ policy ++ " [0:0]", "-A INPUT -p tcp --dport 22 -j ACCEPT",
    "-A INPUT -j REJECT"].flatMap fun line => line.toList ++ ['\n']

/-- Its rule for one port. -/
def sshRule : Rule := ⟨"INPUT".toList, none, some "tcp".toList, some [.one 22], "ACCEPT".toList⟩

/-- Its rule for the rest. -/
def rejectRule : Rule := ⟨"INPUT".toList, none, none, none, "REJECT".toList⟩

/-- What the listing says. -/
def rejectingEntries (policy : String) : List Entry :=
  [.policy "INPUT".toList policy.toList, .rule sshRule, .rule rejectRule]

theorem isRules_rejecting {policy : String} (hpolicy : policy = "ACCEPT" ∨ policy = "DROP") :
    IsRules (rejecting policy) "ACCEPT".toList (rejectingEntries policy) := by
  have hwords : (lines (rejecting policy)).map words =
      [[":INPUT".toList, policy.toList, "[0:0]".toList],
        ["-A".toList, "INPUT".toList, "-p".toList, "tcp".toList, "--dport".toList, "22".toList,
          "-j".toList, "ACCEPT".toList],
        ["-A".toList, "INPUT".toList, "-j".toList, "REJECT".toList]] := by
    rcases hpolicy with rfl | rfl <;> decide +kernel
  rw [IsRules, hwords]
  refine .cons ?_ (.cons ?_ (.cons ?_ .nil))
  · apply Reads.policy
    · rcases hpolicy with rfl | rfl <;> decide
    · decide
  · have hlegal : sshRule.Legal "ACCEPT".toList := by
      refine ⟨by decide, ?_, ?_, ?_⟩
      · rintro ps ⟨⟩
        exact ⟨by simp, by simp [PortRange.Legal]⟩
      · rintro i ⟨⟩
      · rintro p ⟨⟩
        decide
    refine .rule hlegal (?_ : ReadsRule _ _ .dport none [] [(.append, "INPUT".toList),
      (.proto, "tcp".toList), (.dport, "22".toList), (.jump, "ACCEPT".toList)])
    exact ⟨rfl, by decide +kernel, Or.inl rfl, by simp, by decide, by simp⟩
  · have hlegal : rejectRule.Legal "ACCEPT".toList := by
      refine ⟨by decide, ?_, ?_, ?_⟩ <;> rintro _ ⟨⟩
    refine .rule hlegal (?_ : ReadsRule _ _ .dport none [] [(.append, "INPUT".toList),
      (.jump, "REJECT".toList)])
    exact ⟨rfl, by decide, Or.inl rfl, by simp, by decide, by simp⟩

/-- With a policy that drops, the answer for the port of the rule is right. -/
theorem iptablesOpen_iff_dropping :
    iptablesOpen (rejecting "DROP") "INPUT".toList "ACCEPT".toList "tcp".toList 22 = .yes ↔
      ∀ iface, letsIn (rejectingEntries "DROP") "INPUT".toList "ACCEPT".toList "tcp".toList 22
        iface = true := by
  refine (iptablesOpen_iff (isRules_rejecting (Or.inr rfl))).2 (iff_of_true ?_ ?_)
  · exact ⟨.rule sshRule, by simp [rejectingEntries], rfl, rfl, by decide, rfl⟩
  · rw [← forall_letsIn_iff]
    intro iface
    rfl

/-- A policy that accepts hides a rule that rejects. -/
theorem iptablesOpen_rejecting :
    IsRules (rejecting "ACCEPT") "ACCEPT".toList (rejectingEntries "ACCEPT") ∧
      iptablesOpen (rejecting "ACCEPT") "INPUT".toList "ACCEPT".toList "tcp".toList 8765 = .yes ∧
        ∀ iface, letsIn (rejectingEntries "ACCEPT") "INPUT".toList "ACCEPT".toList "tcp".toList 8765
          iface = false := by
  refine ⟨isRules_rejecting (Or.inl rfl), by decide +kernel, ?_⟩
  intro iface
  rfl

end DialF.Reach
