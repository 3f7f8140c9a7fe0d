import DialF.Lib.Spaced
import DialF.Reach.Iptables

/-!
# Reading an nft ruleset

`nft_open` of `reachability.rs` goes through the lines of a ruleset: one with an `accept`, and with
the port between `dport` and it, opens the port. Where no line does, the port is shut if anything is
dropped or rejected.

A ruleset is read here line by line (`IsRuleset`), as the beginnings and ends of its blocks and the
rules in them. `LetsIn` is what has to be so where the answer is yes: no chain of the input turns
anything away, or an accept rule that is limited neither to an interface nor to sources covers the
port. `HasOpening` is what the scan finds in the rules, and `Misread` where it goes wrong.
-/

set_option autoImplicit false

namespace DialF.Reach

open DialF.Lib DialF.Share

/-! ## The scan -/

/-- `MDNS_PORT`. -/
def mdnsPort : Nat := 5353

/-- A port, by its name or its number. -/
def named (w : Str) : Option Nat := if w = "mdns".toList then some mdnsPort else parseU16 w

/-- A word is the port, or a range with it. -/
def wordCovers (port : Nat) (w : Str) : Bool :=
  match splitOnce ['-'] w with
  | some (lo, hi) =>
      match named lo, named hi with
      | some lo, some hi => decide (lo ≤ port ∧ port ≤ hi)
      | _, _ => false
  | none => named w == some port

/-- A line without its comment. -/
def uncommented (line : Str) : Str := line.takeWhile (· != '#')

/-- What stands between the ports of a rule. -/
def isPortSep (c : Char) : Bool := c == ',' || c == ' '

/-- A brace is read as a blank. -/
def unbrace (c : Char) : Char := if c = '{' ∨ c = '}' then ' ' else c

/-- The words of a specification of ports. -/
def specWords (spec : Str) : List Str :=
  ((spec.map unbrace).splitOnP isPortSep).filter (· ≠ [])

/-- Up to the next `accept`, a word is the port, or a range with it. -/
def specCovers (port : Nat) (rest : Str) : Bool :=
  (specWords (((splitOnce "accept".toList rest).map Prod.fst).getD rest)).any (wordCovers port)

/-- The line is taken for a rule that accepts the port. -/
def acceptHit (proto : Str) (port : Nat) (line : Str) : Bool :=
  hasText "accept".toList (uncommented line) &&
    match (splitOnce (proto ++ " dport".toList) (uncommented line)).or
        (splitOnce "th dport".toList (uncommented line)) with
    | none => false
    | some (_, rest) => specCovers port rest

/-- The line is taken for one that drops or rejects. -/
def dropHit (line : Str) : Bool :=
  let l := trim (uncommented line)
  l == "drop".toList || l == "reject".toList || " drop".toList.isSuffixOf l ||
    hasText " reject".toList l

/-- Something is taken to be dropped or rejected. -/
def restrictive (conf : Str) : Bool :=
  hasText "policy drop".toList conf || (lines conf).any dropHit

/-- Does an nftables config accept `proto`/`port`? -/
def nftOpen (conf proto : Str) (port : Nat) : Open :=
  if (lines conf).any (acceptHit proto port) then .yes
  else if restrictive conf then .no
  else .yes

/-! ## Rules -/

/-- The protocols that have ports. -/
def portProtocols : List Str :=
  ["tcp".toList, "udp".toList, "sctp".toList, "dccp".toList, "udplite".toList]

/-- What stands around the values of a set. -/
def isSetMark (c : Char) : Bool := c == ',' || c == '{' || c == '}'

/-- The values in a word: those between the marks of a set. -/
def valuesIn (w : Str) : List Str := (w.splitOnP isSetMark).filter (· ≠ [])

/-- A port of a rule, as it is written. -/
inductive NftPort where
  | one (n : Nat)
  | range (lo hi : Nat)
  /-- A service, or a set that has a name. -/
  | name (w : Str)
  deriving DecidableEq

namespace NftPort

/-- How it is written. -/
def text : NftPort → Str
  | one n => decimalOf n
  | range lo hi => decimalOf lo ++ '-' :: decimalOf hi
  | name w => w

/-- A packet to the port is meant. `mdns` is a port everywhere; what other names mean, `meaning`
says. -/
def has (meaning : Str → Nat → Bool) (port : Nat) : NftPort → Bool
  | one n => n == port
  | range lo hi => decide (lo ≤ port ∧ port ≤ hi)
  | name w => if w = "mdns".toList then port == mdnsPort else meaning w port

/-- The scan knows that the port is meant: it knows no name but `mdns`. -/
def isRead (port : Nat) (p : NftPort) : Bool := p.has (fun _ _ => false) port

/-- The ends are ports. A name is no number, and no range from a number or from `mdns`. -/
def Legal : NftPort → Prop
  | one n => n ≤ 65535
  | range lo hi => lo ≤ 65535 ∧ hi ≤ 65535
  | name w => (∃ c ∈ w.head?, c.isDigit = false ∧ c ≠ '+') ∧ ¬ "mdns-".toList <+: w

instance : ∀ p : NftPort, Decidable p.Legal
  | one _ => inferInstanceAs (Decidable (_ ≤ _))
  | range _ _ => inferInstanceAs (Decidable (_ ∧ _))
  | name w =>
      @instDecidableAnd _ _
        (Option.decidableExistsMem (p := fun c => c.isDigit = false ∧ c ≠ '+') w.head?) _

end NftPort

/-- A word in which the scan finds nothing by itself: without a comment and without an `accept`, at
the start no `dport` and at the end no `policy`. -/
def Quiet (w : Str) : Prop :=
  IsWord w ∧ '#' ∉ w ∧ ¬ "accept".toList <:+: w ∧ ¬ "dport".toList <+: w ∧
    ¬ "policy".toList <:+ w

instance (w : Str) : Decidable (Quiet w) := inferInstanceAs (Decidable (_ ∧ _ ∧ ¬ _ ∧ ¬ _ ∧ ¬ _))

/-- The words that say what a rule or a line is. -/
def keyWords : List Str :=
  ["drop".toList, "drop;".toList, "reject".toList, "reject;".toList, "hook".toList, "chain".toList,
    "table".toList, "rule".toList]

/-- A quiet word that is none of them. -/
def Plain (w : Str) : Prop := Quiet w ∧ w ∉ keyWords

instance (w : Str) : Decidable (Plain w) := inferInstanceAs (Decidable (_ ∧ _))

/-- The ports that a rule is for: those that are listed, or all the others. -/
structure Dport where
  /-- A protocol, or `th` for all that have ports. -/
  proto : Str
  others : Bool
  ports : List NftPort
  /-- As they are written: one, or a set in braces. -/
  text : List Str
  deriving DecidableEq

namespace Dport

/-- The words behind `dport`. -/
def spec (d : Dport) : List Str := (if d.others then ["!=".toList] else []) ++ d.text

/-- The ports of this protocol are meant. -/
def IsFor (proto : Str) (d : Dport) : Prop := d.proto = proto ∨ d.proto = "th".toList

instance (proto : Str) (d : Dport) : Decidable (d.IsFor proto) :=
  inferInstanceAs (Decidable (_ ∨ _))

/-- A packet of this protocol to this port is meant. -/
def covers (meaning : Str → Nat → Bool) (proto : Str) (port : Nat) (d : Dport) : Bool :=
  decide (d.IsFor proto) && (d.ports.any (NftPort.has meaning port)) != d.others

/-- The text is that of the ports. -/
def Legal (d : Dport) : Prop :=
  d.proto ∈ "th".toList :: portProtocols ∧ d.text ≠ [] ∧ (∀ w ∈ d.text, Plain w) ∧
    d.text.flatMap valuesIn = d.ports.map NftPort.text ∧ ∀ p ∈ d.ports, p.Legal

instance (d : Dport) : Decidable d.Legal := inferInstanceAs (Decidable (_ ∧ _ ∧ _ ∧ _ ∧ _))

end Dport

/-- A condition of a rule other than its ports, or what it does besides its verdict. -/
inductive NftMatch where
  /-- The protocol is one of the values, or none of them: `meta l4proto { tcp, udp }`. -/
  | proto (key : List Str) (others : Bool) (values : List Str)
  /-- Any other condition: `iifname "wg0"`, `ip saddr 10.0.0.0/8`, `ct state new`. -/
  | condition (words : List Str)
  /-- What holds of every packet: `counter`. -/
  | action (words : List Str)
  deriving DecidableEq

namespace NftMatch

/-- The words that ask for the protocol. -/
def protoKeys : List (List Str) :=
  [["meta".toList, "l4proto".toList], ["ip".toList, "protocol".toList],
    ["ip6".toList, "nexthdr".toList]]

/-- How it is written. -/
def words : NftMatch → List Str
  | proto key others values => key ++ (if others then ["!=".toList] else []) ++ values
  | condition words => words
  | action words => words

/-- The words that ask for the interface or for the source of a packet. -/
def limitWords : List Str :=
  ["iif".toList, "iifname".toList, "iifgroup".toList, "iiftype".toList, "saddr".toList]

/-- The rule is limited to interfaces or to sources. -/
def isLimit (m : NftMatch) : Bool := m.words.any (limitWords.contains ·)

/-- Packets of the protocol meet the condition, as far as it asks for one. -/
def fits (protocol : Str) : NftMatch → Bool
  | proto _ others values => (values.flatMap valuesIn).contains protocol != others
  | condition _ => true
  | action _ => true

/-- No packet of the protocol is left out. -/
def isOpen (protocol : Str) : NftMatch → Bool
  | proto key others values => (proto key others values).fits protocol
  | condition _ => false
  | action _ => true

/-- It is what it is given as. -/
def Legal : NftMatch → Prop
  | proto key _ values => key ∈ protoKeys ∧ ∀ w ∈ values, Plain w
  | condition words =>
      ∀ w ∈ words, Plain w ∧ w ∉ ["l4proto".toList, "protocol".toList, "nexthdr".toList]
  | action words =>
      (∀ w ∈ words, Plain w) ∧
        (words.head? = some "counter".toList ∨ words.head? = some "log".toList)

instance : ∀ m : NftMatch, Decidable m.Legal
  | proto _ _ _ => inferInstanceAs (Decidable (_ ∧ _))
  | condition words => inferInstanceAs (Decidable (∀ w ∈ words, _ ∧ _))
  | action _ => inferInstanceAs (Decidable (_ ∧ _))

end NftMatch

/-- The verdicts by which a rule ends the way of a packet through a chain. -/
inductive NftVerdict where
  | accept
  | drop
  | reject
  deriving DecidableEq

/-- How it is written. -/
def NftVerdict.text : NftVerdict → Str
  | accept => "accept".toList
  | drop => "drop".toList
  | reject => "reject".toList

/-- A rule: what stands before its ports and behind them, its verdict if it has one of the three,
with a semicolon or not, and what stands behind that. -/
structure NftRule where
  front : List NftMatch
  dport : Option Dport
  back : List NftMatch
  verdict : Option NftVerdict
  semicolon : Bool
  behind : List Str
  deriving DecidableEq

namespace NftRule

variable (r : NftRule)

/-- The words from the protocol of the ports on. -/
def dportWords : List Str :=
  match r.dport with
  | some d => d.proto :: "dport".toList :: d.spec
  | none => []

/-- The word of the verdict, with its semicolon. -/
def verdictWords : List Str :=
  match r.verdict with
  | some v => [v.text ++ (if r.semicolon then [';'] else [])]
  | none => []

/-- The words of the rule, in their order. -/
def words : List Str :=
  r.front.flatMap NftMatch.words ++ r.dportWords ++ r.back.flatMap NftMatch.words ++
    r.verdictWords ++ r.behind

/-- The rule is limited to interfaces or to sources, wherever it says so. -/
def isLimited : Bool := (r.front ++ r.back).any NftMatch.isLimit

/-- The rule is for packets to the port: it names the port, or it names none and leaves out no
packet of the protocol. -/
def covers (meaning : Str → Nat → Bool) (proto : Str) (port : Nat) : Bool :=
  match r.dport with
  | some d => d.covers meaning proto port && (r.front ++ r.back).all (NftMatch.fits proto)
  | none => (r.front ++ r.back).all fun m => m.isOpen proto || m.isLimit

/-- The rule accepts packets to the port. -/
def Accepts (meaning : Str → Nat → Bool) (proto : Str) (port : Nat) : Prop :=
  r.verdict = some .accept ∧ r.covers meaning proto port = true

instance (meaning : Str → Nat → Bool) (proto : Str) (port : Nat) :
    Decidable (r.Accepts meaning proto port) :=
  inferInstanceAs (Decidable (_ ∧ _))

/-- A rule with one verdict at most and with its ports in one place. -/
def Legal : Prop :=
  (∀ m ∈ r.front ++ r.back, m.Legal) ∧ (∀ d ∈ r.dport, d.Legal) ∧
    (r.dport = none → r.back = []) ∧ (∀ w ∈ r.behind, Quiet w) ∧
      (r.verdict = none → r.behind = [])

instance : Decidable r.Legal := inferInstanceAs (Decidable (_ ∧ _ ∧ _ ∧ _ ∧ _))

end NftRule

/-! ## Rulesets -/

/-- A part of a ruleset. -/
inductive Piece where
  /-- `table inet filter {`. -/
  | table (words : List Str)
  /-- `chain input {`. -/
  | chain (name : Str)
  /-- Another block in a table: `set allowed {`. -/
  | block (words : List Str)
  | close
  /-- Where a chain is called from: `type filter hook input priority 0;`. -/
  | hook (front : List Str) (name : Str) (back : List Str)
  /-- `policy drop;` or `policy accept;`. -/
  | policy (drops semicolon : Bool)
  | rule (r : NftRule)
  /-- Anything else that is no rule. -/
  | other (words : List Str)
  deriving DecidableEq

namespace Piece

/-- How it is written. -/
def words : Piece → List Str
  | table words => "table".toList :: (words ++ ["\x7b".toList])
  | chain name => ["chain".toList, name, "\x7b".toList]
  | block words => words ++ ["\x7b".toList]
  | close => ["\x7d".toList]
  | hook front name back => front ++ "hook".toList :: name :: back
  | policy drops semicolon =>
      ["policy".toList, (if drops then "drop".toList else "accept".toList) ++
        (if semicolon then [';'] else [])]
  | rule r => r.words
  | other words => words

/-- The words that it is free in are plain. -/
def Legal : Piece → Prop
  | table words => ∀ w ∈ words, Plain w
  | chain name => Plain name
  | block words => ∀ w ∈ words, Plain w
  | close => True
  | hook front name back => ∀ w ∈ front ++ name :: back, Plain w
  | policy _ _ => True
  | rule r => r.Legal
  | other words => ∀ w ∈ words, Plain w

instance : ∀ p : Piece, Decidable p.Legal
  | table words => inferInstanceAs (Decidable (∀ w ∈ words, _))
  | chain _ => inferInstanceAs (Decidable (Plain _))
  | block words => inferInstanceAs (Decidable (∀ w ∈ words, _))
  | close => inferInstanceAs (Decidable True)
  | hook front name back => inferInstanceAs (Decidable (∀ w ∈ front ++ name :: back, _))
  | policy _ _ => inferInstanceAs (Decidable True)
  | rule r => inferInstanceAs (Decidable r.Legal)
  | other words => inferInstanceAs (Decidable (∀ w ∈ words, _))

/-- Packets are turned away by it: by a rule, or by a policy where no rule has decided. -/
def turnsAway : Piece → Bool
  | policy drops _ => drops
  | rule r => r.verdict == some .drop || r.verdict == some .reject
  | _ => false

/-- It is a rule. -/
def isRule : Piece → Bool
  | rule _ => true
  | _ => false

/-- The chain is one of the input. -/
def hooksInput : Piece → Bool
  | hook _ name _ => name == "input".toList
  | _ => false

end Piece

/-- A ruleset, by its lines. -/
abbrev Ruleset := List (List Piece)

/-- The words of a line. -/
def lineWords (line : List Piece) : List Str := line.flatMap Piece.words

/-- The parts of a line; a rule stands on a line of its own. -/
def LegalLine (line : List Piece) : Prop :=
  (∀ p ∈ line, p.Legal) ∧ ∀ p ∈ line, p.isRule = true → line = [p]

instance (line : List Piece) : Decidable (LegalLine line) := inferInstanceAs (Decidable (_ ∧ _))

/-- The text of a line: its words, with white space around them and a comment behind. -/
structure ReadsLine (text : Str) (line : List Piece) : Prop where
  legal : LegalLine line
  text : ∃ indent gap comment, (∀ c ∈ indent ++ gap, isWhitespace c = true) ∧
    (comment = [] ∨ ∃ rest, comment = '#' :: rest) ∧ ¬ "policy drop".toList <:+: comment ∧
      text = indent ++ spaced (lineWords line) ++ gap ++ comment

/-- The text is that of the ruleset. -/
def IsRuleset (conf : Str) (ruleset : Ruleset) : Prop :=
  List.Forall₂ ReadsLine (lines conf) ruleset

/-! ## What they say -/

namespace Ruleset

/-- The parts with the table and the chain that they stand in. -/
def located (table : List Str) (chain : Option Str) :
    List Piece → List ((List Str × Option Str) × Piece)
  | [] => []
  | .table words :: rest => located words none rest
  | .chain name :: rest => located table (some name) rest
  | .block _ :: rest => located table none rest
  | .close :: rest => located table none rest
  | p :: rest => ((table, chain), p) :: located table chain rest

variable (ruleset : Ruleset)

/-- A chain of the input drops or rejects something. -/
def InputRestrictive : Prop :=
  ∃ e ∈ located [] none ruleset.flatten, e.2.turnsAway = true ∧
    ∃ h ∈ located [] none ruleset.flatten, h.2.hooksInput = true ∧ h.1 = e.1

instance : Decidable ruleset.InputRestrictive :=
  inferInstanceAs (Decidable (∃ e ∈ _, _ ∧ ∃ h ∈ _, _ ∧ _))

/-- The rules. -/
def rules : List NftRule :=
  ruleset.flatten.filterMap fun
    | .rule r => some r
    | _ => none

/-- What has to be so where the answer is yes: the chains of the input turn nothing away, or a rule
accepts packets to the port on every interface and from every source. -/
def LetsIn (meaning : Str → Nat → Bool) (proto : Str) (port : Nat) : Prop :=
  ¬ ruleset.InputRestrictive ∨
    ∃ r ∈ ruleset.rules, r.Accepts meaning proto port ∧ r.isLimited = false

instance (meaning : Str → Nat → Bool) (proto : Str) (port : Nat) :
    Decidable (ruleset.LetsIn meaning proto port) :=
  inferInstanceAs (Decidable (_ ∨ ∃ r ∈ ruleset.rules, _ ∧ _))

/-- The input turns packets away, and every rule that accepts packets to the port is limited. -/
structure Shut (meaning : Str → Nat → Bool) (proto : Str) (port : Nat) : Prop where
  restrictive : ruleset.InputRestrictive
  limited : ∀ r ∈ ruleset.rules, r.Accepts meaning proto port → r.isLimited = true

end Ruleset

/-! ## What the scan finds -/

/-- The rule is taken for one that opens the port: it accepts, its ports are those of the protocol,
and the port is among them or stands somewhere behind them. -/
def NftRule.ReadsOpen (proto : Str) (port : Nat) (r : NftRule) : Prop :=
  r.verdict = some .accept ∧ ∃ d ∈ r.dport, d.IsFor proto ∧
    (d.ports.any (NftPort.isRead port) = true ∨
      ((r.back.flatMap NftMatch.words).flatMap valuesIn).any (wordCovers port) = true)

/-- The ways in which a rule that does not open the port is taken for one that does. -/
inductive NftRule.Misled (proto : Str) (port : Nat) (r : NftRule) : Prop where
  /-- It is limited to interfaces or to sources. -/
  | limited {d : Dport} : r.verdict = some .accept → d ∈ r.dport → d.IsFor proto →
      d.ports.any (NftPort.isRead port) = true → r.isLimited = true → NftRule.Misled proto port r
  /-- It is for all other ports. -/
  | others {d : Dport} : r.verdict = some .accept → d ∈ r.dport → d.IsFor proto →
      d.ports.any (NftPort.isRead port) = true → d.others = true → NftRule.Misled proto port r
  /-- It is for other protocols. -/
  | proto {d : Dport} {m : NftMatch} : r.verdict = some .accept → d ∈ r.dport → d.IsFor proto →
      d.ports.any (NftPort.isRead port) = true → m ∈ r.front ++ r.back → m.fits proto = false →
        NftRule.Misled proto port r
  /-- A number behind its ports is taken for one of them. -/
  | number {d : Dport} {w : Str} : r.verdict = some .accept → d ∈ r.dport → d.IsFor proto →
      w ∈ (r.back.flatMap NftMatch.words).flatMap valuesIn → wordCovers port w = true →
        NftRule.Misled proto port r

/-- The words of a line say to the scan that packets are turned away: it ends in `drop`, it is a
`reject`, or a word behind its first one starts with that. -/
def InSight (ws : List Str) : Prop :=
  ws.getLast? = some "drop".toList ∨ ws = ["reject".toList] ∨
    ∃ w ∈ ws.tail, "reject".toList <+: w

instance (ws : List Str) : Decidable (InSight ws) := inferInstanceAs (Decidable (_ ∨ _ ∨ _))

namespace Ruleset

variable (ruleset : Ruleset)

/-- The scan sees nothing that turns packets away. -/
def Silent : Prop :=
  (∀ p ∈ ruleset.flatten, ∀ semicolon, p ≠ .policy true semicolon) ∧
    ∀ line ∈ ruleset, ¬ InSight (lineWords line)

/-- The scan finds that the port is open. -/
def HasOpening (proto : Str) (port : Nat) : Prop :=
  (∃ r ∈ ruleset.rules, r.ReadsOpen proto port) ∨ ruleset.Silent

/-- **Where the scan goes wrong**: the port is shut, and a rule misleads it or it sees nothing that
turns packets away. -/
def Misread (meaning : Str → Nat → Bool) (proto : Str) (port : Nat) : Prop :=
  ruleset.Shut meaning proto port ∧
    ((∃ r ∈ ruleset.rules, r.Misled proto port) ∨ ruleset.Silent)

end Ruleset

end DialF.Reach
