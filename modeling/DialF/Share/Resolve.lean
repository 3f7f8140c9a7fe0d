import Mathlib.Data.List.Destutter
import DialF.Share.Adb
import DialF.Share.Handshake
import DialF.Share.Start

/-!
# Resolving a share

`ShareConfig::resolve`: the settings of a share, from a config file or a request, become the shape
that the listener runs from, or an error that says which setting is wrong. The parser of addresses
and the token that is minted are parameters.

A forward port is a number, or a text with a port or a range in it. Which texts cover which ports,
and what the ports of a resolved share are, is said in `DialF.Share.ForwardPorts`.
-/

set_option autoImplicit false

namespace DialF.Share

open DialF.Lib

/-- `IpAddr`. -/
inductive IpAddr where
  | v4 (a b c d : UInt8)
  | v6 (segments : Vector UInt16 8)
  deriving DecidableEq

/-- `127.0.0.0/8`, or `::1`. -/
def IpAddr.isLoopback : IpAddr → Bool
  | .v4 a _ _ _ => a == 127
  | .v6 segments => segments == #v[0, 0, 0, 0, 0, 0, 0, 1]

/-- The address as a number, those of either family apart. -/
def IpAddr.toNat : IpAddr → Nat
  | .v4 a b c d => ((a.toNat * 256 + b.toNat) * 256 + c.toNat) * 256 + d.toNat
  | .v6 segments => segments.foldl (fun n s => n * 65536 + s.toNat) 1

/-- An address to bind, as it is parsed. -/
structure BindAddr where
  ip : IpAddr
  port : UInt16
  deriving DecidableEq

/-- `Upstream`. -/
inductive Upstream where
  | tcp (addr : Str)
  | unix (path : Str)
  deriving DecidableEq

/-- `Profile`. -/
inductive Profile where
  | adb
  deriving DecidableEq

namespace Profile

/-- `Profile::as_str`. -/
def asStr : Profile → Str
  | .adb => profile

/-- `Profile::default_upstream`. -/
def defaultUpstream : Profile → Upstream
  | .adb => .tcp "127.0.0.1:5037".toList

/-- `Profile::default_port`. -/
def defaultPort : Profile → Nat
  | .adb => 5939

end Profile

/-- A `--forward-port` value. -/
inductive PortSpec where
  | port (p : UInt16)
  | range (s : Str)
  deriving DecidableEq

/-- The settings that `resolve` reads. -/
structure ShareConfig where
  bind : Option Str
  upstream : Option Str
  targets : List Str
  all : Bool
  expireAfter : Int64
  forwardPorts : List PortSpec
  deriving DecidableEq

/-- A share with its settings resolved. -/
structure Resolved where
  profile : Profile
  bind : BindAddr
  upstream : Upstream
  targets : Targets
  token : Option Str
  /-- In seconds. -/
  expiresAfter : Option Nat
  forwardPorts : List Nat
  deriving DecidableEq

/-! ## Errors -/

/-- What is wrong with a text of ports. -/
inductive PortError where
  | notANumber (part spec : Str)
  | zero (spec : Str)
  | backwards (spec : Str)
  | tooWide (spec : Str) (span : Nat)
  deriving DecidableEq

/-- What is wrong with an upstream. -/
inductive UpstreamError where
  | noAddress (s : Str)
  | noPort (s : Str)
  | noPath (s : Str)
  | noScheme (s : Str)
  deriving DecidableEq

/-- What is wrong with the targets. -/
inductive TargetsError where
  | both
  | none
  deriving DecidableEq

/-- What is wrong with a share. -/
inductive ResolveError where
  | bind (s : Str)
  | upstream (e : UpstreamError)
  | targets (e : TargetsError)
  | port (e : PortError)
  | ownPort (port : Nat)
  | zeroPort
  | loopback (bind : BindAddr)
  deriving DecidableEq

/-- Most ports one `--forward-port` may open. -/
def maxForwardSpan : Nat := 64

/-- A number in decimal. -/
def decimalOf (n : Nat) : Str := Nat.toDigits 10 n

/-- The text of an error about ports. -/
def PortError.text : PortError → Str
  | .notANumber part spec => "port `".toList ++ part ++ "` in `".toList ++ spec ++ "`".toList
  | .zero spec => "0 is not a port (`".toList ++ spec ++ "`)".toList
  | .backwards spec => "port range `".toList ++ spec ++ "` runs backwards".toList
  | .tooWide spec span =>
      "port range `".toList ++ spec ++ "` covers ".toList ++ decimalOf span ++ " ports; ".toList ++
        decimalOf maxForwardSpan ++ " is the most".toList

/-- The text of an error about the upstream. -/
def UpstreamError.text : UpstreamError → Str
  | .noAddress s => "upstream `".toList ++ s ++ "` has no address after `tcp:`".toList
  | .noPort s => "upstream `".toList ++ s ++ "` needs a port, e.g. tcp:127.0.0.1:5037".toList
  | .noPath s => "upstream `".toList ++ s ++ "` has no path after `unix:`".toList
  | .noScheme s => "upstream `".toList ++ s ++ "` must start with `tcp:` or `unix:`".toList

/-- The text of an error about the targets. -/
def TargetsError.text : TargetsError → Str
  | .both => "set either `all: true` or `targets:`, not both".toList
  | .none =>
      ("no devices named — list serials under `targets:` (or set `all: true`); " ++
        "`dialf devices share --list` shows what is attached").toList

section Text

variable (showAddr : BindAddr → Str)

/-- The text of an error of `resolve`. -/
def ResolveError.text : ResolveError → Str
  | .bind s => "parse share bind `".toList ++ s ++ "` (want host:port)".toList
  | .upstream e => e.text
  | .targets e => e.text
  | .port e => e.text
  | .ownPort p =>
      "forward port ".toList ++ decimalOf p ++ " is the share's own port — pick another".toList
  | .zeroPort => "0 is not a forward port".toList
  | .loopback addr =>
      "--forward-port needs a network bind (".toList ++ showAddr addr ++
        (" is loopback) — the tunnel port is already on 127.0.0.1 there; reach it with " ++
          "`ssh -L <port>:127.0.0.1:<port>`").toList

end Text

/-! ## Ports -/

/-- `str::parse::<u16>`: digits, behind a plus sign or not. -/
def parseU16 (s : Str) : Option Nat :=
  let digits := (stripPrefix ['+'] s).getD s
  if digits = [] ∨ ¬ digits.all Char.isDigit then none
  else
    let n := Nat.ofDigitChars 10 digits 0
    if n ≤ 65535 then some n else none

/-- What separates the ends of a range. -/
def isDash (c : Char) : Bool := c == '-' || c == ':'

/-- `split_once` at the first dash or colon. -/
def splitDash (s : Str) : Option (Str × Str) :=
  match s.dropWhile fun c => !isDash c with
  | [] => none
  | _ :: rest => some (s.takeWhile fun c => !isDash c, rest)

/-- Parse `27183`, `27183-27199` or `27183:27199` into the ports it covers. -/
def parsePortSpec (spec : Str) : Except PortError (List Nat) :=
  let spec := trim spec
  let (lo, hi) :=
    match splitDash spec with
    | some (a, b) => (trim a, trim b)
    | none => (spec, spec)
  match parseU16 lo with
  | none => .error (.notANumber lo spec)
  | some l =>
      match parseU16 hi with
      | none => .error (.notANumber hi spec)
      | some h =>
          if l = 0 ∨ h = 0 then .error (.zero spec)
          else if h < l then .error (.backwards spec)
          else if maxForwardSpan < h - l + 1 then .error (.tooWide spec (h - l + 1))
          else .ok (List.range' l (h - l + 1))

/-- The ports this spec covers. -/
def PortSpec.expand : PortSpec → Except PortError (List Nat)
  | .port p => parsePortSpec (decimalOf p.toNat)
  | .range s => parsePortSpec s

/-- The ports of the specs one after the other, up to the first that is wrong. -/
def expandAll : List PortSpec → Except PortError (List Nat)
  | [] => .ok []
  | spec :: specs =>
      match spec.expand with
      | .error e => .error e
      | .ok ports =>
          match expandAll specs with
          | .error e => .error e
          | .ok rest => .ok (ports ++ rest)

/-! ## Resolving -/

/-- `Upstream::from_str`. -/
def parseUpstream (s : Str) : Except UpstreamError Upstream :=
  let s := trim s
  match stripPrefix "tcp:".toList s with
  | some rest =>
      if rest = [] then .error (.noAddress s)
      else if ':' ∉ rest then .error (.noPort s)
      else .ok (.tcp rest)
  | none =>
      match stripPrefix "unix:".toList s with
      | some rest => if rest = [] then .error (.noPath s) else .ok (.unix rest)
      | none => .error (.noScheme s)

namespace ShareConfig

/-- Which devices to expose, refusing the ambiguous "none named, none allowed" case. -/
def resolveTargets (cfg : ShareConfig) : Except TargetsError Targets :=
  let named := (cfg.targets.map trim).filter fun s => !s.isEmpty
  match cfg.all, named.isEmpty with
  | true, true => .ok .all
  | true, false => .error .both
  | false, false => .ok (.only named)
  | false, true => .error .none

/-- The text of the address to bind. -/
def bindStr (cfg : ShareConfig) (profile : Profile) : Str :=
  cfg.bind.getD ("0.0.0.0:".toList ++ decimalOf profile.defaultPort)

/-- The upstream that is set, or the profile's own. -/
def resolveUpstream (cfg : ShareConfig) (profile : Profile) : Except UpstreamError Upstream :=
  match cfg.upstream with
  | some s => parseUpstream s
  | none => .ok profile.defaultUpstream

/-- The forward ports: sorted, each of them once. -/
def resolvePorts (cfg : ShareConfig) (bind : BindAddr) : Except ResolveError (List Nat) :=
  match expandAll cfg.forwardPorts with
  | .error e => .error (.port e)
  | .ok ports =>
      let ports := (ports.mergeSort (· ≤ ·)).destutter (· ≠ ·)
      if bind.port.toNat ∈ ports then .error (.ownPort bind.port.toNat)
      else if 0 ∈ ports then .error .zeroPort
      else if ports ≠ [] ∧ bind.ip.isLoopback then .error (.loopback bind)
      else .ok ports

/-- Validate and fill in defaults, or explain why this share must not listen. -/
def resolve (parseAddr : Str → Option BindAddr) (newToken : Str) (cfg : ShareConfig)
    (profile : Profile) (withToken : Bool) : Except ResolveError Resolved :=
  match parseAddr (cfg.bindStr profile) with
  | none => .error (.bind (cfg.bindStr profile))
  | some bind =>
      match cfg.resolveUpstream profile with
      | .error e => .error (.upstream e)
      | .ok upstream =>
          match cfg.resolveTargets with
          | .error e => .error (.targets e)
          | .ok targets =>
              match cfg.resolvePorts bind with
              | .error e => .error e
              | .ok forwardPorts =>
                  .ok {
                    profile, bind, upstream, targets
                    token := if withToken then some newToken else none
                    expiresAfter :=
                      if 0 < cfg.expireAfter then some cfg.expireAfter.toInt.toNat else none
                    forwardPorts }

end ShareConfig

/-- What `start` looks at. -/
def Resolved.toStart (r : Resolved) : ResolvedShare where
  bind := ⟨r.bind.ip.toNat, r.bind.port.toNat⟩
  token := r.token.map String.ofList
  expiresAfter := r.expiresAfter
  forwardPorts := r.forwardPorts

end DialF.Share
