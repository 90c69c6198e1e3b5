import BunServe.Lib.JsString

/-!
# BunServe.SafeUrl

URL validation for outbound requests (`safe-url.js`): the IPv4 and IPv6
literal parsers, the classifiers of both address families, the host
classifier, and the three gates built on them — `checkUrl`, `classifyAddress`
and `checkUrlResolved`.

An IPv4 address is a 32-bit vector, an IPv6 address eight 16-bit groups, so
the shifts and masks are those of the source.  `new URL`, the resolver and the
Unicode part of `toLowerCase` are the environment's (`Env`, `LowerCase`).
-/

namespace BunServe.SafeUrl

/-- The vocabulary of rejection reasons. -/
inductive Reason where
  | loopback | rfc1918 | linkLocal | metadata | ula | unspecified | cgnat | benchmark
  | multicast | reserved | unresolvedHost | notAllowlisted | badScheme | parseError | notAnIp
  deriving DecidableEq

/-! ## IPv4 -/

/-- The value of a hexadecimal digit. -/
def hexVal? (u : UInt16) : Option Nat :=
  if 48 ≤ u ∧ u ≤ 57 then some (u.toNat - 48)
  else if 97 ≤ u ∧ u ≤ 102 then some (u.toNat - 87)
  else if 65 ≤ u ∧ u ≤ 70 then some (u.toNat - 55)
  else none

def isHexDigit (u : UInt16) : Bool := (hexVal? u).isSome

/-- `[0-7]` -/
def isOctalDigit (u : UInt16) : Bool := 48 ≤ u ∧ u ≤ 55

/-- `[0-9]` -/
def isDigit (u : UInt16) : Bool := 48 ≤ u ∧ u ≤ 57

/-- `parseInt(s, base)` on digits of that base. -/
def parseInt (base : Nat) (s : JsString) : Nat :=
  s.foldl (fun n u => n * base + (hexVal? u).getD 0) 0

/-- `/^0[xX][0-9a-fA-F]+$/` -/
def isHexForm : JsString → Bool
  | z :: x :: d :: ds => z = 48 && (x = 120 || x = 88) && (d :: ds).all isHexDigit
  | _ => false

/-- `/^0[0-7]+$/` -/
def isOctalForm : JsString → Bool
  | z :: d :: ds => z = 48 && (d :: ds).all isOctalDigit
  | _ => false

/-- `/^[1-9][0-9]*$/` -/
def isDecimalForm : JsString → Bool
  | d :: ds => 49 ≤ d && d ≤ 57 && ds.all isDigit
  | [] => false

/-- One dot-separated part of an IPv4 literal. -/
def parsePart (part : JsString) : Option Nat :=
  if isHexForm part then some (parseInt 16 (part.drop 2))
  else if isOctalForm part then some (parseInt 8 (part.drop 1))
  else if part = js "0" then some 0
  else if isDecimalForm part then some (parseInt 10 part)
  else none

/-- `parseIpv4`: dotted decimal, octal and hex, the short forms and the bare
integer.  The last part fills the remaining low-order octets. -/
def parseIpv4 (host : JsString) : Option (BitVec 32) :=
  if host.length = 0 then none
  else if 4 < (host.splitOn (unit '.')).length then none
  else match (host.splitOn (unit '.')).mapM parsePart with
    | none => none
    | some nums =>
      let last := nums.getLastD 0
      let lead := nums.dropLast
      if 256 ^ (4 - lead.length) ≤ last then none
      else if lead.any (255 < ·) then none
      else some (BitVec.ofNat 32 (last + (lead.mapIdx fun i n => n * 256 ^ (3 - i)).sum))

/-- `classifyIpv4`: the blocked ranges, or `none` for a public address. -/
def classifyIpv4 (addr : BitVec 32) : Option Reason :=
  let a := (addr >>> 24) &&& 0xff
  let b := (addr >>> 16) &&& 0xff
  let c := (addr >>> 8) &&& 0xff
  let d := addr &&& 0xff
  if a = 169 ∧ b = 254 ∧ c = 169 ∧ d = 254 then some .metadata
  else if a = 0 then some .unspecified
  else if a = 127 then some .loopback
  else if a = 169 ∧ b = 254 then some .linkLocal
  else if a = 10 then some .rfc1918
  else if a = 172 ∧ 16 ≤ b ∧ b ≤ 31 then some .rfc1918
  else if a = 192 ∧ b = 168 then some .rfc1918
  else if a = 100 ∧ 64 ≤ b ∧ b ≤ 127 then some .cgnat
  else if a = 198 ∧ (b = 18 ∨ b = 19) then some .benchmark
  else if a = 192 ∧ b = 0 ∧ c = 0 then some .reserved
  else if 224 ≤ a ∧ a ≤ 239 then some .multicast
  else if 240 ≤ a then some .reserved
  else none

/-! ## IPv6 -/

/-- An IPv6 address as eight 16-bit groups. -/
abbrev Groups := Vector (BitVec 16) 8

/-- So that a numeral is a position. -/
instance eightGroups : NeZero 8 := ⟨by decide⟩

/-- `parseDottedQuadV6Tail`: exactly four decimal octets. -/
def parseDottedQuadV6Tail (tail : JsString) : Option (BitVec 32) :=
  let parts := tail.splitOn (unit '.')
  if parts.length ≠ 4 then none
  else if parts.all fun p => 1 ≤ p.length ∧ p.length ≤ 3 ∧ p.all isDigit ∧ parseInt 10 p ≤ 255 then
    some (BitVec.ofNat 32 (parts.foldl (fun addr p => addr * 256 + parseInt 10 p) 0))
  else none

/-- The groups of the tokens of one colon-separated run; a dotted quad is only
legal as the last token. -/
def expandTokens : List JsString → Option (List (BitVec 16))
  | [] => some []
  | tok :: toks =>
    if unit '.' ∈ tok then
      if toks = [] then
        (parseDottedQuadV6Tail tok).map fun (v4 : BitVec 32) =>
          [((v4 >>> 16) &&& 0xffff).setWidth 16, (v4 &&& 0xffff).setWidth 16]
      else none
    else if 1 ≤ tok.length ∧ tok.length ≤ 4 ∧ tok.all isHexDigit then
      (expandTokens toks).map (BitVec.ofNat 16 (parseInt 16 tok) :: ·)
    else none

/-- `expand`: the groups of one run, none for an empty one. -/
def expand (run : JsString) : Option (List (BitVec 16)) :=
  if run.length = 0 then some [] else expandTokens (run.splitOn (unit ':'))

/-- Eight groups, or nothing. -/
def groups? (gs : List (BitVec 16)) : Option Groups :=
  if h : gs.length = 8 then some ⟨gs.toArray, by simpa using h⟩ else none

/-- The groups of an IPv6 literal without zone. -/
def parseGroups (host : JsString) : Option Groups :=
  match splitOnTwice (unit ':') host with
  | [_] => (expand host).bind groups?
  | [h, t] =>
    match expand h, expand t with
    | some head, some tail =>
      groups? (head ++ List.replicate (8 - head.length - tail.length) 0 ++ tail)
    | _, _ => none
  | _ => none

/-- `parseIpv6`: the text up to a zone id, with at most one `::`. -/
def parseIpv6 (host : JsString) : Option Groups :=
  parseGroups (host.takeWhile (· ≠ unit '%'))

/-- The 32-bit address in two groups. -/
def pair (hi lo : BitVec 16) : BitVec 32 := (hi.setWidth 32 <<< 16) ||| lo.setWidth 32

/-! ## NAT64 -/

/-- The prefix lengths RFC 6052 defines, shortest first. -/
def nat64PrefixLengths : List Nat := [32, 40, 48, 56, 64, 96]

structure Nat64Prefix where
  groups : Groups
  len : Nat
  valid : len ∈ nat64PrefixLengths

/-- The parts of a string before and after the last `c`. -/
def splitLast (c : UInt16) (s : JsString) : Option (JsString × JsString) :=
  match s.reverse.span (· ≠ c) with
  | (_, []) => none
  | (after, _ :: before) => some (before.reverse, after.reverse)

/-- `.replace(/^\[|\]$/g, '')` -/
def stripBrackets (s : JsString) : JsString :=
  let s := if s.head? = some (unit '[') then s.drop 1 else s
  if s.getLast? = some (unit ']') then s.dropLast else s

/-- The prefix length a text denotes; it must be one of the six, as written. -/
def prefixLength? (s : JsString) : Option {n : Nat // n ∈ nat64PrefixLengths} :=
  if s = js "32" then some ⟨32, by decide⟩
  else if s = js "40" then some ⟨40, by decide⟩
  else if s = js "48" then some ⟨48, by decide⟩
  else if s = js "56" then some ⟨56, by decide⟩
  else if s = js "64" then some ⟨64, by decide⟩
  else if s = js "96" then some ⟨96, by decide⟩
  else none

/-- `parseNat64Prefix`; an absent or unparseable declaration is `none`. -/
def parseNat64Prefix (spec : Option JsString) : Option Nat64Prefix := do
  let spec ← spec
  let (address, length) ← splitLast (unit '/') spec
  let len ← prefixLength? length
  let groups ← parseIpv6 (stripBrackets address)
  return ⟨groups, len.1, len.2⟩

/-- `nat64ReadAt`: the IPv4 embedded at one prefix length. -/
def nat64ReadAt (g : Groups) (len : Nat) : BitVec 32 :=
  if len = 32 then pair (g.get 2) (g.get 3)
  else if len = 40 then
    ((g.get 2 &&& 0xff).setWidth 32 <<< 24) ||| ((g.get 3).setWidth 32 <<< 8) |||
      (g.get 4 &&& 0xff).setWidth 32
  else if len = 48 then
    ((g.get 3).setWidth 32 <<< 16) ||| ((g.get 4 &&& 0xff).setWidth 32 <<< 8) ||| (g.get 5 >>> 8).setWidth 32
  else if len = 56 then
    ((g.get 3 &&& 0xff).setWidth 32 <<< 24) ||| ((g.get 4 &&& 0xff).setWidth 32 <<< 16) |||
      (g.get 5).setWidth 32
  else if len = 64 then
    ((g.get 4 &&& 0xff).setWidth 32 <<< 24) ||| ((g.get 5).setWidth 32 <<< 8) ||| (g.get 6 >>> 8).setWidth 32
  else pair (g.get 6) (g.get 7)

/-- `nat64SuffixDirty`: a bit is set after the embedded address. -/
def nat64SuffixDirty (g : Groups) (len : Nat) : Bool :=
  let start := if len = 96 then 128 else if len = 64 then 104 else len + 40
  (List.range' start (128 - start)).any fun bit =>
    ((g.toList.getD (bit >>> 4) 0) >>> (15 - (bit &&& 15))) &&& 1 ≠ 0

/-- `nat64InPrefix`: `g` agrees with `p` on the first `len` bits. -/
def nat64InPrefix (g p : Groups) (len : Nat) : Bool :=
  let whole := len >>> 4
  let rest := len &&& 15
  let mask : BitVec 16 := 0xffff <<< (16 - rest)
  ((List.range whole).all fun i => g.toList.getD i 0 = p.toList.getD i 0) &&
    (rest = 0 || (g.toList.getD whole 0 &&& mask) = (p.toList.getD whole 0 &&& mask))

/-- An address inside the declared prefix: the declared reading decides, and
what is not a conformant encoding at that length is refused. -/
def classifyDeclared (g : Groups) (len : Nat) : Option Reason :=
  (classifyIpv4 (nat64ReadAt g len)).or <|
    if g.get 4 >>> 8 ≠ 0 then some .reserved
    else if nat64SuffixDirty g len then some .reserved
    else none

/-- Inside `64:ff9b::/32` with no declaration every length is read; a reading
in `0.0.0.0/8` is skipped unless all of them are. -/
def classifyWellKnown (g : Groups) : Option Reason :=
  let readings := nat64PrefixLengths.map (nat64ReadAt g)
  let allPadding := readings.all fun (v : BitVec 32) => v >>> 24 = 0
  (readings.findSome? fun (v : BitVec 32) => if !allPadding ∧ v >>> 24 = 0 then none else classifyIpv4 v).or <|
    if g.get 3 = 0 ∧ g.get 4 = 0 ∧ g.get 5 = 0 ∧ g.get 6 = 0 ∧ g.get 7 = 0 then some .unspecified
    else if g.get 4 >>> 8 ≠ 0 then some .reserved
    else none

/-- The checks that do not depend on NAT64: 6to4, Teredo, ISATAP. -/
def classifyTunnels (g : Groups) : Option Reason :=
  (if g.get 0 = 0x2002 then classifyIpv4 (pair (g.get 1) (g.get 2)) else none).or <|
    if g.get 0 = 0x2001 ∧ g.get 1 = 0 then some .reserved
    else if (g.get 4 = 0 ∨ g.get 4 = 0x0200) ∧ g.get 5 = 0x5efe then classifyIpv4 (pair (g.get 6) (g.get 7))
    else none

/-- The NAT64 part of `classifyIpv6`: the declared prefix first, then the
well-known span; only the former falls through to the tunnels. -/
def classifyNat64 (g : Groups) (nat64 : Option Nat64Prefix) : Option Reason :=
  match nat64.filter fun p => nat64InPrefix g p.groups p.len with
  | some p => (classifyDeclared g p.len).or (classifyTunnels g)
  | none =>
    if g.get 0 = 0x0064 ∧ g.get 1 = 0xff9b then classifyWellKnown g else classifyTunnels g

/-- `classifyIpv6`, branch by branch. -/
def classifyIpv6 (g : Groups) (nat64 : Option Nat64Prefix) : Option Reason :=
  let allZeroHigh := g.get 0 = 0 ∧ g.get 1 = 0 ∧ g.get 2 = 0 ∧ g.get 3 = 0 ∧ g.get 4 = 0
  let v4 := pair (g.get 6) (g.get 7)
  if allZeroHigh ∧ g.get 5 = 0xffff then classifyIpv4 v4
  else
    (if allZeroHigh ∧ g.get 5 = 0 ∧ (g.get 6 ≠ 0 ∨ g.get 7 ≠ 0) ∧ v4 ≠ 1 then classifyIpv4 v4
      else none).or <|
    if g.toList.all (· = 0) then some .unspecified
    else if allZeroHigh ∧ g.get 5 = 0 ∧ g.get 6 = 0 ∧ g.get 7 = 1 then some .loopback
    else if g.get 0 = 0xfd00 ∧ g.get 1 = 0x0ec2 ∧ g.get 2 = 0 ∧ g.get 3 = 0 ∧ g.get 4 = 0 ∧
        g.get 5 = 0 ∧ g.get 6 = 0 ∧ g.get 7 = 0x0254 then some .metadata
    else if g.get 0 = 0 ∧ g.get 1 = 0 ∧ g.get 2 = 0 ∧ g.get 3 = 0 ∧ g.get 4 = 0xffff ∧ g.get 5 = 0 then
      classifyIpv4 v4
    else if g.get 0 &&& 0xfe00 = 0xfc00 then some .ula
    else if g.get 0 &&& 0xffc0 = 0xfe80 then some .linkLocal
    else if g.get 0 &&& 0xffc0 = 0xfec0 then some .ula
    else if g.get 0 &&& 0xff00 = 0xff00 then some .multicast
    else classifyNat64 g nat64

/-! ## hosts -/

/-- What `classifyHost` says of a host that it does not pass as public. -/
inductive HostClass where
  | reason (r : Reason)
  | dnsName (name : JsString)
  deriving DecidableEq

/-- `if (host.endsWith('.')) host = host.slice(0, -1)` -/
def stripDot (host : JsString) : JsString :=
  if host.getLast? = some (unit '.') then host.dropLast else host

/-- `METADATA_HOSTNAMES` -/
def metadataHostnames : List JsString := [js "metadata.google.internal", js "metadata"]

/-- `host.slice(1, -1)` -/
def inner (host : JsString) : JsString := host.dropLast.drop 1

/-- `classifyHost` once case and root dot are normalised. -/
def classifyNormal (host : JsString) (nat64 : Option Nat64Prefix) : Option HostClass :=
  if host.length = 0 then none
  else if host.head? = some (unit '[') ∧ host.getLast? = some (unit ']') then
    match parseIpv6 (inner host) with
    | none => some (.reason .parseError)
    | some groups => (classifyIpv6 groups nat64).map .reason
  else if host = js "localhost" then some (.reason .loopback)
  else if host ∈ metadataHostnames then some (.reason .metadata)
  else match parseIpv4 host with
    | some v4 => (classifyIpv4 v4).map .reason
    | none => some (.dnsName host)

/-- `classifyHost`: `none` for a public literal, and for a host that normalises
to empty. -/
def classifyHost (lc : LowerCase) (hostname : JsString) (nat64 : Option Nat64Prefix) :
    Option HostClass :=
  classifyNormal (stripDot (lc.lower hostname)) nat64

/-- A bare IPv6 text gets its brackets. -/
def bracketed (addr : JsString) : JsString :=
  if unit ':' ∈ addr ∧ addr.head? ≠ some (unit '[') then unit '[' :: addr ++ [unit ']'] else addr

/-- The text of a literal without its brackets. -/
def bare (host : JsString) : JsString :=
  if host.head? = some (unit '[') then inner host else host

/-! ## the gates -/

/-- The policy posture. -/
inductive Mode where
  | strict | allowlist | off
  deriving DecidableEq

/-- One entry of what a resolver answers: a string or something else. -/
inductive Answer where
  | str (addr : JsString)
  | other
  deriving DecidableEq

/-- What a resolver returns: a list, or one entry. -/
inductive Resolved where
  | list (addresses : List Answer)
  | single (address : Answer)

/-- `SafeUrlOptions`; an absent option is its default. -/
structure SafeUrlOptions where
  mode : Mode := .strict
  allow : List JsString := []
  resolve : Option (JsString → Except Unit Resolved) := none
  nat64Prefix : Option JsString := none

/-- The two fields of a parsed URL that the gates read. -/
structure Url where
  protocol : JsString
  hostname : JsString

/-- What the module calls into: `new URL` and the Unicode part of
`toLowerCase`. -/
structure Env where
  newUrl : JsString → Option Url
  lc : LowerCase

structure CheckUrlResult where
  safe : Bool
  reason : Option Reason
  deriving DecidableEq

def CheckUrlResult.pass : CheckUrlResult := ⟨true, none⟩

def CheckUrlResult.refuse (r : Reason) : CheckUrlResult := ⟨false, some r⟩

/-- The allow list names the host, both without case and root dot. -/
def allowed (lc : LowerCase) (allow : List JsString) (hostname : JsString) : Bool :=
  allow.any fun entry => stripDot (lc.lower entry) = stripDot (lc.lower hostname)

/-- `checkUrl`: the synchronous literal gate. -/
def checkUrl (env : Env) (url : JsString) (o : SafeUrlOptions) : CheckUrlResult :=
  match env.newUrl url with
  | none => .refuse .parseError
  | some parsed =>
    if parsed.protocol ≠ js "http:" ∧ parsed.protocol ≠ js "https:" then .refuse .badScheme
    else if o.mode = .off then .pass
    else match classifyHost env.lc parsed.hostname (parseNat64Prefix o.nat64Prefix) with
      | some (.reason r) => .refuse r
      | _ =>
        if o.mode = .allowlist ∧ !allowed env.lc o.allow parsed.hostname then
          .refuse .notAllowlisted
        else .pass

/-- `isSafeUrl` -/
def isSafeUrl (env : Env) (url : JsString) (o : SafeUrlOptions) : Bool := (checkUrl env url o).safe

/-- `classifyAddress`: `none` means a public IP literal and nothing else. -/
def classifyAddress (lc : LowerCase) (ip : JsString) (nat64Prefix : Option JsString) :
    Option Reason :=
  let host := bracketed ip
  match classifyHost lc host (parseNat64Prefix nat64Prefix) with
  | none =>
    if (bare host).length = 0 then some .notAnIp
    else if (parseIpv4 (bare host)).isSome ∨ (parseIpv6 (bare host)).isSome then none
    else some .notAnIp
  | some (.reason r) => some r
  | some (.dnsName _) => some .notAnIp

/-- `isAddressSafe` -/
def isAddressSafe (lc : LowerCase) (ip : JsString) (nat64Prefix : Option JsString) : Bool :=
  classifyAddress lc ip nat64Prefix = none

/-- What the loop of `checkUrlResolved` says of one answer: `none` lets it
pass. -/
def refusal (lc : LowerCase) (nat64 : Option Nat64Prefix) : Answer → Option Reason
  | .other => some .unresolvedHost
  | .str addr =>
    if addr.length = 0 then some .unresolvedHost
    else match classifyHost lc (bracketed addr) nat64 with
      | some (.reason r) => some r
      | some (.dnsName _) => some .unresolvedHost
      | none => none

/-- The name that `checkUrlResolved` resolves, if it gets that far. -/
def nameToResolve (env : Env) (url : JsString) (o : SafeUrlOptions) :
    Option (JsString × (JsString → Except Unit Resolved)) :=
  if !(checkUrl env url o).safe ∨ o.mode = .off then none
  else match o.resolve, env.newUrl url with
    | some resolve, some parsed =>
      match classifyHost env.lc parsed.hostname (parseNat64Prefix o.nat64Prefix) with
      | some (.dnsName name) => some (name, resolve)
      | _ => none
    | _, _ => none

/-- `Array.isArray(resolved) ? resolved : [resolved]` -/
def Resolved.addresses : Resolved → List Answer
  | .list as => as
  | .single a => [a]

/-- `checkUrlResolved`: the literal gate, then every resolved address. -/
def checkUrlResolved (env : Env) (url : JsString) (o : SafeUrlOptions) : CheckUrlResult :=
  match nameToResolve env url o with
  | none => checkUrl env url o
  | some (name, resolve) =>
    match resolve name with
    | .error _ => .refuse .unresolvedHost
    | .ok resolved =>
      if resolved.addresses.length = 0 then .refuse .unresolvedHost
      else match resolved.addresses.findSome?
          (refusal env.lc (parseNat64Prefix o.nat64Prefix)) with
        | some r => .refuse r
        | none => .pass

end BunServe.SafeUrl
