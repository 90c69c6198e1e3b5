import BunServe.SafeUrl

/-!
# BunServe.RateKey

How a client address becomes a rate-limit bucket (`runtime/utils/rate-limiter.js`):
`rateLimitKey` bounds the value, folds an IPv6 literal to its allocation prefix,
drops brackets and port of what it recognises as an address, and leaves
everything else as it is.

The hexadecimal and decimal digits are those of `SafeUrl`; `toLowerCase` is the
environment's (`LowerCase`).  A scan over `host[start, end)` is one over that
part of the string.
-/

namespace BunServe.RateKey

open SafeUrl

/-! ## numbers -/

/-- `n.toString(16)` -/
def hexText (n : Nat) : JsString := (Nat.toDigits 16 n).map unit

/-- `[0-9a-f]` -/
def isLowerHexDigit (u : UInt16) : Bool := isHexDigit u && !(65 ≤ u && u ≤ 70)

/-- `/^[0-9a-f]{1,4}$/` -/
def isGroup (tok : JsString) : Bool :=
  1 ≤ tok.length && tok.length ≤ 4 && tok.all isLowerHexDigit

/-! ## IPv6 -/

/-- `text ? text.split(':') : []` -/
def splitGroups (text : JsString) : List JsString :=
  if text = [] then [] else text.splitOn (unit ':')

/-- The last two groups of an embedded IPv4 tail, `a.b.c.d`. -/
def tailGroups (last : JsString) : Option (JsString × JsString) :=
  let octets := last.splitOn (unit '.')
  if octets.length ≠ 4 then none
  else if octets.all fun o => 1 ≤ o.length && o.length ≤ 3 && o.all isDigit && parseInt 10 o ≤ 255
  then
    let n := octets.map (parseInt 10)
    some (hexText (n.getD 0 0 * 256 + n.getD 1 0), hexText (n.getD 2 0 * 256 + n.getD 3 0))
  else none

/-- The groups around at most one `::`, which fills up to eight. -/
def spread (head : JsString) : Option (List JsString) :=
  match splitOnTwice (unit ':') head with
  | [text] =>
    let left := splitGroups text
    if left.length = 8 then some left else none
  | [l, r] =>
    let left := splitGroups l
    let right := splitGroups r
    if left.length + right.length ≤ 8 then
      some (left ++ List.replicate (8 - left.length - right.length) (js "0") ++ right)
    else none
  | _ => none

/-- Every group is validated, the first four are normalised. -/
def normalize (groups : List JsString) : Option (List JsString) :=
  if groups.all isGroup then
    some ((groups.take 4).map (fun g => hexText (parseInt 16 g)) ++ groups.drop 4)
  else none

/-- The text up to and with the last colon, and the text behind it. -/
def lastColon (host : JsString) : JsString × JsString :=
  match splitLast (unit ':') host with
  | some (before, after) => (before ++ [unit ':'], after)
  | none => ([], host)

/-- `expandIpv6`: the groups of an IPv6 literal, lowercase and without brackets
and zone. -/
def expandIpv6 (host : JsString) : Option (List JsString) :=
  let (before, last) := lastColon host
  if unit '.' ∈ last then
    match tailGroups last with
    | none => none
    | some (t₁, t₂) =>
      match spread (before ++ js "0:0") with
      | none => none
      | some groups => normalize ((groups.set 6 t₁).set 7 t₂)
  else
    match spread host with
    | none => none
    | some groups => normalize groups

/-! ## IPv4 and ports -/

/-- The scan of `isIpv4`, with its three counters. -/
def scanIpv4 (octets digits value : Nat) : JsString → Bool
  | [] => octets = 3 && 0 < digits
  | c :: cs =>
    if c = unit '.' then
      if digits = 0 || octets = 3 then false else scanIpv4 (octets + 1) 0 0 cs
    else if !isDigit c then false
    else if 3 < digits + 1 then false
    else if 255 < value * 10 + (c.toNat - 48) then false
    else scanIpv4 octets (digits + 1) (value * 10 + (c.toNat - 48)) cs

/-- `isIpv4`: a dotted quad with every octet in range. -/
def isIpv4 (host : JsString) : Bool := scanIpv4 0 0 0 host

/-- `isPort`: a decimal port number in range. -/
def isPort (text : JsString) : Bool :=
  1 ≤ text.length && text.length ≤ 5 && text.all isDigit && parseInt 10 text ≤ 65535

/-! ## the fold -/

/-- `/^(0{1,4}:){n}/` -/
def zeroGroups : Nat → JsString → Bool
  | 0, _ => true
  | n + 1, s =>
    let zeros := s.takeWhile (· = unit '0')
    1 ≤ zeros.length && zeros.length ≤ 4 && (s.drop zeros.length).head? = some (unit ':') &&
      zeroGroups n (s.drop (zeros.length + 1))

/-- `/^(0{1,4}:){4}|^::/` -/
def zeroPrefixed (host : JsString) : Bool :=
  zeroGroups 4 host || host.take 2 = js "::"

/-- `isIpv6Literal`: `host` is a literal, zone aside. -/
def isIpv6Literal (lc : LowerCase) (host : JsString) : Bool :=
  (expandIpv6 (lc.lower (host.takeWhile (· ≠ unit '%')))).isSome

/-- What a value holds: the text between its brackets, or all of it.  None where
the brackets are not closed or something else than a port follows. -/
def unwrap (value : JsString) : Option (JsString × Bool) :=
  if value.head? = some (unit '[') then
    match (value.drop 1).dropWhile (· ≠ unit ']') with
    | [] => none
    | _ :: rest =>
      if rest = [] ∨ (rest.head? = some (unit ':') ∧ isPort (rest.drop 1)) then
        some ((value.drop 1).takeWhile (· ≠ unit ']'), true)
      else none
  else some (value, false)

/-- The bucket of an address with these groups; `declined` is what an address
that is not folded keeps. -/
def foldGroups (groups : List JsString) (declined : JsString) : JsString :=
  let g := fun i => groups.getD i []
  if g 0 = js "0" ∧ g 1 = js "0" ∧ g 2 = js "0" ∧ g 3 = js "0" then declined
  else if g 0 = js "64" ∧ g 1 = js "ff9b" then declined
  else if g 0 = js "2001" ∧ g 1 = js "0" then declined
  else if BitVec.ofNat 16 (parseInt 16 (g 0)) &&& 0xffc0 = 0xfe80 then declined
  else if g 0 = js "2002" then
    g 0 ++ js ":" ++ g 1 ++ js ":" ++ g 2 ++ js "::"
  else g 0 ++ js ":" ++ g 1 ++ js ":" ++ g 2 ++ js ":" ++ g 3 ++ js "::"

/-- The part of `foldToPrefix` behind the bracket handling. -/
def foldHost (lc : LowerCase) (value host : JsString) (bracketed : Bool) : JsString :=
  if unit ':' ∉ host then if bracketed && isIpv4 host then host else value
  else if !bracketed && zeroPrefixed host then value
  else if unit '%' ∈ host then if bracketed && isIpv6Literal lc host then host else value
  else
    let host := lc.lower host
    let first := host.takeWhile (· ≠ unit ':')
    if unit '.' ∈ first then
      if isIpv4 first && isPort (host.drop (first.length + 1)) then first else value
    else
      match expandIpv6 host with
      | none => value
      | some groups => foldGroups groups (if bracketed then host else value)

/-- `foldToPrefix` -/
def foldToPrefix (lc : LowerCase) (value : JsString) : JsString :=
  match unwrap value with
  | none => value
  | some (host, bracketed) => foldHost lc value host bracketed

/-- `rateLimitKey`: the bucket one client gets. -/
def rateLimitKey (lc : LowerCase) (clientIp : JsString) (maxKeyLen : Nat) : JsString :=
  (foldToPrefix lc (clientIp.take maxKeyLen)).take maxKeyLen

example : rateLimitKey .minimal (js "[2001:0DB8:0001:0002::1]:443") 128 = js "2001:db8:1:2::" := by
  decide +kernel

end BunServe.RateKey
