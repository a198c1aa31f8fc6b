import Talyn.Dns.Message

/-!
# Names and literal addresses

What `DNS.lookup` does before it asks a nameserver: lower the name, take `localhost` and literal
addresses for what they are (`resolve_address`), and refuse what is no host name. The loops of
`parseIp4` and `parseIp6` recurse on a bound: every turn takes at least one byte.
-/

namespace Talyn.Dns

/-- `std.ascii.lowerString`. -/
def lowerString (name : Datagram) : Datagram :=
  name.map fun c => if 65 ≤ c ∧ c ≤ 90 then c + 32 else c

/-- A letter, a digit or a hyphen. -/
def isNameChar (c : UInt8) : Bool :=
  97 ≤ c ∧ c ≤ 122 ∨ 65 ≤ c ∧ c ≤ 90 ∨ 48 ≤ c ∧ c ≤ 57 ∨ c = 45

/-- `validate_hostname`. -/
def validateHostname (hostname : Datagram) : Bool :=
  (hostname.splitOn dot).all fun label =>
    1 ≤ label.length ∧ label.length ≤ 63 ∧ label.head? ≠ some 45 ∧ label.getLast? ≠ some 45 ∧
      label.all isNameChar

/-! ### Literal addresses -/

/-- The inner loop of `parseIp4`. -/
def parseOctet : ℕ → Datagram → Option ℕ
  | val, [] => some val
  | val, c :: cs =>
    if c < 48 ∨ 57 < c then none
    else if val * 10 + (c.toNat - 48) > 255 then none
    else parseOctet (val * 10 + (c.toNat - 48)) cs

/-- The outer loop of `parseIp4`. -/
def parseIp4From : ℕ → Datagram → List UInt8 → Option (List UInt8)
  | _, [], bytes => if bytes.length = 4 then some bytes else none
  | 0, _ :: _, _ => none
  | fuel + 1, c :: cs, bytes =>
    if bytes.length ≥ 4 then none
    -- an octet with a leading zero
    else if c = 48 ∧ cs ≠ [] ∧ cs.head? ≠ some dot then none
    else
      let digits := (c :: cs).takeWhile (· ≠ dot)
      if digits = [] then none
      else
        match parseOctet 0 digits with
        | none => none
        | some val =>
          parseIp4From fuel (((c :: cs).dropWhile (· ≠ dot)).drop 1) (bytes ++ [UInt8.ofNat val])

/-- `parseIp4`. -/
def parseIp4 (host : Datagram) : Option Address :=
  (parseIp4From host.length host []).map .ip4

/-- A hexadecimal digit. -/
def hexDigit (c : UInt8) : Option ℕ :=
  if 48 ≤ c ∧ c ≤ 57 then some (c.toNat - 48)
  else if 97 ≤ c ∧ c ≤ 102 then some (c.toNat - 97 + 10)
  else if 65 ≤ c ∧ c ≤ 70 then some (c.toNat - 65 + 10)
  else none

/-- The inner loop of `parseIp6`; a group has at most four digits. -/
def parseGroup : ℕ → ℕ → Datagram → Option ℕ
  | val, _, [] => some val
  | val, digits, c :: cs =>
    match hexDigit c with
    | none => none
    | some digit => if digits + 1 > 4 then none else parseGroup (val * 16 + digit) (digits + 1) cs

/-- The byte `':'`. -/
def colon : UInt8 := 58

/-- The outer loop of `parseIp6`: the groups, where `::` stood, and what is left of the text. -/
def parseIp6From : ℕ → Datagram → List ℕ → Option ℕ → Option (List ℕ × Option ℕ × Datagram)
  | _, [], groups, doubleColon => some (groups, doubleColon, [])
  | 0, _ :: _, _, _ => none
  | fuel + 1, c :: cs, groups, doubleColon =>
    if groups.length ≥ 8 then some (groups, doubleColon, c :: cs)
    else
      let chunk := (c :: cs).takeWhile (· ≠ colon)
      let rest := (c :: cs).dropWhile (· ≠ colon)
      if chunk = [] then none
      else
        match parseGroup 0 0 chunk with
        | none => none
        | some val =>
          let groups := groups ++ [val]
          if groups.length = 8 ∧ rest ≠ [] then none
          else if (rest.drop 1).head? = some colon then
            if doubleColon.isSome then none
            else parseIp6From fuel (rest.drop 2) groups (some groups.length)
          else parseIp6From fuel (rest.drop 1) groups doubleColon

/-- The bytes of the groups. -/
def groupBytes (groups : List ℕ) : List UInt8 :=
  groups.flatMap fun g => [UInt8.ofNat (g / 256), UInt8.ofNat g]

/-- `parseIp6`. -/
def parseIp6 (host : Datagram) : Option Address :=
  let start : Option (Datagram × Option ℕ) :=
    if host.take 2 = [colon, colon] then
      if (host.drop 2).head? = some colon then none else some (host.drop 2, some 0)
    else if host.head? = some colon then none
    else some (host, none)
  start.bind fun (rest, doubleColon) =>
    (parseIp6From rest.length rest [] doubleColon).bind fun (groups, doubleColon, rest) =>
      match doubleColon with
      | some before =>
        if groups.length ≥ 8 then none
        else
          some (.ip6 (groupBytes (groups.take before ++ List.replicate (8 - groups.length) 0 ++
            groups.drop before)))
      | none => if groups.length ≠ 8 ∨ rest ≠ [] then none else some (.ip6 (groupBytes groups))

/-- The text `localhost`. -/
def localhost : Datagram := [108, 111, 99, 97, 108, 104, 111, 115, 116]

/-- `localhost_address_list`. -/
def localhostAddressList : List Address :=
  [.ip4 [127, 0, 0, 1], .ip6 [0, 0, 0, 0, 0, 0, 0, 0, 0, 0, 0, 0, 0, 0, 0, 1]]

/-- `resolve_address`; `none` is `error.InvalidHostname`, and no address means that a nameserver has
to be asked. -/
def resolveAddress (hostname : Datagram) (allowIpv6 : Bool) : Option (List Address) :=
  if hostname = localhost then some (localhostAddressList.take (if allowIpv6 then 2 else 1))
  else
    match parseIp4 hostname with
    | some address => some [address]
    | none =>
      match if allowIpv6 then parseIp6 hostname else none with
      | some address => some [address]
      | none => if validateHostname hostname then some [] else none

/-! ### Reverse names -/

/-- The digits of a number, as bytes. -/
def digitBytes (base n : ℕ) : Datagram := (Nat.toDigits base n).map fun c => UInt8.ofNat c.toNat

/-- The text `in-addr.arpa`. -/
def inAddrArpa : Datagram := [105, 110, 45, 97, 100, 100, 114, 46, 97, 114, 112, 97]

/-- The text `ip6.arpa`. -/
def ip6Arpa : Datagram := [105, 112, 54, 46, 97, 114, 112, 97]

/-- `build_reverse_name`. -/
def buildReverseName : Address → Datagram
  | .ip4 addr => (addr.reverse.flatMap fun b => digitBytes 10 b.toNat ++ [dot]) ++ inAddrArpa
  | .ip6 addr =>
    (addr.reverse.flatMap fun b =>
      digitBytes 16 (b.toNat % 16) ++ [dot] ++ digitBytes 16 (b.toNat / 16) ++ [dot]) ++ ip6Arpa

/-- `10.0.0.1` is a literal address; `1.2.3` is not. -/
example : resolveAddress [49, 48, 46, 48, 46, 48, 46, 49] true = some [.ip4 [10, 0, 0, 1]] ∧
    resolveAddress [49, 46, 50, 46, 51] true = some [] := by decide +kernel

/-- `::1`. -/
example : parseIp6 [58, 58, 49] = some (.ip6 [0, 0, 0, 0, 0, 0, 0, 0, 0, 0, 0, 0, 0, 0, 0, 1]) := by
  decide +kernel

end Talyn.Dns
