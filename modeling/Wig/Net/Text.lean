/-
Addresses of the Go `net` package and their text forms, as in Go 1.19, the version the module
declares: `IP.To4`, `CIDRMask`, `IP.String`, `IPNet.String` and `ParseCIDR` with the scanners below
it. An `IP` or `IPMask` is its bytes, and no bytes when it is nil.
-/
import Mathlib.Tactic

namespace Wig.Net

abbrev IP := List UInt8

abbrev IPMask := List UInt8

/-- An address with a mask; the address keeps its host bits. -/
structure IPNet where
  ip : IP
  mask : IPMask
  deriving DecidableEq, Repr

/-! ## Bytes -/

/-- The first twelve bytes of an IPv4 address in its sixteen-byte form. -/
def v4InV6Prefix : List UInt8 := [0, 0, 0, 0, 0, 0, 0, 0, 0, 0, 0xff, 0xff]

/-- The four-byte form of an IPv4 address, `none` for any other. -/
def IP.to4 (ip : IP) : Option IP :=
  if ip.length = 4 then some ip
  else if ip.length = 16 ∧ ip.take 12 = v4InV6Prefix then some (ip.drop 12)
  else none

/-- `n` leading one bits in `len` bytes. -/
def maskBytes : Nat → Nat → IPMask
  | 0, _ => []
  | len + 1, n =>
    if 8 ≤ n then 0xff :: maskBytes len (n - 8) else (~~~ ((0xff : UInt8) >>> n.toUInt8)) :: maskBytes len 0

/-- `CIDRMask`: nil unless the mask is that of an address family and is long enough. -/
def cidrMask (ones bits : Nat) : IPMask :=
  if (bits = 32 ∨ bits = 128) ∧ ones ≤ bits then maskBytes (bits / 8) ones else []

/-- The leading one bits of a byte, and what is left of it once they are shifted out. -/
def leadingOnes : Nat → UInt8 → Nat × UInt8
  | 0, v => (0, v)
  | fuel + 1, v => if v &&& 0x80 ≠ 0 then
    ((leadingOnes fuel (v <<< 1)).1 + 1, (leadingOnes fuel (v <<< 1)).2) else (0, v)

/-- The length of a mask of leading ones, `none` for any other mask. -/
def simpleMaskLength : IPMask → Option Nat
  | [] => some 0
  | v :: rest =>
    if v = 0xff then (simpleMaskLength rest).map (· + 8)
    else if (leadingOnes 8 v).2 = 0 ∧ rest.all (· = 0) then some (leadingOnes 8 v).1
    else none

/-! ## Printing -/

/-- A decimal number below 1000. -/
def utoa (n : Nat) : List Char :=
  if n < 10 then [Nat.digitChar n]
  else if n < 100 then [Nat.digitChar (n / 10), Nat.digitChar (n % 10)]
  else [Nat.digitChar (n / 100), Nat.digitChar (n / 10 % 10), Nat.digitChar (n % 10)]

/-- A 16-bit number in hexadecimal, without leading zeros. -/
def appendHex (n : Nat) : List Char :=
  if n = 0 then ['0']
  else [4096, 256, 16, 1].filterMap fun w => if 0 < n / w then some (Nat.digitChar (n / w % 16)) else none

/-- The sixteen-bit groups of an address. -/
def groups : List UInt8 → List Nat
  | a :: b :: rest => (a.toNat * 256 + b.toNat) :: groups rest
  | _ => []

/-- The first longest run of zero groups, as its position and length. -/
def longestZeros : Nat → Nat × Nat → List Nat → Nat × Nat
  | _, best, [] => best
  | i, best, g :: gs =>
    longestZeros (i + 1)
      (if best.2 < ((g :: gs).takeWhile (· = 0)).length then (i, ((g :: gs).takeWhile (· = 0)).length) else best) gs

/-- Groups separated by colons. -/
def joinGroups : List Nat → List Char
  | [] => []
  | [g] => appendHex g
  | g :: gs => appendHex g ++ ':' :: joinGroups gs

/-- Octets separated by dots. -/
def joinOctets : List UInt8 → List Char
  | [] => []
  | [b] => utoa b.toNat
  | b :: bs => utoa b.toNat ++ '.' :: joinOctets bs

/-- The text of eight groups, with `::` for the first longest run of two or more zero groups. -/
def ipv6Chars (gs : List Nat) : List Char :=
  if 2 ≤ (longestZeros 0 (0, 0) gs).2 then
    joinGroups (gs.take (longestZeros 0 (0, 0) gs).1) ++ ':' :: ':' ::
      joinGroups (gs.drop ((longestZeros 0 (0, 0) gs).1 + (longestZeros 0 (0, 0) gs).2))
  else joinGroups gs

/-- `IP.String` for the lengths that occur, an address of four or sixteen bytes. -/
def IP.chars (ip : IP) : List Char :=
  match ip.to4 with
  | some p4 => joinOctets p4
  | none => ipv6Chars (groups ip)

/-- The address and mask that `IPNet.String` prints: four bytes of each for an IPv4 address. -/
def networkNumberAndMask (n : IPNet) : Option (IP × IPMask) :=
  match n.ip.to4 with
  | some p4 =>
    if n.mask.length = 4 then some (p4, n.mask)
    else if n.mask.length = 16 then some (p4, n.mask.drop 12)
    else none
  | none => if n.ip.length = 16 ∧ n.mask.length = 16 then some (n.ip, n.mask) else none

def hexString (bs : List UInt8) : List Char :=
  bs.flatMap fun b => [Nat.digitChar (b.toNat / 16), Nat.digitChar (b.toNat % 16)]

/-- `IPNet.String`. -/
def IPNet.chars (n : IPNet) : List Char :=
  match networkNumberAndMask n with
  | none => "<nil>".toList
  | some (ip, m) =>
    match simpleMaskLength m with
    | none => IP.chars ip ++ '/' :: hexString m
    | some l => IP.chars ip ++ '/' :: utoa l

/-! ## Parsing -/

/-- Numbers from here on are refused by the scanners. -/
def big : Nat := 0xFFFFFF

def decVal (c : Char) : Option Nat := if '0' ≤ c ∧ c ≤ '9' then some (c.toNat - 48) else none

def hexVal (c : Char) : Option Nat :=
  if '0' ≤ c ∧ c ≤ '9' then some (c.toNat - 48)
  else if 'a' ≤ c ∧ c ≤ 'f' then some (c.toNat - 87)
  else if 'A' ≤ c ∧ c ≤ 'F' then some (c.toNat - 55)
  else none

/-- Read digits: the number, how many digits it had, and the rest of the text. -/
def scan (val : Char → Option Nat) (base : Nat) : Nat → Nat → List Char → Option (Nat × Nat × List Char)
  | n, i, [] => if i = 0 then none else some (n, i, [])
  | n, i, c :: s =>
    match val c with
    | none => if i = 0 then none else some (n, i, c :: s)
    | some d => if big ≤ n * base + d then none else scan val base (n * base + d) (i + 1) s

/-- Decimal to integer. -/
def dtoi (s : List Char) : Option (Nat × Nat × List Char) := scan decVal 10 0 0 s

/-- Hexadecimal to integer. -/
def xtoi (s : List Char) : Option (Nat × Nat × List Char) := scan hexVal 16 0 0 s

/-- One octet: at most 255, without a leading zero. -/
def octet (s : List Char) : Option (UInt8 × List Char) :=
  match dtoi s with
  | none => none
  | some (n, c, rest) =>
    if 0xFF < n then none
    else if 1 < c ∧ s.head? = some '0' then none
    else some (n.toUInt8, rest)

/-- Octets up to the end of the text, each but the first of the address after a dot. -/
def octets : Nat → List Char → Option (List UInt8)
  | 0, [] => some []
  | 0, _ :: _ => none
  | k + 1, '.' :: s => (octet s).bind fun (b, rest) => (octets k rest).map (b :: ·)
  | _ + 1, _ => none

/-- `parseIPv4`, in the sixteen-byte form that `IPv4` builds. -/
def parseIPv4 (s : List Char) : Option IP :=
  (octet s).bind fun (b, rest) => (octets 3 rest).map fun bs => v4InV6Prefix ++ b :: bs

/-- The loop of `parseIPv6`: the bytes read so far, the position of the ellipsis and the rest of the
text. The first argument counts the groups that still fit. -/
def ipv6Loop : Nat → List UInt8 → Option Nat → List Char → Option (List UInt8 × Option Nat × List Char)
  | 0, acc, e, s => some (acc, e, s)
  | k + 1, acc, e, s =>
    match xtoi s with
    | none => none
    | some (n, _, rest) =>
      if 0xFFFF < n then none
      else match rest with
        -- the last four bytes may be written as an IPv4 address
        | '.' :: _ =>
          if e = none ∧ acc.length ≠ 12 then none
          else if 16 < acc.length + 4 then none
          else (parseIPv4 s).map fun ip4 => (acc ++ ip4.drop 12, e, [])
        | [] => some (acc ++ [(n / 256).toUInt8, n.toUInt8], e, [])
        | ':' :: ':' :: s' =>
          if e ≠ none then none
          else if s' = [] then some (acc ++ [(n / 256).toUInt8, n.toUInt8], some (acc.length + 2), [])
          else ipv6Loop k (acc ++ [(n / 256).toUInt8, n.toUInt8]) (some (acc.length + 2)) s'
        | ':' :: c :: s' => ipv6Loop k (acc ++ [(n / 256).toUInt8, n.toUInt8]) e (c :: s')
        | _ => none

/-- The end of `parseIPv6`: all text is used, and an ellipsis stands for at least one group. -/
def expandEllipsis : List UInt8 × Option Nat × List Char → Option IP
  | (acc, e, s) =>
    if s ≠ [] then none
    else if acc.length < 16 then e.map fun p => acc.take p ++ List.replicate (16 - acc.length) 0 ++ acc.drop p
    else if e = none then some acc else none

def parseIPv6 (s : List Char) : Option IP :=
  match s with
  | ':' :: ':' :: [] => some (List.replicate 16 0)
  | ':' :: ':' :: s => (ipv6Loop 8 [] (some 0) s).bind expandEllipsis
  | s => (ipv6Loop 8 [] none s).bind expandEllipsis

/-- The text around the first slash. -/
def cutSlash : List Char → Option (List Char × List Char)
  | [] => none
  | c :: s => if c = '/' then some ([], s) else (cutSlash s).map fun (a, b) => (c :: a, b)

/-- `ParseCIDR`: the address, host bits included, and the mask of the network. -/
def parseCIDR (s : List Char) : Option (IP × IPMask) :=
  (cutSlash s).bind fun (addr, mask) =>
    match dtoi mask with
    | some (n, _, []) =>
      match parseIPv4 addr with
      | some ip => if n ≤ 32 then some (ip, cidrMask n 32) else none
      | none =>
        match parseIPv6 addr with
        | some ip => if n ≤ 128 then some (ip, cidrMask n 128) else none
        | none => none
    | _ => none

end Wig.Net
