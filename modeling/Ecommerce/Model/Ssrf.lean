import Ecommerce.Model.JavaScript
import Ecommerce.Model.Calls

/-!
# The guard against internal addresses

`utils/ssrf.ts`, with what it takes from the platform: `net.isIP`, a few functions on texts, and the
host parser behind `new URL`. Texts are lists of characters.
-/

namespace Ecommerce

/-! ## Texts -/

/-- `text.split("::")`. -/
def splitDoubleColon : List Char → List (List Char)
  | ':' :: ':' :: cs => [] :: splitDoubleColon cs
  | c :: cs => (splitDoubleColon cs).modifyHead (c :: ·)
  | [] => [[]]

/-- `text.replace(pattern, replacement)` for a pattern that is a text and not empty. -/
def replaceFirst (pattern replacement : List Char) : List Char → List Char
  | [] => []
  | c :: cs =>
    if pattern.isPrefixOf (c :: cs) then replacement ++ (c :: cs).drop pattern.length
    else c :: replaceFirst pattern replacement cs

def isDigits (text : List Char) : Bool := !text.isEmpty && text.all Char.isDigit

/-- `/(\d+\.\d+\.\d+\.\d+)$/.exec(text)`, which finds the longest such ending. -/
def trailingQuad : List Char → Option (List Char)
  | [] => none
  | c :: cs =>
    if ((c :: cs).splitOn '.').length = 4 ∧ ((c :: cs).splitOn '.').all isDigits then some (c :: cs)
    else trailingQuad cs

def withoutSign : List Char → List Char
  | '-' :: cs | '+' :: cs => cs
  | cs => cs

def withoutHexMark : List Char → List Char
  | '0' :: 'x' :: cs | '0' :: 'X' :: cs => cs
  | cs => cs

/-- `parseInt(text, 16)`; nothing stands for `NaN`. -/
def parseIntHex (text : List Char) : Option ℤ :=
  let trimmed := text.dropWhile isJsSpace
  let run := (withoutHexMark (withoutSign trimmed)).takeWhile fun c => (digitValue c).isSome
  if run.isEmpty then none
  else (readDigits 16 0 run).map fun (n : Nat) => if trimmed.head? = some '-' then -(n : ℤ) else n

/-- The 32 bits that a bitwise operator reads of a number, where nothing stands for `NaN`. -/
def toUint32 (n : Option ℤ) : BitVec 32 := BitVec.ofInt 32 (n.getD 0)

/-! ## `net.isIP` -/

/-- A number from 0 to 255 in decimal, without leading zeros. -/
def isDecimalByte (text : List Char) : Bool :=
  isDigits text && decide (text.length ≤ 3) && (text.length == 1 || text.head? != some '0') &&
    (readDigits 10 0 text).any fun n => decide (n ≤ 255)

def isIPv4 (text : List Char) : Bool :=
  (text.splitOn '.').length == 4 && (text.splitOn '.').all isDecimalByte

def isHexGroup (text : List Char) : Bool :=
  decide (1 ≤ text.length) && decide (text.length ≤ 4) && text.all fun c => (digitValue c).isSome

/-- How many groups the parts between colons stand for, if every part is one, or two in dotted form at
the end. -/
def countGroups : List (List Char) → Option Nat
  | [] => some 0
  | [part] => if isHexGroup part then some 1 else if isIPv4 part then some 2 else none
  | part :: rest => if isHexGroup part then (countGroups rest).map (· + 1) else none

def partsOf (text : List Char) : List (List Char) := if text.isEmpty then [] else text.splitOn ':'

def isIPv6 (text : List Char) : Bool :=
  match splitDoubleColon text with
  | [whole] => countGroups (partsOf whole) == some 8
  | [left, right] =>
    (partsOf left).all isHexGroup &&
      (countGroups (partsOf right)).any fun n => decide ((partsOf left).length + n ≤ 7)
  | _ => false

def isZoneChar (c : Char) : Bool := c.isAlphanum || c == '-' || c == '.' || c == ':'

def isIP (text : List Char) : Nat :=
  if isIPv4 text then 4
  else
    match text.splitOn '%' with
    | [address] => if isIPv6 address then 6 else 0
    | [address, zone] => if isIPv6 address && !zone.isEmpty && zone.all isZoneChar then 6 else 0
    | _ => 0

/-! ## Addresses -/

def v4Bytes (a : BitVec 32) : List Nat :=
  [a.toNat / 2 ^ 24, a.toNat / 2 ^ 16 % 256, a.toNat / 2 ^ 8 % 256, a.toNat % 256]

/-- The dotted form of an address. -/
def dottedV4 (a : BitVec 32) : List Char := ['.'].intercalate ((v4Bytes a).map (Nat.toDigits 10))

/-- `Number(part)` is read for parts that are digits only. -/
def ipv4ToInt (ip : List Char) : Option ℤ :=
  (ip.splitOn '.').foldl
    (fun acc part => acc.bind fun n => (readDigits 10 0 part).map fun (d : Nat) => n * 256 + d) (some 0)

def inRange (ip : Option ℤ) (base : List Char) (bits : Nat) : Bool :=
  let mask : BitVec 32 := if bits = 0 then 0 else 0xffffffff#32 <<< ((32 - bits) % 32)
  (toUint32 ip &&& mask) == (toUint32 (ipv4ToInt base) &&& mask)

def PRIVATE_V4 : List (String × Nat) :=
  [("0.0.0.0", 8), ("10.0.0.0", 8), ("100.64.0.0", 10), ("127.0.0.0", 8), ("169.254.0.0", 16),
    ("172.16.0.0", 12), ("192.0.0.0", 24), ("192.168.0.0", 16), ("198.18.0.0", 15), ("224.0.0.0", 4),
    ("240.0.0.0", 4)]

def isPrivateV4 (ip : List Char) : Bool :=
  PRIVATE_V4.any fun block => inRange (ipv4ToInt ip) block.1.toList block.2

/-- The text of an unsigned number in a base, `n.toString(base)`. -/
def numberText (base : Nat) (n : BitVec 32) : List Char := Nat.toDigits base n.toNat

/-- A dotted quad at the end of an address, written as two groups. -/
def withoutQuad (address : List Char) : List Char :=
  match trailingQuad address with
  | some quad =>
    let n := toUint32 (ipv4ToInt quad)
    replaceFirst quad (numberText 16 (n >>> 16) ++ ':' :: numberText 16 (n &&& 0xffff)) address
  | none => address

/-- The groups around a double colon, with the missing ones between them. -/
def expandGroups (address : List Char) : List (Option ℤ) :=
  let pieces := splitDoubleColon address
  let tail := pieces[1]?
  let left := partsOf (pieces.head?.getD [])
  let right := partsOf (tail.getD [])
  let missing := if tail.isNone then 0 else 8 - left.length - right.length
  (left ++ List.replicate missing ['0'] ++ right).map fun group =>
    parseIntHex (if group.isEmpty then ['0'] else group)

def ipv6Groups (ip : List Char) : List (Option ℤ) := expandGroups (withoutQuad (ip.map jsLowerChar))

/-- The dotted form of the address embedded in the last two groups. -/
def embeddedV4 (g6 g7 : Option ℤ) : List Char :=
  numberText 10 ((toUint32 g6).sshiftRight 8) ++ '.' :: numberText 10 (toUint32 g6 &&& 0xff) ++
    '.' :: numberText 10 ((toUint32 g7).sshiftRight 8) ++ '.' :: numberText 10 (toUint32 g7 &&& 0xff)

def isPrivateV6 (ip : List Char) : Bool :=
  let g := ipv6Groups ip
  if g.length ≠ 8 then true
  else if g.all (· == some 0) then true
  else if (g.take 7).all (· == some 0) && g[7]? == some (some 1) then true
  else if toUint32 (g[0]?.getD none) &&& 0xfe00 = 0xfc00 then true
  else if toUint32 (g[0]?.getD none) &&& 0xffc0 = 0xfe80 then true
  else if toUint32 (g[0]?.getD none) &&& 0xff00 = 0xff00 then true
  else if (g.take 5).all (· == some 0) && (g[5]? == some (some 0xffff) || g[5]? == some (some 0)) then
    isPrivateV4 (embeddedV4 (g[6]?.getD none) (g[7]?.getD none))
  else false

def isPrivateAddress (address : List Char) : Bool :=
  let version := isIP address
  if version = 4 then isPrivateV4 address
  else if version = 6 then isPrivateV6 address
  else false

example : isPrivateAddress "::ffff:192.168.0.1".toList = true ∧ isPrivateAddress "2001:db8::1".toList = false := by
  decide +kernel

end Ecommerce
