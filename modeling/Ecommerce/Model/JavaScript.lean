import Mathlib.Data.Rat.Defs

/-!
# Built-in functions on strings

The built-ins the services apply to request headers and query parameters. Header values reach the
server as Latin-1 text, and what is made lower case is compared with such text only.
-/

namespace Ecommerce

/-- `value || fallback`, for an optional string. -/
def orElseText (value : Option String) (fallback : String) : String :=
  (value.filter (· ≠ "")).getD fallback

theorem orElseText_some {text : String} (h : text ≠ "") (fallback : String) :
    orElseText (some text) fallback = text := by
  simp [orElseText, Option.filter, h]

/-- White space and line terminators. -/
def isJsSpace (c : Char) : Bool :=
  c == ' ' || c == '\t' || c == '\n' || c == '\r' || c == '\x0b' || c == '\x0c' || c == '\u00a0' ||
    c == '\u1680' || ('\u2000' ≤ c && c ≤ '\u200a') || c == '\u2028' || c == '\u2029' || c == '\u202f' ||
    c == '\u205f' || c == '\u3000' || c == '\ufeff'

/-- `String.prototype.trim`. -/
@[irreducible] def jsTrim (s : String) : String :=
  String.ofList ((s.toList.dropWhile isJsSpace).reverse.dropWhile isJsSpace).reverse

/-- Lower case of one character, for every character whose lower case is below U+0100. -/
def jsLowerChar (c : Char) : Char :=
  if ('A' ≤ c ∧ c ≤ 'Z') ∨ ('\u00c0' ≤ c ∧ c ≤ '\u00de' ∧ c ≠ '\u00d7') then Char.ofNat (c.toNat + 32)
  else if c = '\u0178' then '\u00ff'
  else if c = '\u1e9e' then '\u00df'
  else if c = '\u212a' then 'k'
  else if c = '\u212b' then '\u00e5'
  else c

/-- `String.prototype.toLowerCase`. -/
@[irreducible] def jsToLowerCase (s : String) : String := String.ofList (s.toList.map jsLowerChar)

/-- The UTF-16 code units of a text. -/
def utf16 (text : List Char) : List UInt16 :=
  text.flatMap fun c =>
    if c.toNat < 0x10000 then [UInt16.ofNat c.toNat]
    else [UInt16.ofNat (0xd800 + (c.toNat - 0x10000) / 0x400), UInt16.ofNat (0xdc00 + (c.toNat - 0x10000) % 0x400)]

/-- The value of a digit in bases up to 16. -/
def digitValue (c : Char) : Option Nat :=
  if '0' ≤ c ∧ c ≤ '9' then some (c.toNat - '0'.toNat)
  else if 'a' ≤ c ∧ c ≤ 'f' then some (c.toNat - 'a'.toNat + 10)
  else if 'A' ≤ c ∧ c ≤ 'F' then some (c.toNat - 'A'.toNat + 10)
  else none

theorem digitValue_digitChar : ∀ n < 16, digitValue n.digitChar = some n := by decide

/-- A run of digits read in a base, if every character is a digit of it. -/
def readDigits (base : Nat) : Nat → List Char → Option Nat
  | acc, [] => some acc
  | acc, c :: cs =>
    match digitValue c with
    | some d => if d < base then readDigits base (acc * base + d) cs else none
    | none => none

/-- The exponent part of a decimal literal. -/
def readExponent : List Char → Option ℤ
  | [] => some 0
  | e :: cs =>
    if e = 'e' ∨ e = 'E' then
      match cs with
      | '-' :: d :: ds => (readDigits 10 0 (d :: ds)).map fun n => -(n : ℤ)
      | '+' :: d :: ds => (readDigits 10 0 (d :: ds)).map fun n => (n : ℤ)
      | d :: ds => (readDigits 10 0 (d :: ds)).map fun n => (n : ℤ)
      | [] => none
    else none

/-- A decimal literal without a sign. -/
def readDecimal (cs : List Char) : Option ℚ :=
  let whole := cs.takeWhile Char.isDigit
  let afterWhole := cs.dropWhile Char.isDigit
  let fraction := if afterWhole.head? = some '.' then afterWhole.tail.takeWhile Char.isDigit else []
  let afterFraction :=
    if afterWhole.head? = some '.' then afterWhole.tail.dropWhile Char.isDigit else afterWhole
  if whole.isEmpty && fraction.isEmpty then none
  else
    match readDigits 10 0 (whole ++ fraction), readExponent afterFraction with
    | some n, some e => some (n * (10 : ℚ) ^ (e - fraction.length))
    | _, _ => none

/-- `Number(text)`, or nothing where that is `NaN` or infinite. The value is not rounded. -/
@[irreducible] def jsNumber (text : String) : Option ℚ :=
  match (jsTrim text).toList with
  | [] => some 0
  | '0' :: x :: d :: ds =>
    if x = 'x' ∨ x = 'X' then (readDigits 16 0 (d :: ds)).map fun n => (n : ℚ)
    else if x = 'o' ∨ x = 'O' then (readDigits 8 0 (d :: ds)).map fun n => (n : ℚ)
    else if x = 'b' ∨ x = 'B' then (readDigits 2 0 (d :: ds)).map fun n => (n : ℚ)
    else readDecimal ('0' :: x :: d :: ds)
  | '-' :: cs => (readDecimal cs).map fun q => -q
  | '+' :: cs => readDecimal cs
  | cs => readDecimal cs

/-- The bytes of `Buffer.from(text, "hex")`, which stops at the first pair that is not hex. -/
def bufferFromHex : List Char → List Nat
  | a :: b :: cs =>
    match digitValue a, digitValue b with
    | some x, some y => (16 * x + y) :: bufferFromHex cs
    | _, _ => []
  | _ => []

@[simp] theorem bufferFromHex_nil : bufferFromHex [] = [] := rfl

theorem bufferFromHex_cons_cons {a b : Char} {x y : Nat} (cs : List Char) (ha : digitValue a = some x)
    (hb : digitValue b = some y) : bufferFromHex (a :: b :: cs) = (16 * x + y) :: bufferFromHex cs := by
  simp [bufferFromHex, ha, hb]

attribute [irreducible] bufferFromHex

example : jsNumber " 1700000000.5 " = some (3400000001 / 2) := by decide +kernel

end Ecommerce
