import Nshmqtt.Binary64
import Nshmqtt.ByteStrings
import Mathlib.Data.List.DropRight

/-!
# Numbers as text

The C library's conversions between numbers and byte strings, in the C locale:
`printf("%.*g")` of a double, `strtod` (decimal and hexadecimal, `inf`, `nan`)
and `strtol`.  A conversion from text reports the value, the unread rest and
whether it set `errno` to `ERANGE`.
-/

namespace DecimalText

open ByteStrings

/-- The decimal digits of `n`, most significant first. -/
def decimalText (n : Nat) : Bytes :=
  if n < 10 then [zeroDigit + UInt8.ofNat n]
  else decimalText (n / 10) ++ [zeroDigit + UInt8.ofNat (n % 10)]

/-- `std::to_string` of a signed integer. -/
def integerText (n : Int) : Bytes :=
  if n < 0 then minus :: decimalText n.natAbs else decimalText n.natAbs

/-- Value of a digit in a base up to sixteen. -/
def digitValue (c : UInt8) : Nat :=
  if isdigit c then c.toNat - 48
  else if 97 ≤ c then c.toNat - 87
  else c.toNat - 55

/-- Value of a digit string. -/
def digitsValue (base : Nat) (digits : Bytes) : Nat :=
  digits.foldl (fun value c => base * value + digitValue c) 0

/-- A number with a decimal point, or none before an empty fraction. -/
def pointed (whole fraction : Bytes) : Bytes :=
  if fraction.isEmpty then whole else whole ++ point :: fraction

/-- Drop the trailing zeros of a fraction. -/
def trimZeros (fraction : Bytes) : Bytes := fraction.rdropWhile (· == zeroDigit)

/-- The exponent of the scientific form, at least two digits. -/
def exponentText (exponent : Int) : Bytes :=
  let digits := decimalText exponent.natAbs
  101 :: (if exponent < 0 then minus else plus) ::
    (if exponent.natAbs < 10 then zeroDigit :: digits else digits)

/-- The `%g` text of `digits * 10 ^ (exponent + 1 - precision)`, where `digits`
has `precision` decimal digits. -/
def generalText (precision digits : Nat) (exponent : Int) : Bytes :=
  let text := decimalText digits
  if exponent < -4 ∨ (precision : Int) ≤ exponent then
    pointed (text.take 1) (trimZeros (text.drop 1)) ++ exponentText exponent
  else if 0 ≤ exponent then
    pointed (text.take (exponent.toNat + 1)) (trimZeros (text.drop (exponent.toNat + 1)))
  else
    pointed [zeroDigit]
      (trimZeros (List.replicate (exponent.natAbs - 1) zeroDigit ++ text))

/-- Decimal places that bring every positive double above one. -/
def decimalOffset : Nat := 324

/-- The decimal exponent of `num / den` shifted by `decimalOffset`. -/
def leadingPlace (num den : Nat) : Nat := Nat.log 10 (num * 10 ^ decimalOffset / den)

/-- `num / den` rounded to `precision` significant digits: the digits and the
decimal exponent.  A carry to one digit more is normalized. -/
def scientific (precision num den : Nat) : Nat × Int :=
  let place := leadingPlace num den
  let digits := roundHalfEven (num * 10 ^ (decimalOffset + (precision - 1))) (den * 10 ^ place)
  if digits = 10 ^ precision then (10 ^ (precision - 1), (place : Int) - decimalOffset + 1)
  else (digits, (place : Int) - decimalOffset)

/-- `printf("%.*g", precision, x)`. -/
def formatGeneral (precision : Nat) (x : Binary64) : Bytes :=
  (if x.negative then [minus] else []) ++
    if x.isNan then ascii "nan"
    else if x.isInf then ascii "inf"
    else if x.quanta = 0 then [zeroDigit]
    else
      let decimal := scientific precision x.quanta Binary64.quantaPerUnit
      generalText precision decimal.1 decimal.2

/-- Split an optional sign off. -/
def scanSign : Bytes → Bool × Bytes
  | [] => (false, [])
  | c :: rest =>
      if c = minus then (true, rest)
      else if c = plus then (false, rest)
      else (false, c :: rest)

/-- `prefix`, in either case, and the rest after it. -/
def scanWord (word s : Bytes) : Option Bytes :=
  if (toLower s).take word.length = word then some (s.drop word.length) else none

/-- Digits with an optional decimal point, at least one digit in all: the whole
and the fractional digits, and the rest. -/
def scanMantissa (isDigit : UInt8 → Bool) (s : Bytes) : Option (Bytes × Bytes × Bytes) :=
  let whole := s.takeWhile isDigit
  let after := s.dropWhile isDigit
  let hasPoint := after.head? = some point
  let fraction := if hasPoint then after.tail.takeWhile isDigit else []
  let rest := if hasPoint then after.tail.dropWhile isDigit else after
  if whole = [] ∧ fraction = [] then none else some (whole, fraction, rest)

/-- An optional exponent part with the given lower-case marker; a marker without
digits is left unread. -/
def scanExponent (marker : UInt8) (s : Bytes) : Int × Bytes :=
  match s with
  | [] => (0, [])
  | c :: rest =>
      if tolower c = marker then
        let signed := scanSign rest
        let digits := signed.2.takeWhile isdigit
        if digits = [] then (0, s)
        else
          let value : Int := digitsValue 10 digits
          (if signed.1 then -value else value, signed.2.dropWhile isdigit)
      else (0, s)

/-- `mantissa * base ^ exponent` as a ratio of natural numbers. -/
def powerRatio (base mantissa : Nat) (exponent : Int) : Nat × Nat :=
  (mantissa * base ^ exponent.toNat, base ^ (-exponent).toNat)

/-- What a successful conversion returns. -/
structure Converted (α : Type) where
  value : α
  rest : Bytes
  outOfRange : Bool
deriving DecidableEq

/-- Convert a scanned mantissa and exponent. -/
def convertScanned (negative : Bool) (digitBase base digitPower : Nat) (marker : UInt8)
    (whole fraction rest : Bytes) : Converted Binary64 :=
  let exponent := scanExponent marker rest
  let ratio := powerRatio base (digitsValue digitBase (whole ++ fraction))
    (exponent.1 - digitPower * fraction.length)
  { value := Binary64.ofRatio negative ratio.1 ratio.2
    rest := exponent.2
    outOfRange := Binary64.rangeError ratio.1 ratio.2 }

/-- The unread rest after `nan`: a parenthesized tag of letters, digits and
underscores belongs to it. -/
def skipNanTag (s : Bytes) : Bytes :=
  let after := s.tail.dropWhile fun c => isdigit c || (65 ≤ c && c ≤ 90) ||
    (97 ≤ c && c ≤ 122) || c == 95
  if s.head? = some 40 ∧ after.head? = some 41 then after.tail else s

/-- The number after the sign.  `0x` counts only before a hexadecimal mantissa;
otherwise the `0` alone is the number.  No tag after `nan` reports a range error; glibc
reports one where the tag is a number of more than 64 bits. -/
def scanNumber (negative : Bool) (s : Bytes) : Option (Converted Binary64) :=
  match scanWord (ascii "infinity") s with
  | some rest => some ⟨Binary64.infinity negative, rest, false⟩
  | none =>
  match scanWord (ascii "inf") s with
  | some rest => some ⟨Binary64.infinity negative, rest, false⟩
  | none =>
  match scanWord (ascii "nan") s with
  | some rest => some ⟨Binary64.nan negative, skipNanTag rest, false⟩
  | none =>
  match (scanWord (ascii "0x") s).bind (scanMantissa isxdigit) with
  | some (whole, fraction, rest) =>
      some (convertScanned negative 16 2 4 112 whole fraction rest)
  | none =>
  match scanMantissa isdigit s with
  | some (whole, fraction, rest) =>
      some (convertScanned negative 10 10 1 101 whole fraction rest)
  | none => none

/-- `strtod`; `none` when no conversion was performed. -/
def strtod (s : Bytes) : Option (Converted Binary64) :=
  let signed := scanSign (s.dropWhile isspace)
  scanNumber signed.1 signed.2

/-- `strtol` in a base up to ten, on 64-bit `long`: out-of-range values saturate. -/
def strtol (base : Nat) (s : Bytes) : Option (Converted Int) :=
  let signed := scanSign (s.dropWhile isspace)
  let isDigit : UInt8 → Bool := fun c => isdigit c && decide (digitValue c < base)
  let digits := signed.2.takeWhile isDigit
  if digits = [] then none
  else
    let magnitude : Int := digitsValue base digits
    let value : Int := if signed.1 then -magnitude else magnitude
    some
      { value := max (-2 ^ 63) (min (2 ^ 63 - 1) value)
        rest := signed.2.dropWhile isDigit
        outOfRange := decide (value < -2 ^ 63) || decide (2 ^ 63 - 1 < value) }

end DecimalText
