/-!
# Numbers

Numbers come from numerals in digits of some base up to sixteen (`Digits`). A decimal numeral is
kept exactly, as a coefficient and a power of ten (`Decimal`); only as a `Binary64` it is rounded.

A `Binary64` is its 64 bits: a sign, eleven bits of exponent and 52 bits of fraction. Two numbers
with the same bits are the same value of the type; `Binary64.equal` is the comparison of the numbers
they stand for, under which a NaN differs from itself and the two zeros agree.

Magnitudes are counted in units of `2 ^ (-1074)`, the smallest positive number. In these units
every finite magnitude is the natural number `significand · 2 ^ shift`, and rounding is arithmetic
on natural numbers.
-/

namespace SourceScan

/-! ## Digits

The most significant digit comes first. Letters stand for the digits from ten on, in either case. -/

namespace Digits

def value (c : Char) : Nat :=
  if c.isDigit then c.toNat - '0'.toNat else c.toLower.toNat - 'a'.toNat + 10

def isIn (base : Nat) (c : Char) : Bool :=
  (c.isDigit || ('a' ≤ c.toLower && c.toLower ≤ 'f')) && value c < base

/-- **The number that digits denote.** -/
def toNat (base : Nat) (digits : List Char) : Nat :=
  digits.foldl (fun n c => base * n + value c) 0

end Digits

/-! ## Decimal numbers -/

/-- **An exact decimal number,** `coefficient · 10 ^ exponent`. -/
structure Decimal where
  coefficient : Nat
  exponent : Int
deriving DecidableEq, Inhabited

namespace Decimal

/-- The numeral with the given digits before and behind the point, times a power of ten. -/
def ofParts (whole fraction : List Char) (exponent : Int) : Decimal :=
  ⟨Digits.toNat 10 (whole ++ fraction), exponent - fraction.length⟩

/-- **Reading a plain numeral:** digits, and possibly a point with more digits behind it. There
is a digit on either side of a point, and no sign or exponent. -/
def read? (text : List Char) : Option Decimal :=
  let whole := text.takeWhile Char.isDigit
  if whole.isEmpty then none else
    match text.dropWhile Char.isDigit with
    | [] => some (ofParts whole [] 0)
    | '.' :: fraction =>
      if fraction.isEmpty || !fraction.all Char.isDigit then none
      else some (ofParts whole fraction 0)
    | _ => none

end Decimal

/-! ## Binary floating point numbers -/

/-- **A floating point number,** given by its bits. -/
structure Binary64 where
  bits : UInt64
deriving DecidableEq, Inhabited

namespace Binary64

/-- The units in a number `1`, as a power of two. -/
def unitBits : Nat := 1074

/-- The bits of the positive infinity; the bits of a NaN are above them. -/
def infinityBits : Nat := 0x7FF0000000000000

/-- The bits without the sign. They grow with the magnitude of the number. -/
def magnitude (x : Binary64) : Nat := x.bits.toNat % Nat.pow 2 63

def isNegative (x : Binary64) : Bool := Nat.pow 2 63 ≤ x.bits.toNat

def isNaN (x : Binary64) : Bool := infinityBits < x.magnitude

def isInfinite (x : Binary64) : Bool := x.magnitude == infinityBits

def infinity : Binary64 := ⟨UInt64.ofNat infinityBits⟩

/-- The not-a-number with a clear sign and only the first bit of the fraction set. -/
def nan : Binary64 := ⟨0x7FF8000000000000⟩

def neg (x : Binary64) : Binary64 := ⟨x.bits ^^^ 0x8000000000000000⟩

/-- The digits of a finite magnitude: the fraction, with the leading one that is not stored for
numbers of normal size. -/
def significand (x : Binary64) : Nat :=
  if x.magnitude / Nat.pow 2 52 = 0 then x.magnitude else x.magnitude % Nat.pow 2 52 + Nat.pow 2 52

/-- The power of two that scales the significand to units. -/
def shift (x : Binary64) : Nat := x.magnitude / Nat.pow 2 52 - 1

def units (x : Binary64) : Nat := x.significand * Nat.pow 2 x.shift

/-- **Equality of numbers.** A NaN equals nothing, and zero has one value whatever its sign. -/
def equal (x y : Binary64) : Bool :=
  !x.isNaN && !y.isNaN && (x == y || (x.magnitude == 0 && y.magnitude == 0))

/-- The quotient `m / n`, rounded to the nearest whole number, a half to the even one. -/
def roundHalfEven (m n : Nat) : Nat :=
  let quotient := m / n
  let twice := 2 * (m % n)
  if twice < n then quotient
  else if n < twice then quotient + 1
  else quotient + quotient % 2

/-- **The nearest number to a fraction,** ties to the even significand. The shift leaves 53 bits
of the quotient, or all of it when it is smaller; adding the rounded significand to the shifted
exponent carries into the exponent by itself, and what goes past the largest number is infinite. -/
def nearestRatio (numerator denominator : Nat) : Binary64 :=
  let scaled := numerator * Nat.pow 2 unitBits
  let shift := Nat.log2 (scaled / denominator) - 52
  let significand := roundHalfEven scaled (denominator * Nat.pow 2 shift)
  ⟨UInt64.ofNat (min (shift * Nat.pow 2 52 + significand) infinityBits)⟩

/-- The nearest number to an exact decimal. -/
def ofDecimal (d : Decimal) : Binary64 :=
  if 0 ≤ d.exponent then nearestRatio (d.coefficient * Nat.pow 10 d.exponent.toNat) 1
  else nearestRatio d.coefficient (Nat.pow 10 (-d.exponent).toNat)

/-- The value of a plain numeral. -/
def read? (text : List Char) : Option Binary64 := (Decimal.read? text).map ofDecimal

end Binary64

end SourceScan
