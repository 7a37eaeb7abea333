import SourceScan.Number.Binary64

/-!
# Numbers as text

A finite number is written with the shortest digits that read back as it: of all decimals that are
nearest to no other binary number than `x`, `Binary64.shortest` is the one on the coarsest decimal
grid; of two on that grid, the nearer, and of two equally near the larger.

A grid is the multiples of one power of ten. If any of its points reads back as `x`, so does one
of the two next to `x`, because rounding is monotone; so only these two are looked at. The grid of
`10 ^ (-1074)` holds every finite number itself, so the search that ends there always answers.

A `FloatStyle` says which magnitudes are written plainly, with the point in its place; the others
get an exponent. Plain text has a digit on either side of the point, whole numbers end in `.0`.
-/

namespace SourceScan

/-! ## The shortest decimal that reads back -/

namespace Binary64

/-- The multiple of `10 ^ exponent` just below the magnitude of `x` or equal to it. -/
def gridFloor (x : Binary64) (exponent : Int) : Nat :=
  if 0 ≤ exponent then x.units / (Nat.pow 2 unitBits * Nat.pow 10 exponent.toNat)
  else x.units * Nat.pow 10 (-exponent).toNat / Nat.pow 2 unitBits

/-- The magnitude of `x` lies strictly closer to `n` than to `n + 1`, both multiples of
`10 ^ exponent`. -/
def closerToFloor (x : Binary64) (exponent : Int) (n : Nat) : Bool :=
  if 0 ≤ exponent then 2 * x.units < (2 * n + 1) * (Nat.pow 2 unitBits * Nat.pow 10 exponent.toNat)
  else 2 * (x.units * Nat.pow 10 (-exponent).toNat) < (2 * n + 1) * Nat.pow 2 unitBits

/-- The decimal reads back as the magnitude of `x`. -/
def readsBack (x : Binary64) (d : Decimal) : Bool := (ofDecimal d).magnitude == x.magnitude

/-- The point of a grid next to `x` that reads back, if there is one. -/
def onGrid? (x : Binary64) (exponent : Int) : Option Decimal :=
  let n := x.gridFloor exponent
  let below : Decimal := ⟨n, exponent⟩
  let above : Decimal := ⟨n + 1, exponent⟩
  match x.readsBack below, x.readsBack above with
  | true, true => some (if x.closerToFloor exponent n then below else above)
  | true, false => some below
  | false, true => some above
  | false, false => none

/-- Tries ever finer grids, at most `steps` of them, and then takes the point below `x`. -/
def searchGrids (x : Binary64) : Nat → Int → Decimal
  | 0, exponent => ⟨x.gridFloor exponent, exponent⟩
  | steps + 1, exponent =>
    match x.onGrid? exponent with
    | some d => d
    | none => x.searchGrids steps (exponent - 1)

/-- A power of ten not below the leading digit of a finite positive number: `log₁₀ 2` is a little
more than `1233 / 4096`, and one is added for what the fraction leaves out. -/
def coarsestExponent (x : Binary64) : Int :=
  (Nat.log2 x.units + 1 - unitBits : Int) * 1233 / 4096 + 1

/-- **The shortest decimal** that reads back as a finite positive magnitude. -/
def shortest (x : Binary64) : Decimal :=
  x.searchGrids (x.coarsestExponent + unitBits).toNat x.coarsestExponent

end Binary64

/-! ## Styles -/

/-- Which positive finite magnitudes are written without an exponent. -/
structure FloatStyle where
  plain : Binary64 → Bool

namespace FloatStyle

/-- Numbers with up to sixteen digits before the point, or up to three zeros behind it, are
plain. -/
def moderate : FloatStyle where
  plain x :=
    (Binary64.ofDecimal ⟨1, -4⟩).magnitude ≤ x.magnitude
      && x.magnitude < (Binary64.ofDecimal ⟨1, 16⟩).magnitude

def positional : FloatStyle where
  plain _ := true

/-- Plain text: zeros fill up the digits as far as the point on either side. -/
def plainChars (d : Decimal) : List Char :=
  let digits := Nat.toDigits 10 d.coefficient
  if 0 ≤ d.exponent then digits ++ List.replicate d.exponent.toNat '0' ++ ['.', '0']
  else
    let places := (-d.exponent).toNat
    let padded := digits.leftpad (places + 1) '0'
    padded.take (padded.length - places) ++ '.' :: padded.drop (padded.length - places)

/-- Text with an exponent: one digit before the point, and no point if that is all. -/
def exponentChars (d : Decimal) : List Char :=
  let digits := Nat.toDigits 10 d.coefficient
  let exponent := d.exponent + (digits.length - 1 : Nat)
  let fraction := if digits.length ≤ 1 then [] else '.' :: digits.drop 1
  digits.take 1 ++ fraction ++ 'e' :: (toString exponent).toList

def magnitudeChars (style : FloatStyle) (x : Binary64) : List Char :=
  if x.isInfinite then ['i', 'n', 'f']
  else if x.magnitude = 0 then ['0', '.', '0']
  else if style.plain x then plainChars x.shortest
  else exponentChars x.shortest

/-- **The text of a number.** -/
def render (style : FloatStyle) (x : Binary64) : String :=
  if x.isNaN then "NaN"
  else if x.isNegative then String.ofList ('-' :: style.magnitudeChars x)
  else String.ofList (style.magnitudeChars x)

end FloatStyle

end SourceScan
