import SourceScan.Toml.Reader

/-!
# Numbers, dates and times

Digits may be grouped by single underscores, which stand between two digits. Integers must fit
into 64 bits with a sign; a float that rounds to the positive infinity is refused, so that an
infinite value has to be written as one.
-/

namespace SourceScan.Toml.Reader

/-- Characters of one class, with single underscores between them, which are dropped. -/
def grouped (test : Char → Bool) : Reader (List Char) := do
  let first ← satisfy test
  let more ← many (satisfy test <|> char '_' *> satisfy test)
  pure (first :: more)

/-- A sign, if there is one; true stands for a minus. -/
def sign : Reader Bool := char '-' *> pure true <|> char '+' *> pure false <|> pure false

/-- Decimal digits without superfluous zeros in front. -/
def wholeDigits : Reader (List Char) :=
  ahead (satisfy fun c => c != '0') *> grouped Char.isDigit <|> char '0' *> pure ['0']

/-! ## Integers -/

/-- The least and the largest integer. -/
def inIntegerRange (n : Int) : Bool := Int64.minValue.toInt ≤ n && n ≤ Int64.maxValue.toInt

/-- An integer in another base, with its mark and without a sign. -/
def basedInteger (mark : Char) (base : Nat) : Reader Int := do
  chars ['0', mark]
  pure (Digits.toNat base (← grouped (Digits.isIn base)))

def decimalInteger : Reader Int := do
  let negative ← sign
  let n : Int := Digits.toNat 10 (← wholeDigits)
  pure (if negative then -n else n)

def integer : Reader Int := do
  let n ← basedInteger 'x' 16 <|> basedInteger 'o' 8 <|> basedInteger 'b' 2 <|> decimalInteger
  if inIntegerRange n then pure n else failure

/-! ## Floats -/

def exponent : Reader Int := do
  let _ ← satisfy fun c => c = 'e' || c = 'E'
  let negative ← sign
  let n : Int := Digits.toNat 10 (← grouped Char.isDigit)
  pure (if negative then -n else n)

def fraction : Reader (List Char) := char '.' *> grouped Char.isDigit

/-- **The value of a numeral with an exponent.** An exponent beyond the digits of the number by
more than four hundred makes the number vanish or overflow whatever it is exactly, so it is cut
off there. -/
def floatValue (negative : Bool) (whole fraction : List Char) (exponent : Int) : Binary64 :=
  let bound : Int := 400 + (whole.length + fraction.length : Nat)
  let magnitude := Binary64.ofDecimal
    (Decimal.ofParts whole fraction (max (-bound) (min bound exponent)))
  if negative then magnitude.neg else magnitude

/-- A float in digits: with a fraction, an exponent, or both. -/
def decimalFloat : Reader Binary64 := do
  let negative ← sign
  let whole ← wholeDigits
  let (digits, e) ← (do pure ([], ← exponent)) <|> (do
    let digits ← fraction
    let e ← optional? exponent
    pure (digits, e.getD 0))
  let value := floatValue negative whole digits e
  if value = Binary64.infinity then failure else pure value

/-- An infinity or a NaN by its name. -/
def namedFloat : Reader Binary64 := do
  let negative ← sign
  let value ← chars ['i', 'n', 'f'] *> pure Binary64.infinity
    <|> chars ['n', 'a', 'n'] *> pure Binary64.nan
  pure (if negative then value.neg else value)

def float : Reader Binary64 := decimalFloat <|> namedFloat

/-! ## Dates and times -/

/-- A number of exactly so many digits, within bounds. -/
def fixedDigits (count low high : Nat) : Reader Nat := do
  let n := Digits.toNat 10 (← exactly count (satisfy Char.isDigit))
  if low ≤ n && n ≤ high then pure n else failure

def daysIn (year month : Nat) : Nat :=
  if month = 2 then
    if year % 4 = 0 && (year % 100 != 0 || year % 400 = 0) then 29 else 28
  else if month = 4 || month = 6 || month = 9 || month = 11 then 30
  else 31

def date : Reader Unit := do
  let year ← fixedDigits 4 0 9999
  char '-'
  let month ← fixedDigits 2 1 12
  char '-'
  let _ ← fixedDigits 2 1 (daysIn year month)

/-- A time of day; the sixtieth second leaves room for a leap second. -/
def time : Reader Unit := do
  let _ ← fixedDigits 2 0 23
  char ':'
  let _ ← fixedDigits 2 0 59
  char ':'
  let _ ← fixedDigits 2 0 60
  let _ ← optional? (char '.' *> takeWhile1 Char.isDigit)

/-- The distance from universal time. -/
def zone : Reader Unit :=
  (satisfy fun c => c = 'Z' || c = 'z') *> pure ()
    <|> do
      let _ ← satisfy fun c => c = '+' || c = '-'
      let _ ← fixedDigits 2 0 23
      char ':'
      let _ ← fixedDigits 2 0 59

/-- A date, a date with a time, or a time. -/
def moment : Reader Unit :=
  (do
    date
    let _ ← optional? (do
      let _ ← satisfy fun c => c = 'T' || c = 't' || c = ' '
      time
      optional? zone))
  <|> time

end SourceScan.Toml.Reader
