/-!
# Binary floating numbers of 64 bits

A finite number is a sign, a significand below `2 ^ 53` and a power of two. Decimals are rounded
to it exactly, by whole-number arithmetic.
-/

namespace Dissection

/-- A number of the 64-bit format. A finite one is the significand times two to the exponent; the
significand has 53 bits unless the exponent is the least one. -/
inductive Binary64 where
  | nan
  | infinite (negative : Bool)
  | finite (negative : Bool) (significand : Nat) (exponent : Int)
  deriving DecidableEq, Repr

namespace Binary64

def powerOfTwo (n : Nat) : Nat := Nat.pow 2 n

def powerOfTen (n : Nat) : Nat := Nat.pow 10 n

def leastExponent : Int := -1074

def greatestExponent : Int := 971

/-- The quotient rounded to the nearest whole number, a half going to the even one. -/
def roundHalfEven (num den : Nat) : Nat :=
  let q := num / den
  let r := 2 * (num % den)
  if r < den then q else if den < r then q + 1 else q + q % 2

/-- The quotient divided by two to the exponent, as a numerator and a denominator. -/
def scaleDown (num den : Nat) (exponent : Int) : Nat × Nat :=
  (num * powerOfTwo (-exponent).toNat, den * powerOfTwo exponent.toNat)

/-- The exponent at which the quotient has a significand of 53 bits, or the least one. -/
def exponentOf (num den : Nat) : Int :=
  let guess : Int := (num.log2 : Int) - den.log2 - 52
  let (n, d) := scaleDown num den guess
  max leastExponent (if n < powerOfTwo 52 * d then guess - 1 else guess)

/-- The nearest number to a positive quotient, a tie going to the even significand. -/
def ofQuotient (negative : Bool) (num den : Nat) : Binary64 :=
  let e := exponentOf num den
  let (n, d) := scaleDown num den e
  let m := roundHalfEven n d
  let (m, e) := if m = powerOfTwo 53 then (powerOfTwo 52, e + 1) else (m, e)
  if greatestExponent < e then .infinite negative else .finite negative m e

def digitCount (n : Nat) : Nat := (Nat.toDigits 10 n).length

/-- The nearest number to `digits * 10 ^ power`. Powers so far out that the answer is zero or
infinite whatever the digits are not multiplied out. -/
def ofDecimal (negative : Bool) (digits : Nat) (power : Int) : Binary64 :=
  let magnitude := digitCount digits + power
  if digits = 0 ∨ magnitude < -330 then .finite negative 0 leastExponent
  else if 310 < magnitude then .infinite negative
  else ofQuotient negative (digits * powerOfTen power.toNat) (powerOfTen (-power).toNat)

example : ofDecimal false 1 (-1) = .finite false 0x1999999999999A (-56) := by decide +kernel
example : ofDecimal false 5 (-324) = .finite false 1 (-1074) := by decide +kernel
example : ofDecimal true 2 308 = .infinite true := by decide +kernel

end Binary64

end Dissection

/-!
## The shortest decimal of a floating number

Every real near a floating number rounds to it. Among the decimals with this property the one with
the fewest digits is written: the multiple of the greatest possible power of ten, of two such
multiples the nearer to the number, and the even one of two that are equally near.
-/

namespace Dissection.Binary64

/-- The interval of the reals that round to a number, in units of a quarter of two to its exponent:
the ends belong to it if `closed`. -/
structure Rounding where
  low : Nat
  value : Nat
  high : Nat
  closed : Bool

/-- The interval of a positive number. It is shorter below where the exponents change. -/
def roundingOf (significand : Nat) (exponent : Int) : Rounding where
  low := if significand = powerOfTwo 52 ∧ leastExponent < exponent then 4 * significand - 1
    else 4 * significand - 2
  value := 4 * significand
  high := 4 * significand + 2
  closed := significand % 2 = 0

/-- The multiple of `den / num` units that is taken for the number, if one of its two neighbours
rounds to it. -/
def nearestMultiple? (i : Rounding) (num den : Nat) : Option Nat :=
  let inside (c : Nat) : Bool :=
    if i.closed then i.low * num ≤ c * den && c * den ≤ i.high * num
    else i.low * num < c * den && c * den < i.high * num
  let c := i.value * num / den
  let r := 2 * (i.value * num % den)
  if inside c then
    if inside (c + 1) then some (if r < den then c else if den < r then c + 1 else c + c % 2)
    else some c
  else if inside (c + 1) then some (c + 1) else none

def shortestFrom (i : Rounding) (exponent : Int) : (tries : Nat) → (power : Int) → Nat × Int
  | 0, power => (0, power)
  | tries + 1, power =>
    let unit := exponent - 2
    let num := powerOfTwo unit.toNat * powerOfTen (-power).toNat
    let den := powerOfTwo (-unit).toNat * powerOfTen power.toNat
    match nearestMultiple? i num den with
    | some c => (c, power)
    | none => shortestFrom i exponent tries (power - 1)

/-- The digits and the power of ten of the shortest decimal of a positive number. -/
def shortest (significand : Nat) (exponent : Int) : Nat × Int :=
  shortestFrom (roundingOf significand exponent) exponent 640 308

/-- Where numbers are written positionally: the exponents of the first digit, both ends included. -/
structure Positional where
  least : Int
  greatest : Int

/-- The digits with the point after the first `point` of them and at least one on either side. -/
def positionalText (digits : List Char) (point : Int) : List Char :=
  if point ≤ 0 then '0' :: '.' :: (List.replicate (-point).toNat '0' ++ digits)
  else
    let whole := digits.take point.toNat
    let part := digits.drop point.toNat
    whole ++ List.replicate (point.toNat - digits.length) '0' ++
      '.' :: (if part.isEmpty then ['0'] else part)

/-- The digits with the point after the first, and the exponent with a sign and two digits. -/
def scientificText (digits : List Char) (exponent : Int) : List Char :=
  let size := Nat.toDigits 10 exponent.natAbs
  let fraction := match digits with
    | d :: e :: r => d :: '.' :: e :: r
    | ds => ds
  fraction ++ 'e' :: (if exponent < 0 then '-' else '+') ::
    (List.replicate (2 - size.length) '0' ++ size)

def text (range : Positional) : Binary64 → String
  | .nan => "nan"
  | .infinite negative => if negative then "-inf" else "inf"
  | .finite negative significand exponent =>
    let (digits, power) := if significand = 0 then (0, 0) else shortest significand exponent
    let shown := Nat.toDigits 10 digits
    let first := shown.length + power - 1
    let sign := if negative then "-" else ""
    sign ++ String.ofList (if range.least ≤ first ∧ first ≤ range.greatest
      then positionalText shown (first + 1) else scientificText shown first)

end Dissection.Binary64
