/-!
# Binary floating-point numbers

A double is kept decoded: sign, significand and exponent of its last place. `Double.ofRatio` rounds
a quotient of naturals to the nearest double, a tie to the even significand; `Double.ofDecimal` does
so for a decimal. `Double.shortest` goes back: of the decimals that `ofDecimal` reads as the given
double it takes one with the fewest digits, and of those the nearest.
-/

namespace JsonSchema

/-- A double: `(-1)^negative * significand * 2^exponent`, an infinity, or not a number. -/
inductive Double where
  | finite (negative : Bool) (significand : Nat) (exponent : Int)
  | infinite (negative : Bool)
  | nan
  deriving DecidableEq, Inhabited, Repr

/-- A quotient of naturals times a power of two, again as a quotient. -/
def scaleByTwo (num den : Nat) (shift : Int) : Nat × Nat :=
  if 0 ≤ shift then (num * Nat.pow 2 shift.toNat, den) else (num, den * Nat.pow 2 (-shift).toNat)

/-- The integer nearest to `num / den`; a tie goes to the even one. -/
def roundHalfEven (num den : Nat) : Nat :=
  let floor := num / den
  let rest := 2 * (num % den)
  if rest < den then floor
  else if den < rest then floor + 1
  else floor + floor % 2

/-- A positive or negative power of ten. -/
def tenToThe (exponent : Int) : Rat :=
  if 0 ≤ exponent then Nat.pow 10 exponent.toNat else 1 / Nat.pow 10 (-exponent).toNat

/-- The number of decimal digits of `n`; zero has one. -/
def decimalLength (n : Nat) : Nat :=
  (Nat.toDigits 10 n).length

namespace Double

/-- The exponent of the last place of every subnormal double, and the least of all. -/
def minExponent : Int := -1074

/-- The greatest exponent of a last place. -/
def maxExponent : Int := 971

/-- Zero, with its sign. -/
def zero (negative : Bool) : Double :=
  .finite negative 0 minExponent

/-- The exponent at which `num / den` has a significand of 53 bits, or the least exponent. -/
def lastPlace (num den : Nat) : Int :=
  let exponent : Int := (num.log2 : Int) - den.log2 - 53
  let (n, d) := scaleByTwo num den (-exponent)
  max minExponent (if n / d < Nat.pow 2 53 then exponent else exponent + 1)

/-- The double nearest to `num / den`; a tie goes to the even significand, and what rounds past the
greatest finite double is infinite. -/
def ofRatio (negative : Bool) (num den : Nat) : Double :=
  if num = 0 then zero negative
  else
    let exponent := lastPlace num den
    let (n, d) := scaleByTwo num den (-exponent)
    let rounded := roundHalfEven n d
    let (significand, exponent) :=
      if rounded = Nat.pow 2 53 then (Nat.pow 2 52, exponent + 1) else (rounded, exponent)
    if maxExponent < exponent then .infinite negative
    else .finite negative significand exponent

/-- The double nearest to `coefficient * 10^exponent`. The first two cases are far outside the
finite doubles and only keep the powers of ten small. -/
def ofDecimal (negative : Bool) (coefficient : Nat) (exponent : Int) : Double :=
  let magnitude := exponent + decimalLength coefficient
  if coefficient = 0 ∨ magnitude < -330 then zero negative
  else if 310 < magnitude then .infinite negative
  else if 0 ≤ exponent then ofRatio negative (coefficient * Nat.pow 10 exponent.toNat) 1
  else ofRatio negative coefficient (Nat.pow 10 (-exponent).toNat)

/-- The integer as a double; a large one is rounded. -/
def ofInt (n : Int) : Double :=
  ofRatio (n < 0) n.natAbs 1

/-- The exact absolute value of a finite double. -/
def magnitude (significand : Nat) (exponent : Int) : Rat :=
  let (n, d) := scaleByTwo significand 1 exponent
  (n : Rat) / (d : Rat)

/-- The exact value of a finite double. -/
def value? : Double → Option Rat
  | .finite negative significand exponent =>
    let m := magnitude significand exponent
    some (if negative then -m else m)
  | _ => none

/-- Whether a double is neither infinite nor NaN. -/
def isFinite : Double → Bool
  | .finite .. => true
  | _ => false

/-- The number of digits before the decimal point of a positive rational, counted negatively for
zeros after it: the `p` with `10^(p-1) ≤ q < 10^p`. -/
def pointPosition (q : Rat) : Int :=
  let guess : Int := (decimalLength q.num.natAbs : Int) - decimalLength q.den
  if tenToThe guess ≤ q then guess + 1 else guess

/-- The nearer of the two neighbours of `q` on the decimal grid with the given spacing that
`accepts` takes; a tie goes to the even one. -/
def nearestOnGrid? (q : Rat) (spacing : Int) (accepts : Nat → Int → Bool) : Option (Nat × Int) :=
  let scaled := q / tenToThe spacing
  let below := scaled.floor.toNat
  let above := below + 1
  match accepts below spacing, accepts above spacing with
  | true, false => some (below, spacing)
  | false, true => some (above, spacing)
  | false, false => none
  | true, true =>
    let gap := scaled - (below : Rat)
    if gap < 1 / 2 ∨ (gap = 1 / 2 ∧ below % 2 = 0) then some (below, spacing)
    else some (above, spacing)

/-- Drops the zeros at the end of a coefficient; `fuel` bounds their number. -/
def dropZeros : Nat → Nat → Int → Nat × Int
  | 0, coefficient, exponent => (coefficient, exponent)
  | fuel + 1, coefficient, exponent =>
    if coefficient ≠ 0 ∧ coefficient % 10 = 0 then dropZeros fuel (coefficient / 10) (exponent + 1)
    else (coefficient, exponent)

/-- The decimal `coefficient * 10^exponent` with the fewest digits that reads back as the given
finite double, the nearest of those. Seventeen digits always suffice. -/
def shortest (significand : Nat) (exponent : Int) : Nat × Int :=
  if significand = 0 then (0, 0)
  else
    let q := magnitude significand exponent
    let point := pointPosition q
    let readsBack (coefficient : Nat) (e : Int) : Bool :=
      ofDecimal false coefficient e = .finite false significand exponent
    let found :=
      (List.range 17).findSome? fun k => nearestOnGrid? q (point - (k + 1 : Nat)) readsBack
    let (coefficient, e) := found.getD (significand, exponent)
    dropZeros (decimalLength coefficient) coefficient e

/-- The decimal that the shortest text of a finite double stands for. -/
def decimalValue? : Double → Option Rat
  | .finite negative significand exponent =>
    let (coefficient, e) := shortest significand exponent
    let m := (coefficient : Rat) * tenToThe e
    some (if negative then -m else m)
  | _ => none

/-- Whether a finite double has no fractional part; the infinities and NaN have none to speak of. -/
def isIntegral (x : Double) : Bool :=
  match x.value? with
  | some q => q.den = 1
  | none => false

/-- A sign in front of the text of a magnitude. -/
def signed (negative : Bool) (text : String) : String :=
  if negative then "-" ++ text else text

/-- An exponent with its sign and at least two digits. -/
def exponentText (exponent : Int) : String :=
  let digits := toString exponent.natAbs
  (if exponent < 0 then "e-" else "e+") ++ (if digits.length < 2 then "0" ++ digits else digits)

/-- The text of `digits` with the point after `point` of them: positional with at least one digit on
each side while the leading digit stands for `10^-4` to `10^15`, and with an exponent otherwise. -/
def layout (digits : List Char) (point : Int) : String :=
  let count : Int := digits.length
  if -4 < point ∧ point ≤ 16 then
    if point ≤ 0 then "0." ++ String.ofList (List.replicate (-point).toNat '0' ++ digits)
    else if count ≤ point then
      String.ofList (digits ++ List.replicate (point - count).toNat '0') ++ ".0"
    else String.ofList (digits.take point.toNat) ++ "." ++ String.ofList (digits.drop point.toNat)
  else
    let tail := digits.drop 1
    String.ofList (digits.take 1) ++ (if tail.isEmpty then "" else "." ++ String.ofList tail)
      ++ exponentText (point - 1)

/-- The shortest text that reads back: `1.0`, `0.0001`, `1e-05`, `1e+16`, `-0.0`, `inf`, `nan`. -/
def text : Double → String
  | .nan => "nan"
  | .infinite negative => signed negative "inf"
  | .finite negative significand exponent =>
    if significand = 0 then signed negative "0.0"
    else
      let (coefficient, e) := shortest significand exponent
      signed negative (layout (Nat.toDigits 10 coefficient) (e + decimalLength coefficient))

end Double

end JsonSchema
