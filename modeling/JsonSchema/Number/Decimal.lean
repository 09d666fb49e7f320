import JsonSchema.Number.Double

/-!
# Decimal numbers

A decimal keeps its coefficient and its exponent apart, so `1.50` and `1.5` have one value and two
texts. `Decimal.text` writes scientific notation only where positional notation would need zeros at
the end or more than five after the point; `Decimal.ofText?` reads both notations and loses no
digit.
-/

namespace JsonSchema

/-- A decimal: `(-1)^negative * coefficient * 10^exponent`, or an infinity. -/
inductive Decimal where
  | finite (negative : Bool) (coefficient : Nat) (exponent : Int)
  | infinite (negative : Bool)
  deriving DecidableEq, Inhabited, Repr

/-- The value of a list of decimal digits, or nothing if one of them is none. -/
def digitsValue? (digits : List Char) : Option Nat :=
  digits.foldl (fun value c => value.bind fun v =>
      if c.isDigit then some (10 * v + (c.toNat - 48)) else none)
    (some 0)

namespace Decimal

/-- The exact value of a finite decimal. -/
def value? : Decimal → Option Rat
  | .finite negative coefficient exponent =>
    let m := (coefficient : Rat) * tenToThe exponent
    some (if negative then -m else m)
  | .infinite _ => none

/-- Whether a decimal is not infinite. -/
def isFinite : Decimal → Bool
  | .finite .. => true
  | .infinite _ => false

/-- Whether a finite decimal has no fractional part. -/
def isIntegral (x : Decimal) : Bool :=
  match x.value? with
  | some q => q.den = 1
  | none => false

/-- The text of a decimal: positional while the exponent is not positive and the leading digit
stands for at least `10^-6`, and else with an exponent behind the first digit. -/
def text : Decimal → String
  | .infinite negative => Double.signed negative "Infinity"
  | .finite negative coefficient exponent =>
    let digits := Nat.toDigits 10 coefficient
    let count : Int := digits.length
    let leading := exponent + count - 1
    let magnitude :=
      if exponent ≤ 0 ∧ -6 ≤ leading then
        let point := count + exponent
        if exponent = 0 then String.ofList digits
        else if point ≤ 0 then "0." ++ String.ofList (List.replicate (-point).toNat '0' ++ digits)
        else String.ofList (digits.take point.toNat) ++ "."
          ++ String.ofList (digits.drop point.toNat)
      else
        let tail := digits.drop 1
        String.ofList (digits.take 1) ++ (if tail.isEmpty then "" else "." ++ String.ofList tail)
          ++ (if leading < 0 then "E-" else "E+") ++ toString leading.natAbs
    Double.signed negative magnitude

/-- Splits a sign off the front. -/
def splitSign : List Char → Bool × List Char
  | '-' :: rest => (true, rest)
  | '+' :: rest => (false, rest)
  | rest => (false, rest)

/-- Reads the exponent part of a decimal, nothing or `e` with a signed number. -/
def exponentOfText? : List Char → Option Int
  | [] => some 0
  | c :: rest =>
    if c = 'e' ∨ c = 'E' then
      let (negative, digits) := splitSign rest
      if digits.isEmpty then none
      else (digitsValue? digits).map fun n => if negative then -(n : Int) else (n : Int)
    else none

/-- Reads a decimal: a sign, digits with at most one point among them, and an exponent; or an
infinity. -/
def ofText? (text : String) : Option Decimal :=
  let (negative, body) := splitSign text.toList
  let word := String.ofList (body.map Char.toLower)
  if word = "infinity" ∨ word = "inf" then some (.infinite negative)
  else
    let whole := body.takeWhile Char.isDigit
    let afterWhole := body.dropWhile Char.isDigit
    let (fraction, rest) :=
      match afterWhole with
      | '.' :: more => (more.takeWhile Char.isDigit, more.dropWhile Char.isDigit)
      | _ => ([], afterWhole)
    if whole.isEmpty && fraction.isEmpty then none
    else do
      let coefficient ← digitsValue? (whole ++ fraction)
      let exponent ← exponentOfText? rest
      return .finite negative coefficient (exponent - fraction.length)

end Decimal

end JsonSchema
