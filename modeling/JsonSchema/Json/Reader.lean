import JsonSchema.Json.Basic

/-!
# Reading JSON text

`Json.ofText?` reads one JSON value that fills the whole text. Members keep their order; a name
given twice keeps its first place and its last value. A number without fraction and exponent is an
integer, any other a double, and the words `NaN`, `Infinity` and `-Infinity` are read as doubles
too. Every reader takes a list of characters and returns what it read with the rest.
-/

namespace JsonSchema.Json

/-- White space between the tokens of a JSON text. -/
def isSpace (c : Char) : Bool :=
  c = ' ' || c = '\t' || c = '\n' || c = '\r'

/-- Drops white space in front. -/
def skipSpace (input : List Char) : List Char :=
  input.dropWhile isSpace

/-- Takes the given word off the front. -/
def takeWord? : List Char → List Char → Option (List Char)
  | [], input => some input
  | c :: word, d :: input => if c = d then takeWord? word input else none
  | _ :: _, [] => none

/-- The value of a hexadecimal digit. -/
def hexValue? (c : Char) : Option Nat :=
  if c.isDigit then some (c.toNat - 48)
  else if 'a' ≤ c ∧ c ≤ 'f' then some (c.toNat - 87)
  else if 'A' ≤ c ∧ c ≤ 'F' then some (c.toNat - 55)
  else none

/-- Reads four hexadecimal digits. -/
def takeUnit? : List Char → Option (Nat × List Char)
  | a :: b :: c :: d :: rest => do
    let a ← hexValue? a
    let b ← hexValue? b
    let c ← hexValue? c
    let d ← hexValue? d
    return (((a * 16 + b) * 16 + c) * 16 + d, rest)
  | _ => none

/-- Joins the escape of a high surrogate with that of a low one behind it. -/
def joinSurrogates (unit : Nat) (rest : List Char) : Char × List Char :=
  let alone := (Char.ofNat (if 0xD800 ≤ unit ∧ unit < 0xE000 then 0xFFFD else unit), rest)
  if 0xD800 ≤ unit ∧ unit < 0xDC00 then
    match rest with
    | '\\' :: 'u' :: more =>
      match takeUnit? more with
      | some (low, after) =>
        if 0xDC00 ≤ low ∧ low < 0xE000 then
          (Char.ofNat (0x10000 + (unit - 0xD800) * 0x400 + (low - 0xDC00)), after)
        else alone
      | none => alone
    | _ => alone
  else alone

/-- The character that a one-letter escape stands for. -/
def simpleEscape? : Char → Option Char
  | '"' => some '"'
  | '\\' => some '\\'
  | '/' => some '/'
  | 'b' => some '\x08'
  | 'f' => some '\x0c'
  | 'n' => some '\n'
  | 'r' => some '\r'
  | 't' => some '\t'
  | _ => none

/-- Reads the rest of a string whose opening quote is past; `fuel` bounds the number of its
characters. -/
def takeString? : Nat → List Char → List Char → Option (String × List Char)
  | 0, _, _ => none
  | fuel + 1, done, input =>
    match input with
    | [] => none
    | '"' :: rest => some (String.ofList done.reverse, rest)
    | '\\' :: 'u' :: rest => do
      let (unit, rest) ← takeUnit? rest
      let (c, rest) := joinSurrogates unit rest
      takeString? fuel (c :: done) rest
    | '\\' :: e :: rest => do
      let c ← simpleEscape? e
      takeString? fuel (c :: done) rest
    | c :: rest => if c.toNat < 32 then none else takeString? fuel (c :: done) rest

/-- Takes one or more digits behind a mark, or nothing. -/
def takeFraction (input : List Char) : List Char × List Char :=
  match input with
  | '.' :: rest =>
    let digits := rest.takeWhile Char.isDigit
    if digits.isEmpty then ([], input) else (digits, rest.dropWhile Char.isDigit)
  | _ => ([], input)

/-- Takes an exponent, or nothing. -/
def takeExponent? (input : List Char) : Option Int × List Char :=
  match input with
  | c :: rest =>
    if c = 'e' ∨ c = 'E' then
      let (negative, body) := Decimal.splitSign rest
      match digitsValue? (body.takeWhile Char.isDigit) with
      | some n =>
        if (body.takeWhile Char.isDigit).isEmpty then (none, input)
        else (some (if negative then -(n : Int) else n), body.dropWhile Char.isDigit)
      | none => (none, input)
    else (none, input)
  | [] => (none, input)

/-- Reads a number from its first digit on. -/
def takeMagnitude? (negative : Bool) (input : List Char) : Option (Number × List Char) := do
  let run := input.takeWhile Char.isDigit
  let whole := if run.head? = some '0' then ['0'] else run
  if whole.isEmpty then none
  else
    let rest := input.drop whole.length
    let (fraction, rest) := takeFraction rest
    let (exponent, rest) := takeExponent? rest
    let coefficient ← digitsValue? (whole ++ fraction)
    if fraction.isEmpty && exponent.isNone then
      return (.int (if negative then -(coefficient : Int) else coefficient), rest)
    else
      let double := Double.ofDecimal negative coefficient (exponent.getD 0 - fraction.length)
      return (.double double, rest)

/-- Reads a value that is no string, list or object. -/
def takeScalar? (input : List Char) : Option (Json × List Char) :=
  match input with
  | 'n' :: _ => (takeWord? "null".toList input).map (.null, ·)
  | 't' :: _ => (takeWord? "true".toList input).map (.bool true, ·)
  | 'f' :: _ => (takeWord? "false".toList input).map (.bool false, ·)
  | 'N' :: _ => (takeWord? "NaN".toList input).map (.number (.double .nan), ·)
  | 'I' :: _ => (takeWord? "Infinity".toList input).map (.number (.double (.infinite false)), ·)
  | '-' :: 'I' :: rest =>
    (takeWord? "nfinity".toList rest).map (.number (.double (.infinite true)), ·)
  | '-' :: rest => (takeMagnitude? true rest).map fun (n, rest) => (.number n, rest)
  | _ => (takeMagnitude? false input).map fun (n, rest) => (.number n, rest)

mutual

/-- Reads a value from its first character on; `fuel` bounds the number of tokens. -/
def takeValue? : Nat → List Char → Option (Json × List Char)
  | 0, _ => none
  | fuel + 1, input =>
    match input with
    | '"' :: rest => (takeString? fuel [] rest).map fun (s, rest) => (.string s, rest)
    | '[' :: rest =>
      match skipSpace rest with
      | ']' :: rest => some (.array [], rest)
      | rest => (takeItems? fuel [] rest).map fun (items, rest) => (.array items, rest)
    | '\x7b' :: rest =>
      match skipSpace rest with
      | '\x7d' :: rest => some (.object [], rest)
      | rest => (takeMembers? fuel [] rest).map fun (members, rest) => (.object members, rest)
    | _ => takeScalar? input

/-- Reads the items of a list up to its closing bracket. -/
def takeItems? : Nat → List Json → List Char → Option (List Json × List Char)
  | 0, _, _ => none
  | fuel + 1, done, input => do
    let (item, rest) ← takeValue? fuel (skipSpace input)
    match skipSpace rest with
    | ',' :: rest => takeItems? fuel (item :: done) rest
    | ']' :: rest => some ((item :: done).reverse, rest)
    | _ => none

/-- Reads the members of an object up to its closing brace. -/
def takeMembers? :
    Nat → List (String × Json) → List Char → Option (List (String × Json) × List Char)
  | 0, _, _ => none
  | fuel + 1, done, input =>
    match skipSpace input with
    | '"' :: rest => do
      let (name, rest) ← takeString? fuel [] rest
      match skipSpace rest with
      | ':' :: rest => do
        let (value, rest) ← takeValue? fuel (skipSpace rest)
        let members := Members.put done name value
        match skipSpace rest with
        | ',' :: rest => takeMembers? fuel members rest
        | '\x7d' :: rest => some (members, rest)
        | _ => none
      | _ => none
    | _ => none

end

/-- Reads a JSON text that holds exactly one value. -/
def ofText? (text : String) : Option Json :=
  let input := text.toList
  match takeValue? (2 * input.length + 4) (skipSpace input) with
  | some (value, rest) => if (skipSpace rest).isEmpty then some value else none
  | none => none

end JsonSchema.Json
