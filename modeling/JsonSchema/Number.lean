import JsonSchema.Number.Decimal

/-!
# Numbers of a document

A number is an integer of any size, a double or a decimal. The three kinds compare by exact value,
whatever their spelling; a NaN neither equals nor precedes anything. Asking for the order of a NaN
and a decimal is an operation that decimals do not have (`Number.compares`), while their equality is
just false. `Number.fraction` is the value that division works on: for a double it is the value of
the shortest decimal text, so that `0.1` is one tenth.
-/

namespace JsonSchema

/-- A number of any of the three kinds. -/
inductive Number where
  | int (value : Int)
  | double (value : Double)
  | decimal (value : Decimal)
  deriving DecidableEq, Inhabited, Repr

/-- A place on the extended number line. -/
inductive Extended where
  | bottom
  | rational (value : Rat)
  | top
  deriving DecidableEq

/-- Whether one place lies left of another. -/
def Extended.before : Extended → Extended → Bool
  | .bottom, .bottom => false
  | .bottom, _ => true
  | .rational a, .rational b => decide (a < b)
  | .rational _, .top => true
  | _, _ => false

/-- Why a number has no exact fraction. -/
inductive FractionFault where
  /-- An infinite or NaN double, with its text. -/
  | notFinite (text : String)
  /-- An infinite decimal. -/
  | infiniteDecimal
  deriving DecidableEq, Repr

namespace Number

/-- The exact place of a number; a NaN has none. -/
def place? : Number → Option Extended
  | .int n => some (.rational n)
  | .double .nan => none
  | .double (.infinite negative) => some (if negative then .bottom else .top)
  | .double x => x.value?.map .rational
  | .decimal (.infinite negative) => some (if negative then .bottom else .top)
  | .decimal x => x.value?.map .rational

/-- Equality by exact value, false for a NaN. -/
def equals (a b : Number) : Bool :=
  match a.place?, b.place? with
  | some x, some y => x = y
  | _, _ => false

/-- Order by exact value, false for a NaN. -/
def less (a b : Number) : Bool :=
  match a.place?, b.place? with
  | some x, some y => x.before y
  | _, _ => false

/-- Whether two numbers can be asked for their order: a NaN and a decimal cannot. -/
def compares : Number → Number → Bool
  | .double .nan, .decimal _ => false
  | .decimal _, .double .nan => false
  | _, _ => true

/-- Less or equal by exact value, false for a NaN. -/
def atMost (a b : Number) : Bool :=
  a.less b || a.equals b

/-- Whether a number has no fractional part: `1.0` has none. -/
def isIntegral : Number → Bool
  | .int _ => true
  | .double x => x.isIntegral
  | .decimal x => x.isIntegral

/-- Whether a number is neither infinite nor NaN. -/
def isFinite : Number → Bool
  | .int _ => true
  | .double x => x.isFinite
  | .decimal x => x.isFinite

/-- The fraction that a number's decimal text stands for. -/
def fraction : Number → Except FractionFault Rat
  | .int n => .ok n
  | .double x =>
    match x.decimalValue? with
    | some q => .ok q
    | none => .error (.notFinite x.text)
  | .decimal x =>
    match x.value? with
    | some q => .ok q
    | none => .error .infiniteDecimal

/-- The integer part of a finite number. -/
def truncate? : Number → Option Int
  | .int n => some n
  | .double x => x.value?.map fun q => q.num.tdiv q.den
  | .decimal x => x.value?.map fun q => q.num.tdiv q.den

/-- A number as it stands in a message. -/
def text : Number → String
  | .int n => toString n
  | .double x => x.text
  | .decimal x => x.text

/-- A number as it stands inside the text of a list, where a decimal is marked as such. -/
def quoted : Number → String
  | .decimal x => "Decimal('" ++ x.text ++ "')"
  | x => x.text

end Number

end JsonSchema
