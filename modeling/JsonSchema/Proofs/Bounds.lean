import Mathlib.Order.WithBot
import Mathlib.Algebra.Order.Ring.Rat
import JsonSchema.Proofs.Meaning

/-!
# Bounds

A bound is a number with a flag that says whether it is exclusive (`Bound`), and what it demands is
said in the order of the extended rational line (`Side.Admits`), on which every number that is no
NaN has its exact place. Both sides, `minimum` and `maximum` with their exclusive companions, are
one definition with the side as a parameter.

A limit holds at most two bounds, and looking for a violation of the limit is looking for the first
bound that a number violates (`Limit.violation_eq`).
-/

namespace JsonSchema

/-! ## The exact order of numbers -/

namespace Extended

/-- A place on the extended rational line. -/
def toLine : Extended → WithBot (WithTop Rat)
  | .bottom => ⊥
  | .rational q => ((q : WithTop Rat) : WithBot (WithTop Rat))
  | .top => ((⊤ : WithTop Rat) : WithBot (WithTop Rat))

theorem before_iff (a b : Extended) : a.before b = true ↔ a.toLine < b.toLine := by
  cases a with
  | bottom => cases b <;> simp [before, toLine]
  | rational p =>
    cases b with
    | bottom => simp [before, toLine]
    | rational q => simp [before, toLine, WithBot.coe_lt_coe, WithTop.coe_lt_coe]
    | top => exact iff_of_true rfl (WithBot.coe_lt_coe.2 (WithTop.coe_lt_top p))
  | top => cases b <;> simp [before, toLine]

theorem toLine_inj (a b : Extended) : a.toLine = b.toLine ↔ a = b := by
  cases a <;> cases b <;> simp [toLine, WithBot.coe_inj, WithTop.coe_inj]

end Extended

namespace Number

/-- The exact place of a number on the extended rational line; a NaN has none. -/
def exactValue? (n : Number) : Option (WithBot (WithTop Rat)) :=
  n.place?.map Extended.toLine

variable {m n : Number} {a b : WithBot (WithTop Rat)}

theorem less_iff_lt (first : m.exactValue? = some a) (second : n.exactValue? = some b) :
    m.less n = true ↔ a < b := by
  obtain ⟨p, placed, rfl⟩ := Option.map_eq_some_iff.1 first
  obtain ⟨q, placed', rfl⟩ := Option.map_eq_some_iff.1 second
  unfold less
  rw [placed, placed']
  exact Extended.before_iff p q

theorem equals_iff_eq (first : m.exactValue? = some a) (second : n.exactValue? = some b) :
    m.equals n = true ↔ a = b := by
  obtain ⟨p, placed, rfl⟩ := Option.map_eq_some_iff.1 first
  obtain ⟨q, placed', rfl⟩ := Option.map_eq_some_iff.1 second
  unfold equals
  rw [placed, placed', Extended.toLine_inj]
  exact decide_eq_true_iff

/-- Numbers that have a place can be asked for their order. -/
theorem compares_of_exact (first : m.exactValue?.isSome) (second : n.exactValue?.isSome) :
    m.compares n = true := by
  unfold compares
  split
  · cases first
  · cases second
  · rfl

end Number

/-! ## Bounds -/

/-- A number that bounds others, itself excluded or not. -/
structure Bound where
  number : Number
  exclusive : Bool
  deriving DecidableEq

/-- The side on which a bound lies. -/
inductive Side where
  | lower
  | upper
  deriving DecidableEq, Repr

namespace Side

/-- The keyword for a bound on a side. -/
def bounding : Side → Keyword
  | .lower => Builtin.minimum
  | .upper => Builtin.maximum

/-- The keyword for an exclusive bound on a side, or for the flag of one. -/
def excluding : Side → Keyword
  | .lower => Builtin.exclusiveMinimum
  | .upper => Builtin.exclusiveMaximum

/-- The bound of a limit that a number lies beyond. -/
def violation : Side → Limit → Number → Except Fault (Option (Json × Bool))
  | .lower => Limit.lowerViolation
  | .upper => Limit.upperViolation

/-- The complaint about a number that lies beyond a bound. -/
def complaint : Side → Json → Json → Bool → Complaint
  | .lower => .belowMinimum
  | .upper => .aboveMaximum

/-- The rule of a limit on a side. -/
def rule : Side → Limit → Rule
  | .lower => .minimum
  | .upper => .maximum

/-- What a bound at a place demands of a place. -/
def Allows (side : Side) (exclusive : Bool) (bound place : WithBot (WithTop Rat)) : Prop :=
  match side, exclusive with
  | .lower, false => bound ≤ place
  | .lower, true => bound < place
  | .upper, false => place ≤ bound
  | .upper, true => place < bound

/-- A number lies on the right side of a bound. -/
def Admits (side : Side) (bound : Bound) (n : Number) : Prop :=
  ∃ b p, bound.number.exactValue? = some b ∧ n.exactValue? = some p ∧ side.Allows bound.exclusive b p

/-- Whether a number lies strictly beyond another one. -/
def beyond : Side → Number → Number → Bool
  | .lower, n, bound => n.less bound
  | .upper, n, bound => bound.less n

/-- Whether a number violates a bound. -/
def violates (side : Side) (n : Number) (bound : Bound) : Bool :=
  side.beyond n bound.number || (bound.exclusive && n.equals bound.number)

/-- A bound is violated just if it does not admit the number. -/
theorem violates_iff (side : Side) {bound : Bound} {n : Number}
    (first : bound.number.exactValue?.isSome) (second : n.exactValue?.isSome) :
    side.violates n bound = true ↔ ¬ side.Admits bound n := by
  obtain ⟨b, first⟩ := Option.isSome_iff_exists.1 first
  obtain ⟨p, second⟩ := Option.isSome_iff_exists.1 second
  have demands : side.Admits bound n ↔ side.Allows bound.exclusive b p := by
    unfold Admits
    simp [first, second]
  have below := Number.less_iff_lt second first
  have above := Number.less_iff_lt first second
  have equal := Number.equals_iff_eq second first
  rw [demands]
  unfold violates
  cases side <;> cases bound.exclusive <;>
    simp only [beyond, Allows, Bool.or_eq_true, Bool.and_eq_true, Bool.false_eq_true, false_and,
      or_false, true_and, below, above, equal, not_le, not_lt]
  · exact le_iff_lt_or_eq.symm
  · rw [le_iff_lt_or_eq, eq_comm]

end Side

/-! ## Limits -/

/-- A violated bound as a limit tells it. -/
def Bound.entry (bound : Bound) : Json × Bool :=
  (.number bound.number, bound.exclusive)

namespace Limit

/-- The bounds that a limit holds, in the order in which they are tested. -/
inductive Holds : Limit → List Bound → Prop
  | one (b : Number) (exclusive : Bool) : Holds ⟨some (.number b), exclusive, none⟩ [⟨b, exclusive⟩]
  | excluding (e : Number) : Holds ⟨none, false, some (.number e)⟩ [⟨e, true⟩]
  | both (b e : Number) :
    Holds ⟨some (.number b), false, some (.number e)⟩ [⟨b, false⟩, ⟨e, true⟩]

variable {limit : Limit} {bounds : List Bound} {n m : Number}

theorem compare_number (compares : n.compares m = true) (operator : String)
    (test : Number → Number → Bool) : compare operator test n (.number m) = .ok (test n m) :=
  if_pos compares

/-- A limit is violated in the first of its bounds that the number violates. -/
theorem Holds.violation_eq (holds : limit.Holds bounds)
    (compares : ∀ bound ∈ bounds, n.compares bound.number = true) (strict loose : String)
    (beyond : Number → Number → Bool) :
    violation strict loose beyond limit n = .ok ((bounds.find? fun bound =>
      beyond n bound.number || (bound.exclusive && n.equals bound.number)).map Bound.entry) := by
  unfold violation
  cases holds with
  | one b exclusive =>
    have first := compare_number (compares ⟨b, exclusive⟩ (by simp)) strict beyond
    simp only [first, bind, Except.bind]
    change (if (beyond n b || (exclusive && n.equals b)) = true
      then Except.ok (some (Json.number b, exclusive)) else Except.ok none) = _
    rw [List.find?_cons]
    cases (beyond n b || (exclusive && n.equals b)) <;> rfl
  | excluding e =>
    have second := compare_number (compares ⟨e, true⟩ (by simp)) loose
      fun x y => beyond x y || x.equals y
    simp only [second, bind, Except.bind, List.find?_cons, Bool.true_and]
    cases beyond n e || n.equals e <;> rfl
  | both b e =>
    have first := compare_number (compares ⟨b, false⟩ (by simp)) strict beyond
    have second := compare_number (compares ⟨e, true⟩ (by simp)) loose
      fun x y => beyond x y || x.equals y
    simp only [first, second, bind, Except.bind, List.find?_cons, Bool.false_and, Bool.or_false,
      Bool.true_and]
    cases beyond n b <;> cases beyond n e || n.equals e <;> rfl

/-- So it is on either side. -/
theorem Holds.violation_side (holds : limit.Holds bounds)
    (compares : ∀ bound ∈ bounds, n.compares bound.number = true) (side : Side) :
    side.violation limit n = .ok ((bounds.find? (side.violates n)).map Bound.entry) := by
  cases side <;> exact holds.violation_eq compares _ _ _

end Limit

end JsonSchema
