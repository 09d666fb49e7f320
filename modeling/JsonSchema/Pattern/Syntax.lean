import JsonSchema.Text.Blank
import JsonSchema.Text.Case
import JsonSchema.Text.Digit
import JsonSchema.Text.Word

/-!
# Regular expressions

A regular expression is a tree. The flags that hold at a place are resolved while reading, so every
node carries those that it needs. `Regex.width` gives the least and greatest length of a match,
which a look-behind needs to be equal.
-/

namespace JsonSchema.Pattern

/-- The flags that hold at a place of a pattern. -/
structure Flags where
  ignoreCase : Bool
  multiline : Bool
  dotAll : Bool
  verbose : Bool
  ascii : Bool
  deriving DecidableEq, Repr, Inhabited

/-- No flag at all. -/
def Flags.none : Flags := ⟨false, false, false, false, false⟩

/-- A class of characters. -/
inductive Category where
  | digit | space | word
  deriving DecidableEq, Repr

/-- An element of a set of characters. -/
inductive SetItem where
  | single (code : Nat)
  | range (first last : Nat)
  | category (category : Category) (negated : Bool)
  deriving DecidableEq, Repr

/-- A place in the text that a pattern can ask for. -/
inductive Anchor where
  | lineStart | lineEnd | textStart | textEnd | boundary | noBoundary
  deriving DecidableEq, Repr

/-- Which number of repetitions is tried first; a possessive repetition is not given back. -/
inductive Greed where
  | greedy | lazy | possessive
  deriving DecidableEq, Repr

/-- The least and the greatest length of a match; no greatest one means that there is no bound. -/
structure Width where
  least : Nat
  greatest : Option Nat
  deriving DecidableEq, Repr

/-- A regular expression. -/
inductive Regex where
  /-- Matches the empty text. -/
  | empty
  | literal (code : Nat) (flags : Flags)
  | any (flags : Flags)
  | set (negated : Bool) (items : List SetItem) (flags : Flags)
  | anchor (anchor : Anchor) (flags : Flags)
  | sequence (first second : Regex)
  | choice (first second : Regex)
  /-- A group; one without number does not capture. -/
  | group (number : Option Nat) (body : Regex)
  | reference (number : Nat) (flags : Flags) (width : Width)
  | iterate (least : Nat) (greatest : Option Nat) (greed : Greed) (body : Regex)
  | lookAhead (negated : Bool) (body : Regex)
  | lookBehind (negated : Bool) (body : Regex)
  | atomic (body : Regex)
  /-- The first branch if the group has matched, the second one otherwise. -/
  | conditional (number : Nat) (matched unmatched : Regex)
  deriving Inhabited, Repr

namespace Width

/-- The width of what matches the empty text only. -/
def zero : Width := ⟨0, some 0⟩

/-- The width of one character. -/
def one : Width := ⟨1, some 1⟩

/-- The width of one match behind another. -/
def append (a b : Width) : Width :=
  ⟨a.least + b.least, a.greatest.bind fun x => b.greatest.map (x + ·)⟩

/-- The width of a match of either kind. -/
def union (a b : Width) : Width :=
  ⟨min a.least b.least, a.greatest.bind fun x => b.greatest.map (max x ·)⟩

/-- The width of a repeated match. -/
def times (width : Width) (least : Nat) (greatest : Option Nat) : Width :=
  ⟨width.least * least,
    if width.greatest = some 0 then some 0 else width.greatest.bind fun x => greatest.map (x * ·)⟩

/-- Whether all matches have one length. -/
def isFixed (width : Width) : Bool :=
  width.greatest = some width.least

end Width

namespace Regex

/-- The least and greatest length of a match. -/
def width : Regex → Width
  | .empty | .anchor .. | .lookAhead .. | .lookBehind .. => .zero
  | .literal .. | .any _ | .set .. => .one
  | .sequence a b => a.width.append b.width
  | .choice a b => a.width.union b.width
  | .group _ body | .atomic body => body.width
  | .reference _ _ width => width
  | .iterate least greatest _ body => body.width.times least greatest
  | .conditional _ a b => a.width.union b.width

/-- Whether every look-behind has one length. -/
def looksBehindFixed : Regex → Bool
  | .empty | .anchor .. | .literal .. | .any _ | .set .. | .reference .. => true
  | .sequence a b | .choice a b | .conditional _ a b => a.looksBehindFixed && b.looksBehindFixed
  | .group _ body | .atomic body | .iterate _ _ _ body | .lookAhead _ body => body.looksBehindFixed
  | .lookBehind _ body => body.width.isFixed && body.looksBehindFixed

end Regex

end JsonSchema.Pattern
