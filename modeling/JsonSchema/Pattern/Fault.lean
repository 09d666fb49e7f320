import JsonSchema.Text.Quoted

/-!
# Faults of patterns

Why a text is no regular expression. A fault names the position at which reading stopped, and in a
pattern of several lines the line and column too.
-/

namespace JsonSchema.Pattern

/-- What is wrong at a place of a pattern. -/
inductive PatternReason where
  | unterminatedGroup
  | unterminatedSet
  | unterminatedComment
  | unterminatedName (closing : Char)
  | unbalanced
  | unexpectedEnd
  | nothingToRepeat
  | multipleRepeat
  | minAboveMax
  | danglingEscape
  | badEscape (escape : String)
  | incompleteEscape (escape : String)
  | octalTooLarge (escape : String)
  | nameMissing
  | characterNameMissing
  | braceMissing
  | undefinedCharacter (name : String)
  | badRange (range : String)
  | unknownExtension (extension : String)
  | groupTwice (name : String) (new old : Nat)
  | badName (name : String)
  | unknownName (name : String)
  | badGroupNumber
  | unknownGroup (number : Nat)
  | openGroup
  | groupInLookBehind
  | thirdBranch
  | lateFlags
  | unknownFlag
  | flagMissing
  | flagEndMissing
  | colonMissing
  | flagNotForText
  | incompatibleFlags
  | typeFlagOff
  | globalFlagOn
  | globalFlagOff
  | flagOnAndOff
  deriving DecidableEq, Repr

/-- What is wrong with the pattern. -/
def PatternReason.message : PatternReason → String
  | .unterminatedGroup => "missing ), unterminated subpattern"
  | .unterminatedSet => "unterminated character set"
  | .unterminatedComment => "missing ), unterminated comment"
  | .unterminatedName closing => "missing " ++ String.singleton closing ++ ", unterminated name"
  | .unbalanced => "unbalanced parenthesis"
  | .unexpectedEnd => "unexpected end of pattern"
  | .nothingToRepeat => "nothing to repeat"
  | .multipleRepeat => "multiple repeat"
  | .minAboveMax => "min repeat greater than max repeat"
  | .danglingEscape => "bad escape (end of pattern)"
  | .badEscape escape => "bad escape " ++ escape
  | .incompleteEscape escape => "incomplete escape " ++ escape
  | .octalTooLarge escape => "octal escape value " ++ escape ++ " outside of range 0-0o377"
  | .nameMissing => "missing group name"
  | .characterNameMissing => "missing character name"
  | .braceMissing => "missing \x7b"
  | .undefinedCharacter name => "undefined character name " ++ Text.quoted name
  | .badRange range => "bad character range " ++ range
  | .unknownExtension extension => "unknown extension ?" ++ extension
  | .groupTwice name new old =>
    "redefinition of group name " ++ Text.quoted name ++ " as group " ++ toString new
      ++ "; was group " ++ toString old
  | .badName name => "bad character in group name " ++ Text.quoted name
  | .unknownName name => "unknown group name " ++ Text.quoted name
  | .badGroupNumber => "bad group number"
  | .unknownGroup number => "invalid group reference " ++ toString number
  | .openGroup => "cannot refer to an open group"
  | .groupInLookBehind => "cannot refer to group defined in the same lookbehind subpattern"
  | .thirdBranch => "conditional backref with more than two branches"
  | .lateFlags => "global flags not at the start of the expression"
  | .unknownFlag => "unknown flag"
  | .flagMissing => "missing flag"
  | .flagEndMissing => "missing -, : or )"
  | .colonMissing => "missing :"
  | .flagNotForText => "bad inline flags: cannot use 'L' flag with a str pattern"
  | .incompatibleFlags => "bad inline flags: flags 'a', 'u' and 'L' are incompatible"
  | .typeFlagOff => "bad inline flags: cannot turn off flags 'a', 'u' and 'L'"
  | .globalFlagOn => "bad inline flags: cannot turn on global flag"
  | .globalFlagOff => "bad inline flags: cannot turn off global flag"
  | .flagOnAndOff => "bad inline flags: flag turned on and off"

/-- A place in a pattern: the position, and line and column if the pattern has several lines. -/
structure Place where
  position : Nat
  lineColumn : Option (Nat × Nat)
  deriving DecidableEq, Repr

/-- The place at a position of a pattern. -/
def Place.of (pattern : List Char) (position : Nat) : Place :=
  let before := pattern.take position
  let column := (before.reverse.takeWhile (· ≠ '\n')).length + 1
  { position
    lineColumn := if pattern.contains '\n' then some (before.count '\n' + 1, column) else none }

/-- Why a text is no regular expression. -/
inductive PatternFault where
  | at (reason : PatternReason) (place : Place)
  /-- A look-behind whose length is not fixed. -/
  | variableLookBehind
  /-- A repetition count that is too large to be one. -/
  | hugeRepetition
  deriving DecidableEq, Repr

/-- What is wrong with the pattern, and where. -/
def PatternFault.message : PatternFault → String
  | .at reason place =>
    reason.message ++ " at position " ++ toString place.position
      ++ match place.lineColumn with
        | some (line, column) => " (line " ++ toString line ++ ", column " ++ toString column ++ ")"
        | none => ""
  | .variableLookBehind => "look-behind requires fixed-width pattern"
  | .hugeRepetition => "the repetition number is too large"

end JsonSchema.Pattern
