import JsonSchema.Pattern.Fault
import JsonSchema.Pattern.Syntax

/-!
# Reading regular expressions

A pattern is read token by token; a backslash and the character behind it are one token.
`Regex.parse` reads a whole pattern and checks what can only be checked at its end: that no
parenthesis is left over, that the groups which conditions name exist, and that every look-behind
has one length. Each reader takes a bound on the number of tokens.
-/

namespace JsonSchema.Pattern

/-- A token of a pattern. -/
inductive Token where
  | plain (c : Char)
  | escaped (c : Char)
  deriving DecidableEq, Repr

/-- A token as it is written. -/
def Token.text : Token → List Char
  | .plain c => [c]
  | .escaped c => ['\\', c]

/-- How far reading has come and what it has met. -/
structure ReadState where
  rest : List Char
  position : Nat
  flags : Flags
  /-- The number that the next group gets. -/
  nextGroup : Nat
  names : List (String × Nat)
  /-- The widths of the groups that are closed. -/
  widths : List (Nat × Width)
  /-- Inside a look-behind, the number of the first group that it opens. -/
  behind : Option Nat
  /-- The groups that conditions name by number, with the first place of each. -/
  conditions : List (Nat × Nat)

/-- A reader of a part of a pattern. -/
abbrev Reader := ReaderT (List Char) (StateT ReadState (Except PatternFault))

/-- Stops at a position. -/
def failAt {α : Type} (reason : PatternReason) (position : Nat) : Reader α := do
  throw (.at reason (.of (← read) position))

/-- The token in front. -/
def peek : Reader (Option Token) := do
  match (← get).rest with
  | '\\' :: c :: _ => return some (.escaped c)
  | c :: _ => return some (.plain c)
  | [] => return none

/-- The position of the token in front. -/
def here : Reader Nat := return (← get).position

/-- Stops at a number of characters before the token in front. -/
def failBefore {α : Type} (reason : PatternReason) (offset : Nat) : Reader α := do
  failAt reason ((← here) - offset)

/-- Refuses a backslash that ends the pattern, as soon as it is the token in front. -/
def checkFront : Reader Unit := do
  if (← get).rest = ['\\'] then failAt .danglingEscape ((← read).length - 1)

/-- Takes the token in front. -/
def next : Reader (Option Token) := do
  let token ← peek
  match token with
  | some t =>
    modify fun s =>
      { s with rest := s.rest.drop t.text.length, position := s.position + t.text.length }
    checkFront
  | none => pure ()
  return token

/-- Takes the token in front if it is the given character. -/
def accept (c : Char) : Reader Bool := do
  if (← peek) = some (.plain c) then
    let _ ← next
    return true
  else return false

/-- Goes back to a position behind which the pattern has been read already. -/
def goBack (position : Nat) : Reader Unit := do
  let whole ← read
  modify fun s => { s with rest := whole.drop position, position }

/-- Takes at most `count` characters that a test accepts. -/
def takeUpTo (test : Char → Bool) : Nat → Reader (List Char)
  | 0 => return []
  | count + 1 => do
    match ← peek with
    | some (.plain c) =>
      if test c then
        let _ ← next
        return c :: (← takeUpTo test count)
      else return []
    | _ => return []

/-- Takes all characters that a test accepts. -/
def takeAll (test : Char → Bool) : Reader (List Char) := do
  takeUpTo test (← get).rest.length

/-- Takes a name up to a closing character. -/
def takeName (closing : Char) (missing : PatternReason) : Nat → List Char → Reader String
  | 0, _ => failBefore missing 0
  | fuel + 1, done => do
    match ← next with
    | none =>
      if done.isEmpty then failBefore missing 0
      else failBefore (.unterminatedName closing) done.length
    | some token =>
      if token = .plain closing then
        if done.isEmpty then failBefore missing 1 else return String.ofList done
      else takeName closing missing fuel (done ++ token.text)

/-- Whether a name may name a group. -/
def isGroupName (name : String) : Bool :=
  match name.toList with
  | [] => false
  | c :: rest => Text.isWord c && !Text.isDigitlike c && rest.all Text.isWord

/-- Takes the name of a group up to a closing character and checks it. -/
def takeGroupName (closing : Char) : Reader String := do
  let name ← takeName closing .nameMissing ((← get).rest.length + 1) []
  if isGroupName name then return name else failBefore (.badName name) (name.length + 1)

/-- Whether a character is an octal digit. -/
def isOctal (c : Char) : Bool :=
  '0' ≤ c && c ≤ '7'

/-- Whether a character is a hexadecimal digit. -/
def isHexDigit (c : Char) : Bool :=
  c.isDigit || ('a' ≤ c && c ≤ 'f') || ('A' ≤ c && c ≤ 'F')

/-- The number that digits stand for. -/
def numberOf (base : Nat) (digits : List Char) : Nat :=
  digits.foldl (fun n c => base * n + (if c.isDigit then c.toNat - 48 else c.toLower.toNat - 87)) 0

/-- The character of a fixed number of hexadecimal digits. -/
def takeHex (letter : Char) (count : Nat) : Reader Nat := do
  let digits ← takeUpTo isHexDigit count
  let escape := '\\' :: letter :: digits
  if digits.length < count then failBefore (.incompleteEscape (String.ofList escape)) escape.length
  let code := numberOf 16 digits
  if 0x10FFFF < code then failBefore (.badEscape (String.ofList escape)) escape.length
  return code

/-- The control character that a letter behind a backslash stands for. -/
def controlEscape? : Char → Option Nat
  | 'a' => some 7
  | 'f' => some 12
  | 'n' => some 10
  | 'r' => some 13
  | 't' => some 9
  | 'v' => some 11
  | '\\' => some 92
  | _ => none

/-- The class of characters that a letter behind a backslash stands for. -/
def categoryEscape? : Char → Option (Category × Bool)
  | 'd' => some (.digit, false)
  | 'D' => some (.digit, true)
  | 's' => some (.space, false)
  | 'S' => some (.space, true)
  | 'w' => some (.word, false)
  | 'W' => some (.word, true)
  | _ => none

/-- The place that a letter behind a backslash stands for. -/
def anchorEscape? : Char → Option Anchor
  | 'A' => some .textStart
  | 'Z' => some .textEnd
  | 'b' => some .boundary
  | 'B' => some .noBoundary
  | _ => none

/-- Reads a character by number or by name, or a character that stands for itself. -/
def takeCharEscape (c : Char) : Reader Nat := do
  let escape := String.ofList ['\\', c]
  if c = 'x' then takeHex c 2
  else if c = 'u' then takeHex c 4
  else if c = 'U' then takeHex c 8
  else if c = 'N' then
    if !(← accept '\x7b') then failBefore .braceMissing 0
    let name ← takeName '\x7d' .characterNameMissing ((← get).rest.length + 1) []
    failBefore (.undefinedCharacter name) (name.length + 4)
  else if c.isDigit || c.isAlpha then failBefore (.badEscape escape) 2
  else return c.toNat

/-- Reads an octal number of at most three digits, the first of which is past. -/
def takeOctal (c : Char) : Reader Nat := do
  let digits := c :: (← takeUpTo isOctal 2)
  let code := numberOf 8 digits
  if 0o377 < code then
    let escape := '\\' :: digits
    failBefore (.octalTooLarge (String.ofList escape)) escape.length
  return code

/-- Reads an escape inside a set of characters. -/
def takeSetEscape (c : Char) : Reader SetItem := do
  if c = 'b' then return .single 8
  match controlEscape? c, categoryEscape? c with
  | some code, _ => return .single code
  | none, some (category, negated) => return .category category negated
  | none, none =>
    if isOctal c then return .single (← takeOctal c) else return .single (← takeCharEscape c)

/-- Refuses a group that the look-behind around the place has opened. -/
def checkBehind (number : Nat) : Reader Unit := do
  match (← get).behind with
  | some first =>
    if ((← get).widths.lookup number).isNone then failBefore .openGroup 0
    if first ≤ number then failBefore .groupInLookBehind 0
  | none => pure ()

/-- The node that refers to a group, which has to be closed; `length` is that of the text of the
reference. -/
def referTo (number length : Nat) : Reader Regex := do
  match (← get).widths.lookup number with
  | some width =>
    checkBehind number
    return .reference number (← get).flags width
  | none => failBefore .openGroup length

/-- Reads a reference to a group, or an octal number of three digits, from the first digit on. -/
def takeReference (c : Char) : Reader Regex := do
  let flags := (← get).flags
  let second ← takeUpTo Char.isDigit 1
  match second with
  | [d] =>
    if isOctal c && isOctal d then
      match ← takeUpTo isOctal 1 with
      | [e] =>
        let code := numberOf 8 [c, d, e]
        if 0o377 < code then failBefore (.octalTooLarge (String.ofList ['\\', c, d, e])) 4
        return .literal code flags
      | _ => pure ()
  | _ => pure ()
  let digits := c :: second
  let number := numberOf 10 digits
  if number < (← get).nextGroup then referTo number (digits.length + 1)
  else failBefore (.unknownGroup number) digits.length

/-- Reads an escape outside sets. -/
def takeEscape (c : Char) : Reader Regex := do
  let flags := (← get).flags
  match categoryEscape? c, anchorEscape? c, controlEscape? c with
  | some (category, negated), _, _ => return .set false [.category category negated] flags
  | none, some anchor, _ => return .anchor anchor flags
  | none, none, some code => return .literal code flags
  | none, none, none =>
    if c = '0' then return .literal (numberOf 8 (← takeUpTo isOctal 2)) flags
    else if c.isDigit then takeReference c
    else return .literal (← takeCharEscape c) flags

/-- The element of a set that a token starts. -/
def setItemOf : Token → Reader SetItem
  | .escaped c => takeSetEscape c
  | .plain c => return .single c.toNat

/-- Reads the elements of a set up to its closing bracket; `start` is the place of the opening
one. -/
def takeSetItems (start : Nat) : Nat → List SetItem → Reader (List SetItem)
  | 0, _ => failAt .unterminatedSet start
  | fuel + 1, done => do
    match ← next with
    | none => failAt .unterminatedSet start
    | some token =>
      if token = .plain ']' && !done.isEmpty then return done.reverse
      let first ← setItemOf token
      if ← accept '-' then
        match ← next with
        | none => failAt .unterminatedSet start
        | some last =>
          if last = .plain ']' then return (.single 45 :: first :: done).reverse
          let second ← setItemOf last
          let range := token.text ++ '-' :: last.text
          match first, second with
          | .single low, .single high =>
            if high < low then failBefore (.badRange (String.ofList range)) range.length
            takeSetItems start fuel (.range low high :: done)
          | _, _ => failBefore (.badRange (String.ofList range)) range.length
      else takeSetItems start fuel (first :: done)

/-- Reads a set of characters whose opening bracket is past. -/
def takeSet : Reader Regex := do
  let start := (← here) - 1
  let negated ← accept '^'
  let flags := (← get).flags
  let items ← takeSetItems start ((← get).rest.length + 1) []
  return .set negated items flags

/-- The numbers of a repetition, with nothing for no greatest one. -/
abbrev Counts := Nat × Option Nat

/-- The least count that is too large. -/
def hugeCount : Nat := 4294967295

/-- Reads the counts of a repetition in braces whose opening one is past; without them the brace
stands for itself. -/
def takeCounts? : Reader (Option Counts) := do
  let start ← here
  if (← peek) = some (.plain '\x7d') then return none
  let low ← takeAll Char.isDigit
  let high ← if ← accept ',' then some <$> takeAll Char.isDigit else pure none
  if !(← accept '\x7d') then
    goBack start
    return none
  let least := numberOf 10 low
  if hugeCount ≤ least then throw .hugeRepetition
  let high := high.getD low
  if high.isEmpty then return some (least, none)
  let greatest := numberOf 10 high
  if hugeCount ≤ greatest then throw .hugeRepetition
  if greatest < least then failAt .minAboveMax start
  return some (least, some greatest)

/-- The repetition that a character asks for, if it does. -/
def takeRepetition? (c : Char) : Reader (Option Counts) :=
  if c = '*' then return some (0, none)
  else if c = '+' then return some (1, none)
  else if c = '?' then return some (0, some 1)
  else takeCounts?

/-- Puts a repetition around the node read last; `start` is where the repetition is written. -/
def repeatLast (counts : Counts) (start : Nat) : List Regex → Reader (List Regex)
  | [] => failAt .nothingToRepeat start
  | .anchor .. :: _ => failAt .nothingToRepeat start
  | .iterate .. :: _ => failAt .multipleRepeat start
  | last :: done => do
    if ← accept '?' then return .iterate counts.1 counts.2 .lazy last :: done
    if ← accept '+' then return .iterate counts.1 counts.2 .possessive last :: done
    return .iterate counts.1 counts.2 .greedy last :: done

/-- The letters of flags. -/
def isFlag (c : Char) : Bool :=
  "iLmsxatu".toList.contains c

/-- Adds a flag to some, or takes it from them. -/
def setFlag (value : Bool) (flags : Flags) (c : Char) : Flags :=
  if c = 'i' then { flags with ignoreCase := value }
  else if c = 'm' then { flags with multiline := value }
  else if c = 's' then { flags with dotAll := value }
  else if c = 'x' then { flags with verbose := value }
  else if c = 'a' then { flags with ascii := value }
  else if c = 'u' then { flags with ascii := !value }
  else flags

/-- The character of a token, the backslash of an escape. -/
def Token.head : Token → Char
  | .plain c => c
  | .escaped _ => '\\'

/-- Whether a character is a letter of some script. -/
def isLetter (c : Char) : Bool :=
  c.isAlpha || (128 ≤ c.toNat && Text.isWord c && !Text.isDigitlike c)

/-- Takes a token in a list of flags; a letter that is no flag and any other character are two
faults. -/
def takeFlagToken (missing : PatternReason) (closing : List Char) : Reader Char := do
  match ← next with
  | none => failBefore missing 0
  | some token =>
    let c := token.head
    if closing.contains c || (token = .plain c && isFlag c) then return c
    else failBefore (if isLetter c then .unknownFlag else missing) token.text.length

/-- Takes flags that are turned on, from the first on, with the character that ends them. -/
def takeFlagsOn : Nat → List Char → Char → Reader (List Char × Char)
  | 0, _, _ => failBefore .flagEndMissing 0
  | fuel + 1, done, c => do
    if c = 'L' then failBefore .flagNotForText 0
    let done := done ++ [c]
    if (c = 'a' && done.contains 'u') || (c = 'u' && done.contains 'a') then
      failBefore .incompatibleFlags 0
    let after ← takeFlagToken .flagEndMissing [')', '-', ':']
    if after = ')' || after = '-' || after = ':' then return (done, after)
    else takeFlagsOn fuel done after

/-- Takes flags that are turned off, from the first on, with the colon behind them. -/
def takeFlagsOff : Nat → List Char → Char → Reader (List Char)
  | 0, _, _ => failBefore .colonMissing 0
  | fuel + 1, done, c => do
    if c = 'a' || c = 'u' || c = 'L' then failBefore .typeFlagOff 0
    let done := done ++ [c]
    let after ← takeFlagToken .colonMissing [':']
    if after = ':' then return done else takeFlagsOff fuel done after

/-- What flags in front of a group or of the whole pattern turn on and off. -/
inductive FlagChange where
  | whole (on : List Char)
  | inGroup (on off : List Char)

/-- Reads a list of flags from its first character on. -/
def takeFlags (c : Char) : Reader FlagChange := do
  let fuel := (← get).rest.length + 1
  let (on, after) ← if c = '-' then pure ([], '-') else takeFlagsOn fuel [] c
  if after = ')' then return .whole on
  if on.contains 't' then failBefore .globalFlagOn 1
  if after = ':' then return .inGroup on []
  let off ← takeFlagsOff fuel [] (← takeFlagToken .flagMissing [])
  if off.contains 't' then failBefore .globalFlagOff 1
  if on.any off.contains then failBefore .flagOnAndOff 1
  return .inGroup on off

/-- Gives a new group its number, and its name if it has one. -/
def openGroup (name : Option String) : Reader Nat := do
  let number := (← get).nextGroup
  modify fun s => { s with nextGroup := number + 1 }
  match name with
  | some name =>
    match (← get).names.lookup name with
    | some old => failBefore (.groupTwice name number old) (name.length + 1)
    | none => modify fun s => { s with names := (name, number) :: s.names }
  | none => pure ()
  return number

/-- Notes that a group is closed. -/
def closeGroup (number : Nat) (body : Regex) : Reader Unit :=
  modify fun s => { s with widths := (number, body.width) :: s.widths }

/-- Skips a comment in parentheses. -/
def skipComment (start : Nat) : Nat → Reader Unit
  | 0 => failAt .unterminatedComment start
  | fuel + 1 => do
    match ← next with
    | none => failAt .unterminatedComment start
    | some token => if token = .plain ')' then pure () else skipComment start fuel

/-- Skips a comment up to the end of its line. -/
def skipLine : Nat → Reader Unit
  | 0 => pure ()
  | fuel + 1 => do
    match ← next with
    | none => pure ()
    | some token => if token = .plain '\n' then pure () else skipLine fuel

/-- The number of the group that a condition names. -/
def takeCondition : Reader Nat := do
  let name ← takeName ')' .nameMissing ((← get).rest.length + 1) []
  let number ←
    if isGroupName name then
      match (← get).names.lookup name with
      | some number => pure number
      | none => failBefore (.unknownName name) (name.length + 1)
    else
      match Text.naturalOfDigits? name.toList with
      | some 0 => failBefore .badGroupNumber (name.length + 1)
      | some number =>
        let position := (← here) - (name.length + 1)
        if ((← get).conditions.lookup number).isNone then
          modify fun s => { s with conditions := s.conditions ++ [(number, position)] }
        pure number
      | none => failBefore (.badName name) (name.length + 1)
  if (← get).behind.isSome then checkBehind number
  return number

/-- Requires the closing parenthesis of a group that starts at a place. -/
def requireClose (start : Nat) : Reader Unit := do
  if !(← accept ')') then failAt .unterminatedGroup start

/-- The nodes of a sequence, the last one first, as one. -/
def sequenceOf (nodes : List Regex) : Regex :=
  match nodes with
  | [] => .empty
  | last :: before => before.foldl (fun tail node => .sequence node tail) last

/-- Runs a reader with other flags and then restores those that held. -/
def withFlags {α : Type} (flags : Flags) (reader : Reader α) : Reader α := do
  let saved := (← get).flags
  modify fun s => { s with flags }
  let result ← reader
  modify fun s => { s with flags := saved }
  return result

/-- Runs a reader inside a look-behind. -/
def insideBehind {α : Type} (reader : Reader α) : Reader α := do
  let saved := (← get).behind
  if saved.isNone then modify fun s => { s with behind := some s.nextGroup }
  let result ← reader
  modify fun s => { s with behind := saved }
  return result

mutual

/-- Reads alternatives. `top` says that no group is open. -/
def takeChoice (fuel : Nat) (top : Bool) : Reader Regex :=
  match fuel with
  | 0 => failBefore .unbalanced 0
  | fuel + 1 => do
    let first ← takeSequence fuel top []
    takeBranches fuel first

/-- Reads the alternatives behind the first one. -/
def takeBranches (fuel : Nat) (first : Regex) : Reader Regex :=
  match fuel with
  | 0 => failBefore .unbalanced 0
  | fuel + 1 => do
    if ← accept '|' then
      let second ← takeSequence fuel false []
      let others ← takeBranches fuel second
      return .choice first others
    else return first

/-- Reads nodes up to the end of an alternative; those read are in reverse. `atStart` says that
flags for the whole pattern may stand in front. -/
def takeSequence (fuel : Nat) (atStart : Bool) (done : List Regex) : Reader Regex :=
  match fuel with
  | 0 => failBefore .unbalanced 0
  | fuel + 1 => do
    match ← peek with
    | none => return sequenceOf done
    | some (.escaped c) => do
      let _ ← next
      let node ← takeEscape c
      takeSequence fuel atStart (node :: done)
    | some (.plain c) =>
      if c = '|' || c = ')' then return sequenceOf done
      else do
        let _ ← next
        let flags := (← get).flags
        if flags.verbose && (c = ' ' || (9 ≤ c.toNat && c.toNat ≤ 13)) then
          takeSequence fuel atStart done
        else if flags.verbose && c = '#' then do
          skipLine (← get).rest.length
          takeSequence fuel atStart done
        else if c = '[' then do
          let node ← takeSet
          takeSequence fuel atStart (node :: done)
        else if c = '*' || c = '+' || c = '?' || c = '\x7b' then do
          let start := (← here) - 1
          match ← takeRepetition? c with
          | none => takeSequence fuel atStart (.literal c.toNat flags :: done)
          | some counts => do
            let done ← repeatLast counts start done
            takeSequence fuel atStart done
        else if c = '.' then takeSequence fuel atStart (.any flags :: done)
        else if c = '^' then takeSequence fuel atStart (.anchor .lineStart flags :: done)
        else if c = '$' then takeSequence fuel atStart (.anchor .lineEnd flags :: done)
        else if c = '(' then do
          match ← takeParenthesis fuel (atStart && done.isEmpty) with
          | some node => takeSequence fuel atStart (node :: done)
          | none => takeSequence fuel atStart done
        else takeSequence fuel atStart (.literal c.toNat flags :: done)

/-- Reads the body of a group and its closing parenthesis. -/
def takeGroup (fuel : Nat) (start : Nat) (number : Option Nat) (flags : Flags) : Reader Regex :=
  match fuel with
  | 0 => failBefore .unbalanced 0
  | fuel + 1 => do
    let body ← withFlags flags (takeChoice fuel false)
    requireClose start
    match number with
    | some n => closeGroup n body
    | none => pure ()
    return .group number body

/-- Reads what an opening parenthesis starts; comments and flags for the whole pattern give no
node. -/
def takeParenthesis (fuel : Nat) (atStart : Bool) : Reader (Option Regex) :=
  match fuel with
  | 0 => failBefore .unbalanced 0
  | fuel + 1 => do
    let start := (← here) - 1
    let flags := (← get).flags
    if !(← accept '?') then
      let number ← openGroup none
      return some (← takeGroup fuel start (some number) flags)
    match ← next with
    | none => failBefore .unexpectedEnd 0
    | some token =>
      let extension := String.ofList token.text
      match token with
      | .escaped _ => failBefore (.unknownExtension extension) (token.text.length + 1)
      | .plain c =>
        if c = 'P' then
          if ← accept '<' then do
            let name ← takeGroupName '>'
            let number ← openGroup (some name)
            return some (← takeGroup fuel start (some number) flags)
          else if ← accept '=' then do
            let name ← takeGroupName ')'
            match (← get).names.lookup name with
            | some number => return some (← referTo number (name.length + 1))
            | none => failBefore (.unknownName name) (name.length + 1)
          else
            match ← next with
            | none => failBefore .unexpectedEnd 0
            | some other =>
              failBefore (.unknownExtension ("P" ++ String.ofList other.text))
                (other.text.length + 2)
        else if c = ':' then return some (← takeGroup fuel start none flags)
        else if c = '#' then do
          skipComment start ((← get).rest.length + 1)
          return none
        else if c = '=' || c = '!' then do
          let body ← withFlags flags (takeChoice fuel false)
          requireClose start
          return some (.lookAhead (c = '!') body)
        else if c = '<' then do
          match ← next with
          | none => failBefore .unexpectedEnd 0
          | some other =>
            if other = .plain '=' || other = .plain '!' then
              let body ← insideBehind (withFlags flags (takeChoice fuel false))
              requireClose start
              return some (.lookBehind (other = .plain '!') body)
            else
              failBefore (.unknownExtension ("<" ++ String.ofList other.text))
                (other.text.length + 2)
        else if c = '(' then do
          let number ← takeCondition
          let matched ← withFlags flags (takeSequence fuel false [])
          let unmatched ←
            if ← accept '|' then do
              let node ← withFlags flags (takeSequence fuel false [])
              if (← peek) = some (.plain '|') then failBefore .thirdBranch 0
              pure node
            else pure .empty
          requireClose start
          return some (.conditional number matched unmatched)
        else if c = '>' then do
          let body ← withFlags flags (takeChoice fuel false)
          requireClose start
          return some (.atomic body)
        else if isFlag c || c = '-' then do
          match ← takeFlags c with
          | .whole on =>
            if !atStart then failAt .lateFlags start
            modify fun s => { s with flags := on.foldl (setFlag true) s.flags }
            return none
          | .inGroup on off =>
            let flags := off.foldl (setFlag false) (on.foldl (setFlag true) flags)
            return some (← takeGroup fuel start none flags)
        else failBefore (.unknownExtension extension) (extension.length + 1)

end

/-- Reads a whole pattern and checks it. -/
def takePattern (fuel : Nat) : Reader Regex := do
  checkFront
  let regex ← takeChoice fuel true
  if (← peek).isSome then failBefore .unbalanced 0
  let state ← get
  match state.conditions.find? fun (number, _) => state.nextGroup ≤ number with
  | some (number, position) => failAt (.unknownGroup number) position
  | none => pure ()
  if !regex.looksBehindFixed then throw .variableLookBehind
  return regex

/-- Reads the text of a regular expression. -/
def Regex.parse (pattern : String) : Except PatternFault Regex :=
  let characters := pattern.toList
  let start : ReadState := {
    rest := characters, position := 0, flags := Flags.none, nextGroup := 1, names := []
    widths := [], behind := none,
    conditions := [] }
  match (takePattern (6 * characters.length + 12)).run characters |>.run start with
  | .ok (regex, _) => .ok regex
  | .error fault => .error fault

end JsonSchema.Pattern
