import JsonSchema.Pattern.Syntax

/-!
# Matching

A match is found by backtracking: a node is matched at a state and hands each state behind its match
to the rest of the pattern, in order of preference, until the rest accepts one. `Regex.matchAt` is
structural in the pattern; a repetition is bounded by the text that is left, because an iteration
beyond the least number has to start at a new place.
-/

namespace JsonSchema.Pattern

/-- A place in the text with the groups that have matched: number, start and end. -/
structure MatchState where
  position : Nat
  groups : List (Nat × Nat × Nat)
  deriving Repr, Inhabited

/-- What the rest of a pattern makes of a state. -/
abbrev Rest := MatchState → Option MatchState

namespace MatchState

/-- The state with a group matched from a place to here. -/
def close (state : MatchState) (number start : Nat) : MatchState :=
  { state with groups := (number, start, state.position) :: state.groups.filter (·.1 ≠ number) }

/-- Where a group has matched. -/
def span? (state : MatchState) (number : Nat) : Option (Nat × Nat) :=
  state.groups.lookup number

end MatchState

/-- Whether a character belongs to a class. -/
def Category.contains (category : Category) (ascii : Bool) (c : Char) : Bool :=
  match category with
  | .digit => if ascii then c.isDigit else Text.isDecimalDigit c
  | .space => Text.isBlank c && (!ascii || (c.toNat < 128 && (c.toNat < 28 || c.toNat > 31)))
  | .word => if ascii then c.isAlphanum || c = '_' else Text.isWord c

/-- The characters that a character is compared as: itself, or all its case variants. -/
def codesOf (flags : Flags) (c : Char) : List Nat :=
  if flags.ignoreCase then
    if flags.ascii then [c.toNat, c.toLower.toNat, c.toUpper.toNat]
    else c.toNat :: Text.caseVariants c
  else [c.toNat]

/-- Whether an element of a set takes a character. -/
def SetItem.contains (flags : Flags) (c : Char) : SetItem → Bool
  | .single code => (codesOf flags c).contains code
  | .range first last => (codesOf flags c).any fun code => first ≤ code && code ≤ last
  | .category kind negated => kind.contains flags.ascii c != negated

/-- Whether the place between two characters is the edge of a word. -/
def isBoundary (text : Array Char) (ascii : Bool) (position : Nat) : Bool :=
  let isWordAt (i : Nat) : Bool := (text[i]?.map (Category.word.contains ascii)).getD false
  (0 < position && isWordAt (position - 1)) != isWordAt position

/-- Whether an anchor holds at a place; the edges of words are not looked for in the empty text. -/
def Anchor.holds (text : Array Char) (flags : Flags) (position : Nat) : Anchor → Bool
  | .textStart => position = 0
  | .textEnd => position = text.size
  | .lineStart => position = 0 || (flags.multiline && text[position - 1]? = some '\n')
  | .lineEnd =>
    position = text.size
      || (text[position]? = some '\n' && (flags.multiline || position + 1 = text.size))
  | .boundary => !text.isEmpty && isBoundary text flags.ascii position
  | .noBoundary => !text.isEmpty && !isBoundary text flags.ascii position

/-- Takes one character that a test accepts. -/
def takeChar (text : Array Char) (test : Char → Bool) (state : MatchState) (rest : Rest) :
    Option MatchState :=
  match text[state.position]? with
  | some c => if test c then rest { state with position := state.position + 1 } else none
  | none => none

/-- Whether two pieces of the text of one length are the same. -/
def sameText (text : Array Char) (flags : Flags) (i j : Nat) : Nat → Bool
  | 0 => true
  | count + 1 =>
    match text[i]?, text[j]? with
    | some a, some b =>
      (codesOf flags a).contains b.toNat && sameText text flags (i + 1) (j + 1) count
    | _, _ => false

/-- The first state that is found, or else that of the alternative. -/
def orElse (found : Option MatchState) (alternative : Unit → Option MatchState) :
    Option MatchState :=
  match found with
  | some state => some state
  | none => alternative ()

/-- Matches a body repeatedly and then the rest. `count` iterations are done; `last` is where the
last one beyond the least number started, and an iteration that starts there again is not tried.
`fuel` bounds the iterations. -/
def iterate (body : MatchState → Rest → Option MatchState) (least : Nat) (greatest : Option Nat)
    (lazy : Bool) (rest : Rest) : Nat → Nat → Option Nat → MatchState → Option MatchState
  | 0, _, _, _ => none
  | fuel + 1, count, last, state =>
    if count < least then
      body state fun next => iterate body least greatest lazy rest fuel (count + 1) last next
    else
      let again (_ : Unit) : Option MatchState :=
        if (greatest.map (decide <| count < ·)).getD true && last ≠ some state.position then
          body state fun next =>
            iterate body least greatest lazy rest fuel (count + 1) (some state.position) next
        else none
      if lazy then orElse (rest state) again
      else orElse (again ()) fun _ => rest state

namespace Regex

/-- Matches a pattern at a state and then the rest. -/
def matchAt (text : Array Char) : Regex → MatchState → Rest → Option MatchState
  | .empty, state, rest => rest state
  | .literal code flags, state, rest =>
    takeChar text (fun c => (codesOf flags c).contains code) state rest
  | .any flags, state, rest => takeChar text (fun c => flags.dotAll || c ≠ '\n') state rest
  | .set negated items flags, state, rest =>
    takeChar text (fun c => items.any (·.contains flags c) != negated) state rest
  | .anchor place flags, state, rest =>
    if place.holds text flags state.position then rest state else none
  | .sequence a b, state, rest => matchAt text a state fun next => matchAt text b next rest
  | .choice a b, state, rest =>
    orElse (matchAt text a state rest) fun _ => matchAt text b state rest
  | .group none body, state, rest => matchAt text body state rest
  | .group (some number) body, state, rest =>
    matchAt text body state fun next => rest (next.close number state.position)
  | .reference number flags _, state, rest =>
    match state.span? number with
    | some (start, stop) =>
      let length := stop - start
      if sameText text flags start state.position length then
        rest { state with position := state.position + length }
      else none
    | none => none
  | .iterate least greatest greed body, state, rest =>
    let fuel := least + (text.size - state.position) + 2
    let run (lazy : Bool) (rest : Rest) : Option MatchState :=
      Pattern.iterate (matchAt text body) least greatest lazy rest fuel 0 none state
    match greed with
    | .greedy => run false rest
    | .lazy => run true rest
    | .possessive => (run false some).bind rest
  | .lookAhead negated body, state, rest =>
    match matchAt text body state some with
    | some found => if negated then none else rest { found with position := state.position }
    | none => if negated then rest state else none
  | .lookBehind negated body, state, rest =>
    let back := body.width.least
    let found :=
      if state.position < back then none
      else matchAt text body { state with position := state.position - back } some
    match found with
    | some found => if negated then none else rest { found with position := state.position }
    | none => if negated then rest state else none
  | .atomic body, state, rest => (matchAt text body state some).bind rest
  | .conditional number a b, state, rest =>
    if (state.span? number).isSome then matchAt text a state rest else matchAt text b state rest

/-- Whether the pattern matches somewhere in the text. -/
def search (regex : Regex) (text : String) : Bool :=
  let characters := text.toList.toArray
  (List.range (characters.size + 1)).any fun start =>
    (regex.matchAt characters ⟨start, []⟩ some).isSome

end Regex

end JsonSchema.Pattern
