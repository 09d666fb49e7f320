import JsonSchema.Yaml.Quoted
import JsonSchema.Yaml.Scalar

/-!
# Reading settings texts

`Yaml.ofText?` reads a text with one value: a mapping of keys to values on lines of their own, a
list with a dash before each item, or a scalar; inside a line lists and mappings stand in brackets.
How far a line is indented says what it belongs to. Anchors, tags and block scalars are not read.
Every reader takes a list of characters and returns what it read with the rest; those that read
whole lines return the start of a line.
-/

namespace JsonSchema.Yaml

/-- Whether a word ends in front of a text: at a blank, at a line end or at the end of the text. -/
def endsWord : List Char → Bool
  | [] => true
  | c :: _ => c = ' ' || c = '\t' || c = '\n'

/-- The next line that is neither empty nor a comment: the column of its first character, and the
text from there on. -/
def nextLine? (inComment : Bool) (column : Nat) : List Char → Option (Nat × List Char)
  | [] => none
  | c :: rest =>
    if c = '\n' then nextLine? false 0 rest
    else if inComment then nextLine? true column rest
    else if c = ' ' then nextLine? false (column + 1) rest
    else if c = '#' then nextLine? true column rest
    else some (column, c :: rest)

/-- The text behind blanks, line ends and comments. -/
def skipAll (input : List Char) : List Char :=
  ((nextLine? false 0 input).map (·.2)).getD []

/-- Ends a line behind a value: only blanks and a comment may follow. -/
def endLine? (inComment : Bool) : List Char → Option (List Char)
  | [] => some []
  | c :: rest =>
    if c = '\n' then some rest
    else if inComment then endLine? true rest
    else if c = ' ' then endLine? false rest
    else if c = '#' then endLine? true rest
    else none

/-- Brackets and the comma between their items. -/
def isFlowMark (c : Char) : Bool :=
  c = ',' || c = '[' || c = ']' || c = '\x7b' || c = '\x7d'

/-- Characters that do not start a plain scalar. -/
def indicators : List Char :=
  ['-', '?', ':', ',', '[', ']', '\x7b', '\x7d', '#', '&', '*', '!', '|', '>', '\'', '"', '%', '@',
    '\x60', ' ', '\t', '\n']

/-- Whether a plain scalar starts here. A dash, and outside of brackets a question mark or a colon,
may start one if no blank follows. -/
def startsPlain (inFlow : Bool) : List Char → Bool
  | [] => false
  | c :: rest =>
    !indicators.contains c || (!endsWord rest && (c = '-' || (!inFlow && (c = '?' || c = ':'))))

/-- Whether a colon in front of a text separates a key from its value. -/
def separates (inFlow : Bool) : List Char → Bool
  | [] => true
  | c :: rest => endsWord (c :: rest) || (inFlow && isFlowMark c)

/-- Takes the part of a plain scalar on one line; a comment starts behind a blank. -/
def takePlain (inFlow behindBlank : Bool) : List Char → List Char × List Char
  | [] => ([], [])
  | c :: rest =>
    if c = '\n' || c = '\t' || (c = '#' && behindBlank) || (c = ':' && separates inFlow rest)
        || (inFlow && (isFlowMark c || c = '?')) then
      ([], c :: rest)
    else
      let (taken, rest) := takePlain inFlow (c = ' ') rest
      (c :: taken, rest)

/-- The text behind line ends and indentation: the number of line ends, the column, and the text. -/
def skipLines (ends column : Nat) : List Char → Nat × Nat × List Char
  | [] => (ends, column, [])
  | c :: rest =>
    if c = '\n' then skipLines (ends + 1) 0 rest
    else if c = ' ' then skipLines ends (column + 1) rest
    else (ends, column, c :: rest)

/-- Takes the further lines of a plain scalar: those that are indented deeper than the value it
belongs to. -/
def takePlainLines (inFlow : Bool) (parent : Int) : Nat → List Char → List (List Char) × List Char
  | 0, input => ([], input)
  | fuel + 1, input =>
    match skipLines 0 0 input with
    | (0, _, _) => ([], input)
    | (ends, column, behind) =>
      if !inFlow && (column : Int) ≤ parent then ([], input)
      else
        match takePlain inFlow true behind with
        | ([], _) => ([], input)
        | (line, rest) =>
          let (lines, rest) := takePlainLines inFlow parent fuel rest
          (List.replicate (ends - 1) [] ++ trimEnd line :: lines, rest)

/-- Reads a plain scalar. -/
def takeWholePlain? (inFlow : Bool) (parent : Int) (input : List Char) :
    Option (Yaml × List Char) :=
  if startsPlain inFlow input then do
    let (first, rest) := takePlain inFlow false input
    let (lines, rest) := takePlainLines inFlow parent input.length rest
    let value ← ofPlain? (String.ofList (foldLines (trimEnd first :: lines)))
    return (value, rest)
  else none

mutual

/-- Reads a value inside brackets, or one that stands in brackets itself. -/
def takeFlow? : Nat → List Char → Option (Yaml × List Char)
  | 0, _ => none
  | fuel + 1, input =>
    match input with
    | '[' :: rest =>
      (takeFlowItems? fuel [] (skipAll rest)).map fun (items, rest) => (.list items, rest)
    | '\x7b' :: rest =>
      (takeFlowEntries? fuel [] (skipAll rest)).map fun (entries, rest) => (.map entries, rest)
    | '\'' :: _ => (takeQuoted? input).map fun (text, rest) => (.scalar (.string text), rest)
    | '"' :: _ => (takeQuoted? input).map fun (text, rest) => (.scalar (.string text), rest)
    | _ => takeWholePlain? true 0 input

/-- Reads what a key inside brackets is mapped to, nothing being null. -/
def takeFlowValue? : Nat → List Char → Option (Yaml × List Char)
  | 0, _ => none
  | fuel + 1, input =>
    match input with
    | ':' :: rest =>
      match skipAll rest with
      | [] => none
      | c :: more =>
        if c = ',' || c = ']' || c = '\x7d' then some (.scalar .null, c :: more)
        else takeFlow? fuel (c :: more)
    | _ => some (.scalar .null, input)

/-- Reads the items of a list up to its closing bracket. An item with a colon is a mapping with one
key. -/
def takeFlowItems? : Nat → List Yaml → List Char → Option (List Yaml × List Char)
  | 0, _, _ => none
  | fuel + 1, done, input =>
    match input with
    | ']' :: rest => some (done.reverse, rest)
    | _ => do
      let (first, rest) ← takeFlow? fuel input
      let (item, rest) ←
        match skipAll rest with
        | ':' :: more =>
          if first.isKey then
            (takeFlowValue? fuel (':' :: more)).map fun (value, rest) =>
              (Yaml.map [(first, value)], rest)
          else none
        | other => some (first, other)
      match skipAll rest with
      | ',' :: rest => takeFlowItems? fuel (item :: done) (skipAll rest)
      | ']' :: rest => some ((item :: done).reverse, rest)
      | _ => none

/-- Reads the entries of a mapping up to its closing brace. -/
def takeFlowEntries? :
    Nat → List (Yaml × Yaml) → List Char → Option (List (Yaml × Yaml) × List Char)
  | 0, _, _ => none
  | fuel + 1, done, input =>
    match input with
    | '\x7d' :: rest => some (done.reverse, rest)
    | _ => do
      let (key, rest) ← takeFlow? fuel input
      if !key.isKey then none
      let (value, rest) ← takeFlowValue? fuel (skipAll rest)
      match skipAll rest with
      | ',' :: rest => takeFlowEntries? fuel ((key, value) :: done) (skipAll rest)
      | '\x7d' :: rest => some (((key, value) :: done).reverse, rest)
      | _ => none

end

/-- Reads a value that starts and ends within lines and ends the last of them. -/
def takeInline? (parent : Int) (input : List Char) : Option (Yaml × List Char) := do
  let (value, rest) ←
    match input with
    | [] => none
    | c :: _ =>
      if c = '[' || c = '\x7b' || c = '\'' || c = '"' then takeFlow? (2 * input.length + 4) input
      else takeWholePlain? false parent input
  return (value, ← endLine? false rest)

/-- Reads a key with its colon; it stands on one line. -/
def takeKey? (input : List Char) : Option (Yaml × List Char) :=
  match input with
  | [] => none
  | c :: behind =>
    if c = '\'' || c = '"' then do
      let (text, rest) ← takeQuoted? input
      match rest.dropWhile (· = ' ') with
      | ':' :: rest =>
        if endsWord rest && !(input.take (input.length - rest.length)).contains '\n' then
          some (.scalar (.string text), rest)
        else none
      | _ => none
    else if c = ':' && endsWord behind then some (.scalar .null, behind)
    else if startsPlain false input then
      match takePlain false false input with
      | (text, ':' :: rest) => (ofPlain? (String.ofList (trimEnd text))).map (·, rest)
      | _ => none
    else none

/-- Whether a text starts with the dash of an item. -/
def isItem : List Char → Bool
  | '-' :: rest => endsWord rest
  | _ => false

/-- Whether nothing more stands on a line, apart from a comment. -/
def isLineOver : List Char → Bool
  | [] => true
  | c :: _ => c = '\n' || c = '#'

mutual

/-- Reads the value that starts at a column; `parent` is the column of what it belongs to. -/
def takeBlock? : Nat → Int → Nat → List Char → Option (Yaml × List Char)
  | 0, _, _, _ => none
  | fuel + 1, parent, column, input =>
    if isItem input then
      (takeItems? fuel column [] input).map fun (items, rest) => (.list items, rest)
    else if (takeKey? input).isSome then
      (takeEntries? fuel column [] input).map fun (entries, rest) => (.map entries, rest)
    else takeInline? parent input

/-- Reads the items whose dashes stand at a column. -/
def takeItems? : Nat → Nat → List Yaml → List Char → Option (List Yaml × List Char)
  | 0, _, _, _ => none
  | fuel + 1, column, done, input => do
    let blanks := (input.drop 1).takeWhile (· = ' ')
    let body := (input.drop 1).dropWhile (· = ' ')
    let (item, rest) ←
      if isLineOver body then takeBelow? fuel column false body
      else takeBlock? fuel column (column + 1 + blanks.length) body
    match nextLine? false 0 rest with
    | none => some ((item :: done).reverse, rest)
    | some (next, line) =>
      if next = column && isItem line then takeItems? fuel column (item :: done) line
      else if next ≤ column then some ((item :: done).reverse, rest)
      else none

/-- Reads the entries whose keys stand at a column. -/
def takeEntries? :
    Nat → Nat → List (Yaml × Yaml) → List Char → Option (List (Yaml × Yaml) × List Char)
  | 0, _, _, _ => none
  | fuel + 1, column, done, input => do
    let (key, behind) ← takeKey? input
    let body := behind.dropWhile (· = ' ')
    let (value, rest) ←
      if isLineOver body then takeBelow? fuel column true body else takeInline? column body
    match nextLine? false 0 rest with
    | none => some (((key, value) :: done).reverse, rest)
    | some (next, line) =>
      if next = column then takeEntries? fuel column ((key, value) :: done) line
      else if next < column then some (((key, value) :: done).reverse, rest)
      else none

/-- Reads the value on the lines below: one that is indented deeper, or for a key a list at the same
column. Without one the value is null. -/
def takeBelow? : Nat → Nat → Bool → List Char → Option (Yaml × List Char)
  | 0, _, _, _ => none
  | fuel + 1, column, isKeyed, body => do
    let below ← endLine? false body
    match nextLine? false 0 below with
    | none => some (.scalar .null, [])
    | some (next, line) =>
      if column < next then takeBlock? fuel column next line
      else if isKeyed && next = column && isItem line then
        (takeItems? fuel column [] line).map fun (items, rest) => (.list items, rest)
      else some (.scalar .null, below)

end

/-- A text with all line ends of one kind. -/
def unifyLines : List Char → List Char
  | [] => []
  | '\r' :: '\n' :: rest => '\n' :: unifyLines rest
  | c :: rest => (if c = '\r' then '\n' else c) :: unifyLines rest

/-- A text without the byte order mark that may stand in front. -/
def dropOrderMark : List Char → List Char
  | '\ufeff' :: rest => rest
  | input => input

/-- Whether a character may stand in a settings text. -/
def isAllowed (c : Char) : Bool :=
  let code := c.toNat
  c = '\t' || c = '\n' || (32 ≤ code && code ≤ 126) || code = 0x85
    || (0xa0 ≤ code && code ≠ 0xfffe && code ≠ 0xffff)

/-- Whether a line is a mark between documents. -/
def isMark (mark : String) (line : List Char) : Bool :=
  Text.startsWith line mark.toList && endsWord (line.drop mark.length)

/-- The lines of a document without the mark in front. -/
def dropStart : List (List Char) → List (List Char)
  | [] => []
  | line :: rest =>
    if isMark "---" line then (' ' :: ' ' :: ' ' :: line.drop 3) :: rest
    else if (nextLine? false 0 line).isNone then dropStart rest
    else line :: rest

/-- The lines up to the mark that ends the document; there is none if another document follows. -/
def cutEnd? : List (List Char) → Option (List (List Char))
  | [] => some []
  | line :: rest =>
    if isMark "---" line then none
    else if isMark "..." line then
      if rest.all fun line => (nextLine? false 0 line).isNone then some [] else none
    else (cutEnd? rest).map (line :: ·)

/-- Reads the value of a document, null if there is none. -/
def ofDocument? (input : List Char) : Option Yaml :=
  match nextLine? false 0 input with
  | none => some (.scalar .null)
  | some (column, start) => do
    let (value, rest) ← takeBlock? (3 * input.length + 4) (-1) column start
    if (nextLine? false 0 rest).isNone then some value else none

/-- Reads a text that holds at most one value. -/
def ofText? (text : String) : Option Yaml := do
  let input := unifyLines (dropOrderMark text.toList)
  if !input.all isAllowed then none
  else ofDocument? (Text.join '\n' (← cutEnd? (dropStart (Text.split '\n' input))))

end JsonSchema.Yaml
