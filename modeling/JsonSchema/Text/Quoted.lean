import JsonSchema.Text.Printable

/-!
# Quoted text

A text is quoted in single quotes, or in double quotes if it holds a single one and no double one.
The backslash, the quote in use and the characters that do not print are escaped.
-/

namespace JsonSchema.Text

/-- A number in lower-case hexadecimal, filled up with zeros to a width. -/
def hexPadded (width n : Nat) : String :=
  let digits := Nat.toDigits 16 n
  String.ofList (List.replicate (width - digits.length) '0' ++ digits)

/-- The escape of a character that does not print. -/
def escapeCode (code : Nat) : String :=
  if code < 0x100 then "\\x" ++ hexPadded 2 code
  else if code < 0x10000 then "\\u" ++ hexPadded 4 code
  else "\\U" ++ hexPadded 8 code

/-- A character inside quotes. -/
def escapeChar (quote c : Char) : String :=
  if c = quote ∨ c = '\\' then String.ofList ['\\', c]
  else if c = '\n' then "\\n"
  else if c = '\r' then "\\r"
  else if c = '\t' then "\\t"
  else if isPrintable c then String.singleton c
  else escapeCode c.toNat

/-- The quote that a text is put in. -/
def quoteFor (text : String) : Char :=
  if text.contains '\'' && !text.contains '"' then '"' else '\''

/-- A text in quotes. -/
def quoted (text : String) : String :=
  let quote := quoteFor text
  String.singleton quote ++ String.join (text.toList.map (escapeChar quote))
    ++ String.singleton quote

/-- The bytes of a text in quotes; those beyond ASCII are escaped one by one. -/
def quotedBytes (text : String) : String :=
  let quote := quoteFor text
  let escapeByte (b : UInt8) : String :=
    if b.toNat < 127 then escapeChar quote (Char.ofNat b.toNat) else escapeCode b.toNat
  "b" ++ String.singleton quote ++ String.join (text.toUTF8.toList.map escapeByte)
    ++ String.singleton quote

end JsonSchema.Text
