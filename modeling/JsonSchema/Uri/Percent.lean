import JsonSchema.Text.Utf8

/-!
# Percent encoding

`Uri.encode` escapes every character outside a safe set, byte by byte; `Uri.decode` undoes escapes
once. A percent sign without two hexadecimal digits stays, and bytes that are no text become
replacement characters.
-/

namespace JsonSchema.Uri

/-- A hexadecimal digit, in upper case. -/
def hexDigit (n : Nat) : Char :=
  if n < 10 then Char.ofNat (48 + n) else Char.ofNat (55 + n)

/-- The value of a hexadecimal digit of either case. -/
def hexValue? (c : Char) : Option Nat :=
  if '0' ≤ c ∧ c ≤ '9' then some (c.toNat - 48)
  else if 'A' ≤ c ∧ c ≤ 'F' then some (c.toNat - 55)
  else if 'a' ≤ c ∧ c ≤ 'f' then some (c.toNat - 87)
  else none

/-- Letters, digits and the four marks that are never escaped. -/
def isUnreserved (c : Char) : Bool :=
  c.isAlphanum || c = '_' || c = '.' || c = '-' || c = '~'

/-- The characters that a fragment holds as themselves besides the unreserved ones. -/
def fragmentMarks : List Char :=
  ['/', '?', '!', '$', '&', '\'', '(', ')', '*', '+', ',', ';', '=', ':', '@']

/-- The escape of a byte. -/
def escapeByte (byte : Nat) : List Char :=
  ['%', hexDigit (byte / 16), hexDigit (byte % 16)]

/-- Escapes every character that is neither unreserved nor one of `safe`. -/
def encode (safe text : List Char) : List Char :=
  text.flatMap fun c =>
    if isUnreserved c || safe.contains c then [c] else (Text.utf8Bytes c).flatMap escapeByte

/-- Decodes escapes; `bytes` are those of the escapes read last, not yet turned into characters. -/
def decodeFrom (bytes : List Nat) : List Char → List Char
  | '%' :: a :: b :: rest =>
    match hexValue? a, hexValue? b with
    | some x, some y => decodeFrom (bytes ++ [16 * x + y]) rest
    | _, _ => Text.decodeUtf8 bytes ++ '%' :: decodeFrom [] (a :: b :: rest)
  | c :: rest => Text.decodeUtf8 bytes ++ c :: decodeFrom [] rest
  | [] => Text.decodeUtf8 bytes

/-- Replaces the escapes of a text by the characters they stand for. -/
def decode (text : List Char) : List Char :=
  decodeFrom [] text

end JsonSchema.Uri
