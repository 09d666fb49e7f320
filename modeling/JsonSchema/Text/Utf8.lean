/-!
# Characters as bytes

`utf8Bytes` gives the one to four bytes of a character. `decodeUtf8` reads bytes back and never
fails: each longest run of bytes that begins a character without completing it, and each byte that
begins none, becomes one replacement character.
-/

namespace JsonSchema.Text

/-- The bytes of a character. -/
def utf8Bytes (c : Char) : List Nat :=
  let n := c.toNat
  if n < 0x80 then [n]
  else if n < 0x800 then [0xC0 + n / 64, 0x80 + n % 64]
  else if n < 0x10000 then [0xE0 + n / 4096, 0x80 + n / 64 % 64, 0x80 + n % 64]
  else [0xF0 + n / 262144, 0x80 + n / 4096 % 64, 0x80 + n / 64 % 64, 0x80 + n % 64]

/-- What is expected inside a character: how many more bytes, the range of the next one, and the
bits so far. -/
structure Utf8Pending where
  owed : Nat
  low : Nat
  high : Nat
  bits : Nat
  deriving DecidableEq

/-- What stands for bytes that are no character. -/
def replacement : Char := '\uFFFD'

/-- What a byte between characters gives: a character, or the start of a longer one. -/
def utf8Lead (byte : Nat) : List Char × Option Utf8Pending :=
  if byte < 0x80 then ([Char.ofNat byte], none)
  else if 0xC2 ≤ byte ∧ byte ≤ 0xDF then ([], some ⟨1, 0x80, 0xBF, byte - 0xC0⟩)
  else if byte = 0xE0 then ([], some ⟨2, 0xA0, 0xBF, 0⟩)
  else if byte = 0xED then ([], some ⟨2, 0x80, 0x9F, 0xD⟩)
  else if 0xE1 ≤ byte ∧ byte ≤ 0xEF then ([], some ⟨2, 0x80, 0xBF, byte - 0xE0⟩)
  else if byte = 0xF0 then ([], some ⟨3, 0x90, 0xBF, 0⟩)
  else if 0xF1 ≤ byte ∧ byte ≤ 0xF3 then ([], some ⟨3, 0x80, 0xBF, byte - 0xF0⟩)
  else if byte = 0xF4 then ([], some ⟨3, 0x80, 0x8F, 4⟩)
  else ([replacement], none)

/-- One step of decoding: the characters that are complete with this byte, and what is expected
next. -/
def utf8Step (pending : Option Utf8Pending) (byte : Nat) : List Char × Option Utf8Pending :=
  match pending with
  | none => utf8Lead byte
  | some p =>
    if p.low ≤ byte ∧ byte ≤ p.high then
      let bits := p.bits * 64 + (byte - 0x80)
      if p.owed ≤ 1 then ([Char.ofNat bits], none) else ([], some ⟨p.owed - 1, 0x80, 0xBF, bits⟩)
    else
      let (characters, next) := utf8Lead byte
      (replacement :: characters, next)

/-- Decodes bytes from the middle of a text. -/
def decodeUtf8From (pending : Option Utf8Pending) : List Nat → List Char
  | [] => if pending.isSome then [replacement] else []
  | byte :: rest =>
    let (characters, next) := utf8Step pending byte
    characters ++ decodeUtf8From next rest

/-- Decodes bytes. -/
def decodeUtf8 (bytes : List Nat) : List Char :=
  decodeUtf8From none bytes

end JsonSchema.Text
