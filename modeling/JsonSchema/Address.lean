import JsonSchema.Text.Cut

/-!
# Internet addresses

The texts of IPv4 and IPv6 addresses. An IPv6 text has eight groups, or fewer with one gap `::` for
the missing ones; its last two groups may be an IPv4 text.
-/

namespace JsonSchema.Address

/-- One part of an IPv4 text: up to 255, without a leading zero. -/
def isOctet (part : List Char) : Bool :=
  !part.isEmpty && part.all Char.isDigit && part.length ≤ 3
    && (part = ['0'] || part.head? ≠ some '0')
    && (part.foldl (fun n c => 10 * n + (c.toNat - 48)) 0) ≤ 255

/-- Four octets with points between them. -/
def isIPv4 (text : List Char) : Bool :=
  let parts := Text.split '.' text
  parts.length = 4 && parts.all isOctet

/-- Whether a character is a hexadecimal digit. -/
def isHex (c : Char) : Bool :=
  c.isDigit || ('a' ≤ c && c ≤ 'f') || ('A' ≤ c && c ≤ 'F')

/-- One group of an IPv6 text: one to four hexadecimal digits. -/
def isGroup (part : List Char) : Bool :=
  !part.isEmpty && part.length ≤ 4 && part.all isHex

/-- The groups of a text, an IPv4 text at the end counted as two. -/
def groups? (text : List Char) : Option (List (List Char)) :=
  let parts := Text.split ':' text
  if parts.length < 3 then none
  else
    match parts.getLast? with
    | some last =>
      if last.contains '.' then
        if isIPv4 last then some (parts.dropLast ++ [['0'], ['0']]) else none
      else some parts
    | none => none

/-- The positions of the empty parts other than the first and the last. -/
def innerGaps (parts : List (List Char)) : List Nat :=
  (List.range parts.length).filter fun i =>
    0 < i && i + 1 < parts.length && (parts[i]?.map List.isEmpty).getD false

/-- Whether the parts are the groups of an IPv6 address with at most one gap. -/
def areGroups (parts : List (List Char)) : Bool :=
  if 9 < parts.length then false
  else
    match innerGaps parts with
    | [] => parts.length = 8 && parts.all isGroup
    | [gap] =>
      let front := parts.take gap
      let back := parts.drop (gap + 1)
      let frontOk := front = [[]] || front.all isGroup
      let backOk := back = [[]] || back.all isGroup
      let count (side : List (List Char)) : Nat := if side = [[]] then 0 else side.length
      frontOk && backOk && count front + count back < 8
    | _ => false

/-- An IPv6 text without a zone. -/
def isIPv6 (text : List Char) : Bool :=
  match groups? text with
  | some parts => areGroups parts
  | none => false

/-- An IPv6 text, with or without a zone behind a percent sign. -/
def isZonedIPv6 (text : List Char) : Bool :=
  match Text.cut '%' text with
  | (address, none) => isIPv6 address
  | (address, some zone) => isIPv6 address && !zone.isEmpty && !zone.contains '%'

end JsonSchema.Address
