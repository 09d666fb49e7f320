import JsonSchema.Address
import JsonSchema.Text.Quoted

/-!
# The parts of a URI

A URI reference splits into scheme, authority, path, parameters, query and fragment. Splitting fails
only on an authority with brackets that hold no address, or with characters that look like
delimiters. `Parts.text` puts the parts together again; it is not an inverse, because empty queries
and fragments leave no trace.
-/

namespace JsonSchema.Uri

/-- Why a text is no usable URI reference. -/
inductive UriFault where
  | illegalCharacters (uri : String) (characters : List Char)
  | unbalancedBrackets
  | badFutureAddress
  | notAnAddress (host : String)
  | ipv4InBrackets
  | misleadingAuthority (authority : String)
  | noRelativeForm (reference base : String)
  | relativeDocument (uri : String)
  deriving DecidableEq, Repr

/-- The text of a fault. -/
def UriFault.message : UriFault → String
  | .illegalCharacters uri characters =>
    "URI '" ++ uri ++ "' contains illegal characters ["
      ++ ", ".intercalate (characters.map fun c => Text.quoted (String.singleton c)) ++ "]"
  | .unbalancedBrackets => "Invalid IPv6 URL"
  | .badFutureAddress => "IPvFuture address is invalid"
  | .notAnAddress host => Text.quoted host ++ " does not appear to be an IPv4 or IPv6 address"
  | .ipv4InBrackets => "An IPv4 address cannot be in brackets"
  | .misleadingAuthority authority =>
    "netloc '" ++ authority ++ "' contains invalid characters under NFKC normalization"
  | .noRelativeForm reference base =>
    "Cannot resolve relative reference '" ++ reference ++ "' against '" ++ base ++ "'"
  | .relativeDocument uri => "Preloaded documents need an absolute URI, got '" ++ uri ++ "'"

/-- The parts of a URI reference; `params` is what follows a semicolon in the last segment of the
path. -/
structure Parts where
  scheme : List Char
  authority : List Char
  path : List Char
  params : List Char
  query : List Char
  fragment : List Char
  deriving DecidableEq, Inhabited

/-- Schemes whose references may be relative; the empty one stands for a reference without
scheme. -/
def relativeSchemes : List String :=
  ["", "ftp", "http", "gopher", "nntp", "imap", "wais", "file", "https", "shttp", "mms", "prospero",
    "rtsp", "rtspu", "sftp", "svn", "svn+ssh", "ws", "wss"]

/-- Schemes that are written with an authority, be it empty. -/
def authoritySchemes : List String :=
  relativeSchemes ++ ["telnet", "snews", "rsync", "nfs", "git", "git+ssh"]

/-- Schemes whose path may end in parameters. -/
def paramsSchemes : List String :=
  ["", "ftp", "hdl", "prospero", "http", "imap", "https", "shttp", "rtsp", "rtspu", "sip", "sips",
    "mms", "sftp", "tel"]

/-- Whether a scheme is one of a list. -/
def schemeIn (scheme : List Char) (schemes : List String) : Bool :=
  schemes.contains (String.ofList scheme)

/-- The characters of a scheme. -/
def isSchemeChar (c : Char) : Bool :=
  c.isAlphanum || c = '+' || c = '-' || c = '.'

/-- Drops the spaces and controls in front, and all tabs and line ends. -/
def clean (text : List Char) : List Char :=
  (text.dropWhile fun c => c.toNat ≤ 32).filter fun c => c ≠ '\t' && c ≠ '\r' && c ≠ '\n'

/-- Takes a scheme off the front, in lower case. -/
def takeScheme? (text : List Char) : Option (List Char × List Char) :=
  match Text.cut ':' text with
  | (c :: scheme, some rest) =>
    if c.isAlpha && scheme.all isSchemeChar then some ((c :: scheme).map Char.toLower, rest)
    else none
  | _ => none

/-- Whether a host of the next generation has the form `v`, hexadecimal digits, a point, and
something. -/
def isFutureAddress (host : List Char) : Bool :=
  match host with
  | 'v' :: rest =>
    let version := rest.takeWhile Address.isHex
    match rest.dropWhile Address.isHex with
    | '.' :: _ :: _ => !version.isEmpty
    | _ => false
  | _ => false

/-- Checks the host of an authority that has brackets. -/
def checkBracketed (authority : List Char) : Except UriFault Unit := do
  let hostAndPort := ((Text.cutLast? '@' authority).map (·.2)).getD authority
  let host ←
    match Text.cut '[' hostAndPort with
    | (before, some bracketed) =>
      let (host, port) := Text.cut ']' bracketed
      let port := port.getD []
      if !before.isEmpty then throw .unbalancedBrackets
      else if !port.isEmpty && port.head? ≠ some ':' then throw .unbalancedBrackets
      else pure host
    | (_, none) => pure (Text.cut ':' hostAndPort).1
  if host.head? = some 'v' then
    if isFutureAddress host then pure () else throw .badFutureAddress
  else if Address.isIPv4 host then throw .ipv4InBrackets
  else if Address.isZonedIPv6 host then pure ()
  else throw (.notAnAddress (String.ofList host))

/-- Characters that decompose into text with a delimiter of authorities. -/
def delimiterLookalikes : List Nat :=
  [0x2047, 0x2048, 0x2049, 0x2100, 0x2101, 0x2105, 0x2106, 0x2a74, 0xfe13, 0xfe16, 0xfe55, 0xfe56,
    0xfe5f, 0xfe6b, 0xff03, 0xff0f, 0xff1a, 0xff1f, 0xff20]

/-- Checks an authority. -/
def checkAuthority (authority : List Char) : Except UriFault Unit := do
  let opening := authority.contains '['
  let closing := authority.contains ']'
  if opening != closing then throw .unbalancedBrackets
  if opening && closing then checkBracketed authority

/-- Whether a character ends the authority. -/
def endsAuthority (c : Char) : Bool :=
  c = '/' || c = '?' || c = '#'

/-- Splits a URI reference, with the given scheme if it has none; parameters stay in the path. -/
def splitWith (defaultScheme : List Char) (text : List Char) : Except UriFault Parts := do
  let (scheme, rest) := (takeScheme? (clean text)).getD (defaultScheme, clean text)
  let (authority, rest) :=
    match rest with
    | '/' :: '/' :: rest => (rest.takeWhile (!endsAuthority ·), rest.dropWhile (!endsAuthority ·))
    | _ => ([], rest)
  checkAuthority authority
  let (rest, fragment) := Text.cut '#' rest
  let (path, query) := Text.cut '?' rest
  if authority.any fun c => delimiterLookalikes.contains c.toNat then
    throw (.misleadingAuthority (String.ofList authority))
  return {
    scheme, authority, path, params := [], query := query.getD [], fragment := fragment.getD [] }

/-- Splits a URI reference. -/
def splitText (text : List Char) : Except UriFault Parts :=
  splitWith [] text

/-- Splits parameters off the last segment of a path. -/
def splitParams (path : List Char) : List Char × List Char :=
  match Text.cutLast? '/' path with
  | some (front, last) =>
    match Text.cut ';' last with
    | (segment, some params) => (front ++ '/' :: segment, params)
    | (_, none) => (path, [])
  | none =>
    match Text.cut ';' path with
    | (segment, some params) => (segment, params)
    | (_, none) => (path, [])

/-- Splits a URI reference and the parameters off its path, where its scheme has parameters. -/
def parseWith (defaultScheme : List Char) (text : List Char) : Except UriFault Parts := do
  let parts ← splitWith defaultScheme text
  if schemeIn parts.scheme paramsSchemes then
    let (path, params) := splitParams parts.path
    return { parts with path, params }
  else return parts

/-- Puts the parts of a URI together. -/
def Parts.text (parts : Parts) : List Char :=
  let path := if parts.params.isEmpty then parts.path else parts.path ++ ';' :: parts.params
  let withAuthority : Bool :=
    !parts.authority.isEmpty
      || (!parts.scheme.isEmpty && schemeIn parts.scheme authoritySchemes
        && !Text.startsWith path ['/', '/'])
  let body :=
    if withAuthority then
      let slash := if !path.isEmpty && path.head? ≠ some '/' then ['/'] else []
      ['/', '/'] ++ parts.authority ++ slash ++ path
    else path
  (if parts.scheme.isEmpty then [] else parts.scheme ++ [':']) ++ body
    ++ (if parts.query.isEmpty then [] else '?' :: parts.query)
    ++ (if parts.fragment.isEmpty then [] else '#' :: parts.fragment)

end JsonSchema.Uri
