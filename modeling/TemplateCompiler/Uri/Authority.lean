import TemplateCompiler.Text.Hexadecimal
import TemplateCompiler.Text.Quoted
import TemplateCompiler.Text.Split

/-!
# Authorities

The authority of a URI names a host, perhaps with a user before it and a port behind it. A host that
is a numeric address of the sixth version, or of one to come, stands in brackets; nothing else does.
An authority is also refused if a character in it is a compatible form of a delimiter, because then
it could be taken for another one.
-/

namespace TemplateCompiler.Uri

inductive AuthorityFault where
  /-- A bracket without its partner, or with something between it and the port or the user. -/
  | misplacedBracket
  | malformedHost (host : String)
  | malformedFutureHost
  /-- An address of the fourth version, which needs no brackets. -/
  | needlessBrackets
  | disguisedDelimiter (authority : String)

def AuthorityFault.message : AuthorityFault → String
  | .misplacedBracket => "Invalid IPv6 URL"
  | .malformedHost host =>
    s!"{Text.quoted host} does not appear to be an IPv4 or IPv6 address"
  | .malformedFutureHost => "IPvFuture address is invalid"
  | .needlessBrackets => "An IPv4 address cannot be in brackets"
  | .disguisedDelimiter authority =>
    "netloc '" ++ authority ++ "' contains invalid characters under NFKC normalization"

/-! ## Numeric addresses -/

/-- A decimal number up to 255, without zeros before it. -/
def isOctet (digits : List Char) : Bool :=
  !digits.isEmpty && digits.length ≤ 3 && digits.all Char.isDigit &&
    (digits = ['0'] || digits.head? ≠ some '0') &&
    digits.foldl (fun n c => 10 * n + (c.toNat - '0'.toNat)) 0 ≤ 255

/-- An address of the fourth version. -/
def isIpv4 (text : List Char) : Bool :=
  let octets := Text.split '.' text
  octets.length = 4 && octets.all isOctet

/-- Sixteen bits of an address of the sixth version. -/
def isGroup (digits : List Char) : Bool :=
  !digits.isEmpty && digits.length ≤ 4 && digits.all Text.isHexDigit

/-- The groups before or behind a gap. At the end of an address there may be none. -/
def besideGap : List (List Char) → List (List Char)
  | [[]] => []
  | groups => groups

/-- Are these the groups of an address? There are eight, or less with an empty one between two
others, which is a gap of zeros. -/
def areGroups (groups : List (List Char)) : Bool :=
  let before := groups.take 1 ++ (groups.drop 1).takeWhile (· ≠ [])
  match (groups.drop 1).dropWhile (· ≠ []) with
  | [] => before.length = 8 && before.all isGroup
  | _ :: [] => false
  | _ :: behind =>
    let groups := besideGap before ++ besideGap behind
    groups.length ≤ 7 && groups.all isGroup

/-- An address of the sixth version. Its last two groups may be written as an address of the
fourth. -/
def isPlainIpv6 (text : List Char) : Bool :=
  let groups := Text.split ':' text
  let last := groups.getLastD []
  if last.contains '.' then isIpv4 last && areGroups (groups.dropLast ++ [['0'], ['0']])
  else areGroups groups

/-- An address of the sixth version, with its zone behind a percent sign if it has one. -/
def isIpv6 (text : List Char) : Bool :=
  isPlainIpv6 (text.takeWhile (· ≠ '%')) &&
    match text.dropWhile (· ≠ '%') with
    | [] => true
    | _ :: zone => !zone.isEmpty && !zone.contains '%'

/-- An address of a version to come, behind its letter. -/
def isFutureAddress (text : List Char) : Bool :=
  !(text.takeWhile Text.isHexDigit).isEmpty &&
    match text.dropWhile Text.isHexDigit with
    | '.' :: address => !address.isEmpty && !address.contains '\n'
    | _ => false

/-! ## Checking -/

/-- Checks a host of an authority that has brackets. -/
def checkHost : List Char → Except AuthorityFault Unit
  | 'v' :: rest => if isFutureAddress rest then .ok () else .error .malformedFutureHost
  | host =>
    if isIpv4 host then .error .needlessBrackets
    else if isIpv6 host then .ok ()
    else .error (.malformedHost (String.ofList host))

/-- Checks where brackets stand behind the user, and what is in them. -/
def checkBracketed (hostAndPort : List Char) : Except AuthorityFault Unit :=
  match hostAndPort.dropWhile (· ≠ '[') with
  | [] => checkHost (hostAndPort.takeWhile (· ≠ ':'))
  | _ :: bracketed =>
    let port := (bracketed.dropWhile (· ≠ ']')).drop 1
    if hostAndPort.head? ≠ some '[' || (!port.isEmpty && port.head? ≠ some ':') then
      .error .misplacedBracket
    else checkHost (bracketed.takeWhile (· ≠ ']'))

/-- Characters whose compatible form has a delimiter in it. -/
def disguises : List Char :=
  ['\u2047', '\u2048', '\u2049', '\u2100', '\u2101', '\u2105', '\u2106', '\u2a74', '\ufe13',
    '\ufe16', '\ufe55', '\ufe56', '\ufe5f', '\ufe6b', '\uff03', '\uff0f', '\uff1a', '\uff1f',
    '\uff20']

def checkAuthority (authority : List Char) : Except AuthorityFault Unit := do
  if authority.contains '[' != authority.contains ']' then throw .misplacedBracket
  if authority.contains '[' then checkBracketed (Text.afterLast '@' authority)
  if authority.any disguises.contains then throw (.disguisedDelimiter (String.ofList authority))

end TemplateCompiler.Uri
