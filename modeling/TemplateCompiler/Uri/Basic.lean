import TemplateCompiler.Path
import TemplateCompiler.Text.Utf8
import TemplateCompiler.Uri.Authority

/-!
# Addresses of documents

An editor names a document by a URI. The path in it says where the document is, whatever the scheme:
of a file it is the path of the file, and of a document that is not saved yet a name to go by. What
may not stand in a URI is written as the percent-encoded bytes of its UTF-8 form.
-/

namespace TemplateCompiler.Uri

/-! ## Percent encoding -/

/-- The bytes that stand for themselves in the path of a URI. -/
def isSafe (b : UInt8) : Bool :=
  let c := Char.ofNat b.toNat
  c.isAlphanum || c = '/' || c = '_' || c = '.' || c = '-' || c = '~'

def percentEncode (b : UInt8) : List Char :=
  if isSafe b then [Char.ofNat b.toNat]
  else '%' :: (Text.hexDigits 2 b.toNat).map Char.toUpper

/-- The bytes that a text stands for. A percent sign without two digits behind it is itself. -/
def percentDecode : List Char → List UInt8
  | [] => []
  | '%' :: a :: b :: rest =>
    if Text.isHexDigit a && Text.isHexDigit b then
      (Text.hexValue [a, b]).toUInt8 :: percentDecode rest
    else Text.Utf8.encode ['%'] ++ percentDecode (a :: b :: rest)
  | c :: rest => Text.Utf8.encode [c] ++ percentDecode rest

def decode (text : List Char) : List Char :=
  Text.Utf8.decodeAny (percentDecode text)

/-- The address of the file at an absolute path. -/
def ofPath (p : Path) : String :=
  "file://" ++ String.ofList ((Text.Utf8.encode p.toString.toList).flatMap percentEncode)

/-! ## The parts of a URI -/

/-- A URI without the blanks before it, and without the tabs and line ends that layout may have put
into it. -/
def withoutLayout (uri : List Char) : List Char :=
  (uri.dropWhile (· ≤ ' ')).filter fun c => c ≠ '\t' && c ≠ '\r' && c ≠ '\n'

def isSchemeChar (c : Char) : Bool :=
  c.isAlphanum || c = '+' || c = '-' || c = '.'

/-- The scheme in small letters, and what follows its colon. Without a scheme that is everything. -/
def splitScheme (uri : List Char) : List Char × List Char :=
  let scheme := uri.takeWhile (· ≠ ':')
  match uri.dropWhile (· ≠ ':') with
  | _ :: rest =>
    if (scheme.head?.any Char.isAlpha) && scheme.all isSchemeChar then
      (scheme.map Char.toLower, rest)
    else ([], uri)
  | [] => ([], uri)

/-- The authority between two slashes and the path, and what follows it. -/
def splitAuthority : List Char → List Char × List Char
  | '/' :: '/' :: rest =>
    let isEnd := fun c : Char => c = '/' || c = '?' || c = '#'
    (rest.takeWhile (!isEnd ·), rest.dropWhile (!isEnd ·))
  | rest => ([], rest)

/-- The schemes whose paths can end in parameters. Without a scheme they can as well. -/
def schemesWithParameters : List String :=
  ["", "ftp", "hdl", "prospero", "http", "imap", "https", "shttp", "rtsp", "rtspu", "sip", "sips",
    "mms", "sftp", "tel"]

/-- A path without parameters, which follow a semicolon in its last component. -/
def withoutParameters (path : List Char) : List Char :=
  let last := Text.afterLast '/' path
  path.take (path.length - last.length) ++ last.takeWhile (· ≠ ';')

/-- The path of a file. The authority is the host that has it. Where there is none, a drive letter
is written small and without a slash before it. -/
def filePath (authority path : List Char) : List Char :=
  if !authority.isEmpty && !path.isEmpty then '/' :: '/' :: (authority ++ path)
  else
    match path with
    | '/' :: letter :: ':' :: rest =>
      if letter.isAlpha then letter.toLower :: ':' :: rest else path
    | _ => path

/-- Where the document is, with an empty text if the URI does not say it. -/
def documentPath (uri : String) : Except AuthorityFault String := do
  let (scheme, rest) := splitScheme (withoutLayout uri.toList)
  let (authority, rest) := splitAuthority rest
  checkAuthority authority
  let path := (rest.takeWhile (· ≠ '#')).takeWhile (· ≠ '?')
  let path :=
    decode (if schemesWithParameters.contains (String.ofList scheme) then withoutParameters path
      else path)
  return String.ofList (if scheme = "file".toList then filePath (decode authority) path else path)

end TemplateCompiler.Uri
