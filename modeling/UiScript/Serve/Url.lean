import UiScript.Serve.Address
import UiScript.Text.Case
import UiScript.Text.Quoted
import UiScript.Text.Utf8

/-!
# The path of a link

A link may name a scheme and a host before its path, and parameters, a query and a fragment behind
it. In the path a percent sign and two hexadecimal digits stand for a byte.
-/

namespace UiScript.Serve.Url

/-- Why a link cannot be taken apart. -/
inductive Fault where
  | unbalancedBrackets
  | laterAddress
  | fourthAddress
  | noAddress (host : String)
  | disguisedHost (host : String)
  deriving DecidableEq, Inhabited

def Fault.message : Fault → String
  | .unbalancedBrackets => "Invalid IPv6 URL"
  | .laterAddress => "IPvFuture address is invalid"
  | .fourthAddress => "An IPv4 address cannot be in brackets"
  | .noAddress host => Text.quoted host ++ " does not appear to be an IPv4 or IPv6 address"
  | .disguisedHost host =>
    s!"netloc '{host}' contains invalid characters under NFKC normalization"

/-! ### Parts -/

def isAsciiLetter (c : Char) : Bool := ('a' ≤ c && c ≤ 'z') || ('A' ≤ c && c ≤ 'Z')

def isSchemeChar (c : Char) : Bool :=
  isAsciiLetter c || Text.isAsciiDigit c || c == '+' || c == '-' || c == '.'

/-- The link without controls and blanks at its start, and without tabs and line ends. -/
def clean (cs : List Char) : List Char :=
  (cs.dropWhile (· ≤ ' ')).filter fun c => c != '\t' && c != '\r' && c != '\n'

/-- A scheme and what follows its colon. -/
def splitScheme (cs : List Char) : String × List Char :=
  let scheme := cs.takeWhile (· != ':')
  match cs.drop scheme.length, scheme with
  | _ :: rest, c :: _ =>
    if isAsciiLetter c && scheme.all isSchemeChar then (Text.lower (String.ofList scheme), rest)
    else ("", cs)
  | _, _ => ("", cs)

/-- A host behind two slashes and what follows it. -/
def splitHost : List Char → List Char × List Char
  | '/' :: '/' :: cs =>
    let inHost (c : Char) := c != '/' && c != '?' && c != '#'
    (cs.takeWhile inHost, cs.dropWhile inHost)
  | cs => ([], cs)

/-- Characters that stand for a delimiter of links in a disguise. -/
def isDisguised (c : Char) : Bool :=
  [0x2047, 0x2048, 0x2049, 0x2100, 0x2101, 0x2105, 0x2106, 0x2A74, 0xFE13, 0xFE16, 0xFE55, 0xFE56,
    0xFE5F, 0xFE6B, 0xFF03, 0xFF0F, 0xFF1A, 0xFF1F, 0xFF20].contains c.toNat

/-- Refuses a host with wrong brackets or disguised delimiters. -/
def checkHost (host : List Char) : Except Fault Unit := do
  if host.contains '[' != host.contains ']' then throw .unbalancedBrackets
  if host.contains '[' then
    let inner := ((host.dropWhile (· != '[')).drop 1).takeWhile (· != ']')
    if inner.head? == some 'v' then
      if !Address.isLater inner then throw .laterAddress
    else if Address.isFourth inner then throw .fourthAddress
    else if !Address.isSixth inner then throw (.noAddress (String.ofList inner))
  if host.any isDisguised then throw (.disguisedHost (String.ofList host))

/-- The schemes whose paths carry parameters. -/
def schemesWithParameters : List String :=
  ["", "ftp", "hdl", "prospero", "http", "imap", "https", "shttp", "rtsp", "rtsps", "rtspu", "sip",
    "sips", "mms", "sftp", "tel"]

/-- Cuts the parameters off the last part of a path. -/
def cutParameters (cs : List Char) : List Char :=
  let last := (cs.reverse.takeWhile (· != '/')).reverse
  cs.take (cs.length - last.length) ++ last.takeWhile (· != ';')

/-- The path of a link, still with percent signs. -/
def rawPath (url : String) : Except Fault (List Char) := do
  let (scheme, rest) := splitScheme (clean url.toList)
  let (host, rest) := splitHost rest
  checkHost host
  let path := (rest.takeWhile (· != '#')).takeWhile (· != '?')
  return if schemesWithParameters.contains scheme then cutParameters path else path

/-! ### Percent signs -/

/-- The bytes that a run of plain characters stands for. -/
def unescape : List Char → List UInt8
  | '%' :: a :: b :: cs =>
    match Text.hexValue? a, Text.hexValue? b with
    | some x, some y => UInt8.ofNat (16 * x + y) :: unescape cs
    | _, _ => '%'.toUInt8 :: unescape (a :: b :: cs)
  | c :: cs => c.toUInt8 :: unescape cs
  | [] => []

def isAscii (c : Char) : Bool := c.toNat < 0x80

/-- The text of a path. Each run of plain characters is decoded alone. -/
def decodeRuns (run : List Char) : List Char → List Char
  | [] => (Text.Utf8.decodeLossy (unescape run.reverse)).toList
  | c :: cs =>
    if isAscii c then decodeRuns (c :: run) cs
    else (Text.Utf8.decodeLossy (unescape run.reverse)).toList ++ c :: decodeRuns [] cs

/-- The path of a link as text. -/
def path (url : String) : Except Fault String := do
  return String.ofList (decodeRuns [] (← rawPath url))

end UiScript.Serve.Url
