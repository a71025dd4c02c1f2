import UiScript.Host.Basic
import UiScript.Serve.Date
import UiScript.Serve.Index
import UiScript.Serve.MediaType
import UiScript.Serve.Reload
import UiScript.Serve.Target
import UiScript.Text.Blank

/-!
# Answers to requests

A request for a file below the root is answered with the file, pages with live reload. A request for
anything else is answered with the index of the pages.
-/

namespace UiScript.Serve

structure Response where
  status : Nat
  headers : List (String × String)
  body : List UInt8
  deriving DecidableEq, Inhabited

/-- What a client asks for. -/
structure Request where
  method : String
  url : String
  deriving DecidableEq, Inhabited

/-! ### Refusals -/

/-- The text as it stands in a document outside of tags. -/
def escapeAngles (s : String) : String :=
  let escape : Char → List Char
    | '&' => "&amp;".toList
    | '<' => "&lt;".toList
    | '>' => "&gt;".toList
    | c => [c]
  String.ofList (s.toList.flatMap escape)

/-- The answer to a request that cannot be served at all. -/
def refusal (status : Nat) (message explanation : String) : Response :=
  let lines := [
    "<!DOCTYPE HTML>",
    "<html lang=\"en\">",
    "    <head>",
    "        <meta charset=\"utf-8\">",
    "        <title>Error response</title>",
    "    </head>",
    "    <body>",
    "        <h1>Error response</h1>",
    s!"        <p>Error code: {status}</p>",
    "        <p>Message: " ++ escapeAngles message ++ ".</p>",
    s!"        <p>Error code explanation: {status} - " ++ escapeAngles explanation ++ ".</p>",
    "    </body>",
    "</html>",
    ""]
  let body := Text.Utf8.encode (String.intercalate "\n" lines)
  { status
    headers := [("Connection", "close"), ("Content-Type", "text/html;charset=utf-8"),
      ("Content-Length", toString body.length)]
    body }

/-- The words of a request line. Its bytes stand for the first 256 characters. -/
def requestWords (line : List UInt8) : List String :=
  let text := line.map fun b => Char.ofNat b.toNat
  let blanksAsOne := text.map fun c => if Text.isBlank c then ' ' else c
  ((Text.splitAt ' ' blanksAsOne).filter (!·.isEmpty)).map String.ofList

/-- The request of a line: a method, a link and a version. Several slashes at the start of the link
count as one. -/
def Request.ofLine (line : List UInt8) : Except Response Request :=
  match requestWords line with
  | [method, url, _] =>
    let cs := url.toList
    let url := if "//".toList.isPrefixOf cs then String.ofList ('/' :: cs.dropWhile (· == '/'))
      else url
    .ok { method, url }
  | _ =>
    let shown := Text.quoted (String.ofList (line.map fun b => Char.ofNat b.toNat))
    .error (refusal 400 s!"Bad request syntax ({shown})"
      "Bad request syntax or unsupported method")

/-! ### Answers -/

def respond (status : Nat) (type : String) (body : List UInt8) (modified : Option Int := none) :
    Response :=
  { status
    headers := [("Content-Type", type), ("Content-Length", toString body.length),
        ("Cache-Control", "no-cache")] ++
      (modified.map fun time => ("Last-Modified", Date.text time)).toList
    body }

def respondFile (path : String) (bytes : List UInt8) (modified : Int) : Response :=
  let type := MediaType.ofPath path
  let body :=
    if type == "text/html" then
      Text.Utf8.encode (withReload (Text.Utf8.decodeLossy bytes))
    else bytes
  let type := if MediaType.isText type then type ++ "; charset=utf-8" else type
  respond 200 type body (some modified)

variable {m : Type → Type} [Monad m]

def answerLink (host : Host m) (root url : String) : ExceptT Url.Fault m Response := do
  match ← (ExceptT.mk (pure (resolve root url)) : ExceptT Url.Fault m _) with
  | none => return respond 403 "text/plain; charset=utf-8" (Text.Utf8.encode "Forbidden")
  | some path =>
    if ← (host.isFile path : m _) then
      match ← (host.read path : m _), ← (host.modified? path : m _) with
      | .ok bytes, some modified => return respondFile path bytes modified.seconds
      | .error e, _ =>
        return respond 500 "text/plain; charset=utf-8"
          (Text.Utf8.encode s!"Server Error: {e.trouble.text}")
      | _, none =>
        return respond 500 "text/plain; charset=utf-8"
          (Text.Utf8.encode s!"Server Error: {FileTrouble.missing.text}")
    else
      let listing ← (host.listing root : m _)
      return respond 200 "text/html; charset=utf-8" (Text.Utf8.encode (index listing))

/-- The answer to a request; only the method decides whether the body is sent. -/
def answer (host : Host m) (root : String) (line : List UInt8) : ExceptT Url.Fault m Response := do
  match Request.ofLine line with
  | .error refused => return refused
  | .ok request =>
    match request.method with
    | "GET" => answerLink host root request.url
    | "HEAD" => return { ← answerLink host root request.url with body := [] }
    | method =>
      return refusal 501 s!"Unsupported method ({Text.quoted method})"
        "Server does not support this operation"

end UiScript.Serve
