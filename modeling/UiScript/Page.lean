import UiScript.Script.Lower
import UiScript.Text.Markup

/-!
# Web pages

A program becomes a script, a style sheet and a page that holds both. The page mounts the first
component.
-/

namespace UiScript

/-- What a program is compiled to. -/
structure Page where
  html : String
  script : String
  css : String
  deriving DecidableEq, Inhabited

namespace Script

/-- The title of a page that is given none. -/
def defaultTitle : String := "Lumina App"

/-- What every script starts with. -/
def banner : String := "// Lumina Runtime v0.1\n// Generated by Lumina Transpiler\n\n"

def declaredComponent? : Node → Option String
  | .component _ name _ _ => some name
  | .exports _ _ (some (.component _ name _ _)) => some name
  | _ => none

def publishingCode (names : List String) : List String :=
  if names.isEmpty then []
  else
    [Text.unlines ((publishedObject ++ " = " ++ publishedObject ++ " || " ++ braced "" ++ ";") ::
      names.map fun n => publishedObject ++ "." ++ n ++ " = " ++ n ++ ";")]

/-- What stands in a page before its style sheet. -/
def styleHead (title : String) : String :=
  Text.unlines [
    "<!DOCTYPE html>",
    "<html lang=\"en\">",
    "<head>",
    "  <meta charset=\"UTF-8\">",
    "  <meta name=\"viewport\" content=\"width=device-width, initial-scale=1.0\">",
    "  <title>" ++ Text.escaped title ++ "</title>",
    "  "]

/-- What stands between the tags of the style sheet. -/
def styleBody (css : String) : String :=
  "\n" ++ Text.unlines [
    "    * " ++ braced " margin: 0; padding: 0; box-sizing: border-box; ",
    "    body " ++
      braced " font-family: -apple-system, BlinkMacSystemFont, 'Segoe UI', sans-serif; ",
    Text.indent 2 css] ++ "\n  "

/-- What stands in a page between its style sheet and its script. -/
def styleTail : String :=
  "\n" ++ Text.unlines ["</head>", "<body>", "  <div id=\"app\"></div>", "  "]

/-- What stands in a page before its script. -/
def documentHead (title css : String) : String :=
  styleHead title ++ "<style>" ++ styleBody css ++ "</style>" ++ styleTail

/-- What stands between the tags of the script. -/
def scriptBody (components : List String) (script : String) : String :=
  let mount := match components with
    | first :: _ =>
      "document.getElementById('app').appendChild(" ++ first ++ "(" ++ braced "" ++ "));"
    | [] => ""
  "\n" ++ Text.unlines [script, "", "// Auto-mount", mount] ++ "\n  "

/-- What stands in a page behind its script. -/
def documentTail : String := "\n</body>\n</html>"

/-- The page around a script and a style sheet. -/
def document (title : String) (components : List String) (script css : String) : String :=
  documentHead title css ++ "<script>" ++ scriptBody components script ++ "</script>" ++
    documentTail

/-- Turns a program into a page, with any code for a node that has no meaning. Components are known
from the start, so that a call may stand before its component. -/
def pageWith (unknown : Node → Gen String) (program : Program) : Gen Page := do
  modify fun g => { g with
    components := g.components ++ program.body.filterMap declaredComponent? }
  let codes ← inOrder ((lowerListWith unknown program.body).map (·.2.stmt))
  let g ← get
  let chunks := codes.filter (!·.isEmpty) ++ publishingCode g.published
  let script := banner ++ String.intercalate "\n\n" chunks
  let css := String.intercalate "\n\n" g.css
  let remark := s!"generated {g.components.length} components, {g.css.length} style rules " ++
    s!"for {program.file}"
  modify fun g => { g with remarks := g.remarks ++ [remark] }
  return { html := document g.title g.components script css, script, css }

abbrev page (program : Program) : Gen Page := pageWith Forms.unknown program

end Script

def Program.toPageWith (unknown : Node → Script.Gen String) (program : Program) (title : String) :
    Except Script.GenerateError Page :=
  (·.1) <$> (Script.pageWith unknown program).run { title }

abbrev Program.toPage (program : Program) (title : String) : Except Script.GenerateError Page :=
  program.toPageWith Script.Forms.unknown title

end UiScript
