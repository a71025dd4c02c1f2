import UiScript.Site.Sources
import UiScript.Text.Markup

/-!
# The index of built pages
-/

namespace UiScript.Serve

/-- The paths of the pages below a root. -/
def pages (listing : Listing) : List String :=
  (Site.filesEndingIn Site.pageEnding listing).map (·.relative)

def indexLine (page : String) : String :=
  let text := Text.escaped page
  s!"    <li><a href=\"/{text}\">{text}</a></li>"

/-- The document that links to all pages. -/
def index (listing : Listing) : String := String.intercalate "\n" [
  "<!DOCTYPE html>",
  "<html>",
  "<head>",
  "  <meta charset=\"UTF-8\">",
  "  <title>Lumina Dev Server</title>",
  "  <style>",
  "    body \x7b font-family: -apple-system, BlinkMacSystemFont, 'Segoe UI', sans-serif;" ++
    " max-width: 800px; margin: 50px auto; padding: 20px; \x7d",
  "    h1 \x7b color: #3b82f6; \x7d",
  "    ul \x7b list-style: none; padding: 0; \x7d",
  "    li \x7b margin: 10px 0; \x7d",
  "    a \x7b color: #3b82f6; text-decoration: none; font-size: 18px; \x7d",
  "  </style>",
  "</head>",
  "<body>",
  "  <h1>Lumina Dev Server</h1>",
  "  <p>Available files:</p>",
  "  <ul>",
  String.intercalate "\n" ((pages listing).map indexLine),
  "  </ul>",
  "</body>",
  "</html>"]

end UiScript.Serve
