/-!
# Live reload

A served page carries a script that asks for the page again and again, and loads it anew when it has
changed.
-/

namespace UiScript.Serve

/-- The milliseconds between two questions of the script. -/
def reloadInterval : Nat := 1000

def reloadScript : String := String.intercalate "\n" [
  "<script>",
  "// Lumina live reload",
  "(function() \x7b",
  "  let lastModified = null;",
  "  setInterval(async () => \x7b",
  "    try \x7b",
  "      const response = await fetch(window.location.href, \x7b method: 'HEAD' \x7d);",
  "      const modified = response.headers.get('last-modified');",
  "      if (lastModified && modified !== lastModified) \x7b",
  "        window.location.reload();",
  "      \x7d",
  "      lastModified = modified;",
  "    \x7d catch (e) \x7b\x7d",
  "  \x7d, " ++ toString reloadInterval ++ ");",
  "\x7d)();",
  "</script>",
  ""]

def splitBeforeLast? (word : List Char) : List Char → Option (List Char × List Char)
  | [] => none
  | c :: cs =>
    match splitBeforeLast? word cs with
    | some (before, after) => some (c :: before, after)
    | none => if word.isPrefixOf (c :: cs) then some ([], c :: cs) else none

/-- The page with the script before its last closing body tag, or at its end. -/
def withReload (page : String) : String :=
  match splitBeforeLast? "</body>".toList page.toList with
  | some (before, after) => String.ofList before ++ reloadScript ++ String.ofList after
  | none => page ++ reloadScript

end UiScript.Serve
