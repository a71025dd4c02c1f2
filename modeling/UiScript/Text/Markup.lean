/-!
# Text in markup

The five characters that markup gives a meaning to are written as entities.
-/

namespace UiScript.Text

def escapedChar : Char → List Char
  | '&' => "&amp;".toList
  | '<' => "&lt;".toList
  | '>' => "&gt;".toList
  | '"' => "&quot;".toList
  | '\'' => "&#x27;".toList
  | c => [c]

/-- The text as markup text; it is safe between tags and inside a quoted attribute. -/
def escaped (s : String) : String := String.ofList (s.toList.flatMap escapedChar)

end UiScript.Text
