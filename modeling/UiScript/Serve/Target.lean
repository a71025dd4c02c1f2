import UiScript.Path
import UiScript.Serve.Url

/-!
# What a link leads to

The path of a link leads to a file below a root, and never to one outside of it.
-/

namespace UiScript.Serve

/-- The parts below the root that a path leads to; none if they leave it. The root itself is its
index page. -/
def targetParts (path : String) : Option (List String) :=
  let normal := Path.normalize path
  let normal := if normal == "/" || normal == "." then "/index.html" else normal
  let parts := (Path.segments normal).filter fun s => !s.isEmpty && s != "."
  if parts.contains ".." then none else some parts

/-- The file below a root that a link leads to. -/
def resolve (root url : String) : Except Url.Fault (Option String) := do
  return (targetParts (← Url.path url)).map fun parts => parts.foldl Path.join root

end UiScript.Serve
