import UiScript.Text.Lines

/-!
# Paths

Paths are texts whose parts are divided by slashes. Everything here is about the text alone and
looks at no files.
-/

namespace UiScript.Path

/-- The path of something below a folder; an absolute one stands for itself. -/
def join (base path : String) : String :=
  if path.startsWith "/" then path
  else if base.isEmpty || base.endsWith "/" then base ++ path
  else base ++ "/" ++ path

/-- The parts between slashes. -/
def segments (path : String) : List String := Text.split '/' path

/-- Drops empty parts and single points and resolves double points. The parts so far are given in
reverse; above the root there is nothing, so a double point is dropped there. -/
def simplify (absolute : Bool) : List String → List String → List String
  | done, [] => done.reverse
  | done, s :: more =>
    if s.isEmpty || s == "." then simplify absolute done more
    else if s == ".." then
      match done with
      | [] => simplify absolute (if absolute then [] else [".."]) more
      | last :: before =>
        if last == ".." then simplify absolute (".." :: done) more
        else simplify absolute before more
    else simplify absolute (s :: done) more

/-- The slashes that a path starts with: exactly two keep their number. -/
def leadingSlashes (path : String) : String :=
  match path.toList with
  | '/' :: '/' :: '/' :: _ => "/"
  | '/' :: '/' :: _ => "//"
  | '/' :: _ => "/"
  | _ => ""

/-- The shortest path with the same meaning, as far as the text tells. -/
def normalize (path : String) : String :=
  let root := leadingSlashes path
  let text := root ++ String.intercalate "/" (simplify (!root.isEmpty) [] (segments path))
  if text.isEmpty then "." else text

def absolute (workingDir path : String) : String := normalize (join workingDir path)

/-- Splits a path behind its last slash. -/
def splitLast (path : String) : List Char × List Char :=
  let reversed := path.toList.reverse
  ((reversed.dropWhile (· != '/')).reverse, (reversed.takeWhile (· != '/')).reverse)

/-- The folder part of a path, without the slashes at its end. -/
def folder (path : String) : String :=
  let head := (splitLast path).1
  if head.all (· == '/') then String.ofList head
  else String.ofList (head.reverse.dropWhile (· == '/')).reverse

/-- The part behind the last slash. -/
def name (path : String) : String := String.ofList (splitLast path).2

/-- Splits off the last point of a name and what follows it. Points at the start of the name do not
count. -/
def splitExtension (path : String) : String × String :=
  let (head, name) := splitLast path
  let reversed := name.reverse
  let stem := (reversed.dropWhile (· != '.')).drop 1 |>.reverse
  if reversed.contains '.' && !stem.all (· == '.') then
    (String.ofList (head ++ stem),
      String.ofList ('.' :: (reversed.takeWhile (· != '.')).reverse))
  else (path, "")

end UiScript.Path
