import UiScript.Text.Quoted

/-!
# Files: trouble and times
-/

namespace UiScript

/-- What can go wrong with a path. -/
inductive FileTrouble where
  | missing
  | denied
  | taken
  | notFolder
  | isFolder
  | tooManyLinks
  | addressInUse
  | unsupported
  deriving DecidableEq, Inhabited

namespace FileTrouble

/-- The number that operating systems give to the trouble. -/
def number : FileTrouble → Nat
  | .missing => 2
  | .denied => 13
  | .taken => 17
  | .notFolder => 20
  | .isFolder => 21
  | .tooManyLinks => 40
  | .unsupported => 95
  | .addressInUse => 98

def text : FileTrouble → String
  | .missing => "No such file or directory"
  | .denied => "Permission denied"
  | .taken => "File exists"
  | .notFolder => "Not a directory"
  | .isFolder => "Is a directory"
  | .tooManyLinks => "Too many levels of symbolic links"
  | .unsupported => "Operation not supported"
  | .addressInUse => "Address already in use"

end FileTrouble

structure FileError where
  trouble : FileTrouble
  path : Option String := none
  deriving DecidableEq, Inhabited

def FileError.message (e : FileError) : String :=
  let place := match e.path with
    | some path => ": " ++ Text.quoted path
    | none => ""
  s!"[Errno {e.trouble.number}] {e.trouble.text}" ++ place

/-- When a file was written: seconds since the start of 1970, and billionths of the next one. -/
structure Moment where
  seconds : Int
  nanoseconds : Nat := 0
  deriving DecidableEq, Inhabited

end UiScript
