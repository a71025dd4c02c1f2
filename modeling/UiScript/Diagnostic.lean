import UiScript.Json.Writer
import UiScript.Place
import UiScript.Text.Lines

/-!
# Diagnostics

What is wrong with a program or with the settings: a kind, a message, a place where it is known, and
details for tools.
-/

namespace UiScript

namespace Diagnostic

inductive Kind where
  | lexical
  | grammar
  | typing
  | naming
  | settings
  deriving DecidableEq, Inhabited

def Kind.label : Kind → String
  | .lexical => "lex_error"
  | .grammar => "syntax_error"
  | .typing => "type_error"
  | .naming => "name_error"
  | .settings => "config_error"

end Diagnostic

structure Diagnostic where
  kind : Diagnostic.Kind
  message : String
  place : Option Place := none
  details : Dict Value := []
  deriving Inhabited

namespace Diagnostic

/-! ### Makers -/

def lexicalError (message : String) (place : Option Place) : Diagnostic :=
  { kind := .lexical, message, place }

def grammarError (message : String) (place : Option Place) (details : Dict Value := []) :
    Diagnostic :=
  { kind := .grammar, message, place, details }

/-- The details name the two types as far as they are given. -/
def typeError (message : String) (place : Option Place) (expected actual : Option String := none) :
    Diagnostic :=
  let entry (key : String) (t : Option String) : Dict Value :=
    (t.map fun name => (key, Value.str name)).toList
  { kind := .typing, message, place
    details := entry "expected_type" expected ++ entry "actual_type" actual }

def nameError (message name : String) (place : Option Place) : Diagnostic :=
  { kind := .naming, message, place, details := [("name", .str name)] }

def settingsError (message path : String) : Diagnostic :=
  { kind := .settings, message, details := [("path", .str path)] }

/-! ### Texts -/

/-- A diagnostic as data; an unknown place and empty details are left out. -/
def toValue (d : Diagnostic) : Value :=
  let place := d.place.map fun p => ("location", Value.dict [
    ("file", .str p.file), ("line", .int p.line), ("column", .int p.column)])
  let details := if d.details.isEmpty then none else some ("details", Value.dict d.details)
  .dict ([("kind", .str d.kind.label), ("message", .str d.message)] ++ place.toList ++
    details.toList)

def toJson (d : Diagnostic) : String := Json.indented d.toValue

/-- One line with the place in front of the message. -/
def text (d : Diagnostic) : String :=
  let place := match d.place with
    | some p => " at " ++ p.text
    | none => ""
  s!"[{d.kind.label}]{place}: {d.message}"

/-- One line with the place behind the message. -/
def describe (d : Diagnostic) : String :=
  match d.place with
  | some p => s!"[{d.kind.label}] {d.message} at line {p.line}, column {p.column}"
  | none => d.text

def describeAll (ds : List Diagnostic) : String := Text.unlines (ds.map describe)

def listToJson (ds : List Diagnostic) : String := Json.indented (.list (ds.map toValue))

def firstPlace (ds : List Diagnostic) : Option Place := ds.head?.bind place

end Diagnostic

end UiScript
