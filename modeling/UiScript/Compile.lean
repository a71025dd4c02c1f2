import UiScript.Log
import UiScript.Page
import UiScript.Syntax.Grammar
import UiScript.Types.Check

/-!
# Compilation

A source is read, checked if that is asked for, and turned into a page. Each step leaves a log
entry, also if a later step fails.
-/

namespace UiScript

/-- Why a source cannot be compiled. -/
inductive CompileFault where
  | grammar (fault : SyntaxFault)
  /-- The types are wrong, and no page is wanted then. -/
  | typing (diagnostics : List Diagnostic)
  | generating (fault : Script.GenerateError)
  deriving Inhabited

abbrev Compile := ExceptT CompileFault (StateM (List Log.Entry))

structure Compiled where
  page : Page
  diagnostics : List Diagnostic := []
  deriving Inhabited

namespace Compile

structure Options where
  typecheck : Bool := false
  /-- A diagnostic prevents the page. -/
  strict : Bool := false
  title : String := Script.defaultTitle
  deriving Inhabited

def log (level : Log.Level) (part message : String) : Compile Unit :=
  modify fun entries => entries ++ [{ level, part, message }]

def tokens (source file : String) : Compile (List Token) :=
  match Token.tokenize source file with
  | .error e => throw (.grammar (.lexical e))
  | .ok ts => do
    log .debug "lexer" s!"lexed {ts.length} tokens from {file}"
    return ts

def logFragments (file : String) : List Nat → Compile Unit
  | [] => return ()
  | n :: ns => do
    log .debug "lexer" s!"lexed {n} tokens from {file}"
    logFragments file ns

def program (source file : String) : Compile Program := do
  let ts ← tokens source file
  let (result, fragments) := Syntax.parseTraced ts file
  logFragments file fragments
  match result with
  | .error f => throw (.grammar f)
  | .ok p =>
    log .debug "parser" s!"parsed {p.body.length} top-level nodes from {file}"
    return p

def diagnostics (p : Program) : Compile (List Diagnostic) := do
  let ds := p.typeDiagnostics
  log .debug "checker" s!"type check of {p.file} produced {ds.length} diagnostics"
  return ds

def logRemarks : List String → Compile Unit
  | [] => return ()
  | r :: rs => do
    log .debug "codegen" r
    logRemarks rs

def page (p : Program) (title : String) : Compile Page :=
  match (Script.page p).run { title } with
  | .error e => throw (.generating e)
  | .ok (page, g) => do
    logRemarks g.remarks
    return page

/-- The page of a program with its diagnostics, unless these prevent it. -/
def finish (p : Program) (file : String) (options : Options) (ds : List Diagnostic) :
    Compile Compiled := do
  if !ds.isEmpty then
    log .info "compiler" s!"{file}: {ds.length} type diagnostics"
  if options.strict && !ds.isEmpty then throw (.typing ds)
  let page ← page p options.title
  return { page, diagnostics := ds }

def source (text file : String) (options : Options) : Compile Compiled := do
  let p ← program text file
  let ds ← if options.typecheck || options.strict then diagnostics p else pure []
  finish p file options ds

end Compile

def compile (text file : String) (options : Compile.Options) : Except CompileFault Compiled :=
  ((Compile.source text file options).run.run []).1

end UiScript
