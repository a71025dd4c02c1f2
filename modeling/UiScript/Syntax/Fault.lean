import UiScript.Number.Numeral
import UiScript.Token.Lines

/-!
# Why a program cannot be read
-/

namespace UiScript

/-- What is wrong with a list of tokens. -/
inductive SyntaxFault where
  | expected (wanted : Token.Kind) (got : Token)
  | expectedName (got : Token)
  | unexpected (got : Token)
  | closingTag (opening closing : String) (place : Place)
  | unclosedHole (place : Place)
  | trailing (value : String) (place : Place)
  /-- A template holds a fragment that cannot be cut into tokens. -/
  | lexical (error : Token.LexError)
  | numeral (error : NumeralError)
  | noTokens
  /-- The tokens lack an end, and reading them goes on forever. -/
  | endless
  deriving DecidableEq, Inhabited

namespace SyntaxFault

def message : SyntaxFault → String
  | .expected wanted got => s!"Expected {wanted.label}, got {got.kind.label} ('{got.value}')"
  | .expectedName got => s!"Expected identifier, got {got.kind.label} ('{got.value}')"
  | .unexpected got => s!"Unexpected token: {got.kind.label} ('{got.value}')"
  | .closingTag opening closing _ => s!"Expected closing tag </{opening}>, got </{closing}>"
  | .unclosedHole _ => "Unterminated $\x7b in template string"
  | .trailing value _ => s!"Unexpected '{value}' in template expression"
  | .lexical e => e.fault.message
  | .numeral e => e.message
  | .noTokens => "list index out of range"
  | .endless => "endless input"

def diagnostic? : SyntaxFault → Option Diagnostic
  | f@(.expected _ got) | f@(.expectedName got) | f@(.unexpected got) =>
    some (.grammarError f.message (some got.place))
  | f@(.closingTag opening closing place) =>
    some (.grammarError f.message (some place)
      [("opening_tag", .str opening), ("closing_tag", .str closing)])
  | f@(.unclosedHole place) | f@(.trailing _ place) => some (.grammarError f.message (some place))
  | .lexical e => some e.diagnostic
  | .numeral _ | .noTokens | .endless => none

end SyntaxFault

end UiScript
