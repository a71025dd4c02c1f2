import UiScript.Token.Scan

/-!
# Ends of lines

A line end ends a statement unless something is open. It carries nothing right after an opening
bracket, a comma, a semicolon or another line end, nor right before a closing bracket or `else`.
-/

namespace UiScript.Token

/-- A line end right after such a token carries nothing. -/
def Kind.isOpener : Kind → Bool
  | .symbol .leftBrace | .symbol .leftParen | .symbol .leftBracket => true
  | .symbol .comma | .symbol .semicolon => true
  | .newline => true
  | _ => false

/-- A line end right before such a token carries nothing. -/
def Kind.isCloser : Kind → Bool
  | .symbol .rightBrace | .symbol .rightParen | .symbol .rightBracket => true
  | .keyword .elseWord => true
  | _ => false

/-- Takes in the next token; `kept` has the tokens kept so far, the last one first. -/
def keep (kept : List Token) (t : Token) : List Token :=
  if t.kind == .newline then
    match kept with
    | last :: _ => if last.kind.isOpener then kept else t :: kept
    | [] => [t]
  else if t.kind.isCloser then
    match kept with
    | last :: before => if last.kind == .newline then t :: before else t :: kept
    | [] => [t]
  else t :: kept

/-- Drops the line ends that end no statement. -/
def pruneNewlines (tokens : List Token) : List Token := (tokens.foldl keep []).reverse

def tokenize (source file : String) : Except LexError (List Token) :=
  (rawTokens source file).map pruneNewlines

end UiScript.Token
