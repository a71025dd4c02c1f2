import UiScript.Text.Lines

/-!
# Membership in ascending ranges
-/

namespace UiScript.Text

/-- The closed ranges from `n` on, each given by how many numbers are skipped in front of it and by
how many it has. -/
def ranges : Nat → List Nat → List (Nat × Nat)
  | n, skipped :: length :: rest =>
    (n + skipped, n + skipped + length - 1) :: ranges (n + skipped + length) rest
  | _, _ => []

/-- The numbers of a table, with blanks between them. -/
def numbers (table : String) : List Nat :=
  (lines table).flatMap fun line => (split ' ' line).filterMap String.toNat?

/-- `n` lies in one of the closed ranges, which are in ascending order. -/
def inRanges : List (Nat × Nat) → Nat → Bool
  | [], _ => false
  | (lo, hi) :: rest, n => if n < lo then false else n ≤ hi || inRanges rest n

end UiScript.Text
