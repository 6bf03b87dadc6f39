import Entailment.Line.Lexeme
import Entailment.Token.Succession

/-!
# Layout of a line

Whether the lexemes of a line may stand in their order: each may follow the one before it, there is
one `∴` at most, and no bracket is closed that was not opened.
-/

namespace Entailment

/-- What the lexemes placed so far say about the next one. -/
structure Layout where
  last : Option Lexeme := none
  /-- The number of open brackets. -/
  depth : Nat := 0
  /-- Whether a `∴` has been placed. -/
  concluded : Bool := false
  deriving DecidableEq

namespace Layout

/-- Whether a kind may stand in the next place. -/
def admits (layout : Layout) (kind : Kind) : Bool :=
  match layout.last with
  | none => kind.startsLine
  | some last => last.kind.allows kind

/-- Places a lexeme of `line`.  A lexeme that may not stand in its place is reported at the end of
the one before it, a second `∴` and a bracket that closes nothing where they are. -/
def place (line : String) (layout : Layout) (lexeme : Lexeme) : Except Failure Layout :=
  let placed := { layout with last := some lexeme }
  if !layout.admits lexeme.kind then
    .error (.symbol lexeme.spelling (layout.last.getD lexeme).stop line)
  else
    match lexeme.kind with
    | .therefore =>
      if layout.concluded then .error (lexeme.unexpected line)
      else .ok { placed with concluded := true }
    | .leftParenthesis => .ok { placed with depth := layout.depth + 1 }
    | .rightParenthesis =>
      if layout.depth = 0 then .error (lexeme.unexpected line)
      else .ok { placed with depth := layout.depth - 1 }
    | _ => .ok placed

/-- Places all lexemes of `line` and checks that it may stop behind the last one. -/
def check (line : String) (lexemes : List Lexeme) : Except Failure Unit := do
  let layout ← lexemes.foldlM (place line) {}
  if layout.depth > 0 || Kind.expectsMore (lexemes.reverse.map Lexeme.kind) then
    throw (.endOfLine line)

end Layout

end Entailment
