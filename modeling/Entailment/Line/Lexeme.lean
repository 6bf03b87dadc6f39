import Entailment.Failure
import Entailment.Line.Piece

/-!
# Lexemes of a line

A lexeme is a token with its spelling and its place in the line.  `Lexeme.scan` finds the lexemes of
a line, or the first character that has no place in it; `Token.scan` reads tokens from a text for as
long as it goes, without regard for what stands between them.
-/

namespace Entailment

/-- A token, as spelled in its line, and the number of characters before it. -/
structure Lexeme where
  token : Token
  spelling : String
  position : Nat
  deriving DecidableEq

namespace Lexeme

def kind (lexeme : Lexeme) : Kind := lexeme.token.kind

/-- The position just behind the lexeme. -/
def stop (lexeme : Lexeme) : Nat := lexeme.position + lexeme.spelling.length

/-- The failure of a lexeme of `line` that is out of place. -/
def unexpected (line : String) (lexeme : Lexeme) : Failure :=
  .symbol lexeme.spelling lexeme.position line

end Lexeme

/-- The lexemes of the pieces from `position` on.  `touching` says that a word ends right there;
another one may not begin in the same place. -/
def Piece.lexemes (line : String) :
    (position : Nat) → (touching : Bool) → List Piece → Except Failure (List Lexeme)
  | _, _, [] => .ok []
  | position, touching, piece :: rest =>
    match piece.shape with
    | .blank => lexemes line (position + piece.spelling.length) false rest
    | .token token =>
      if touching && piece.isWord then .error (.character piece.first position line)
      else do
        let others ← lexemes line (position + piece.spelling.length) piece.isWord rest
        return ⟨token, .ofList piece.spelling, position⟩ :: others
    | .incomplete =>
      match rest with
      | [] => .error (.character piece.first position line)
      | next :: _ => .error (.character next.first (position + 1) line)
    | .unterminated => .error (.character piece.last (position + piece.others.length) line)
    | .unknown => .error (.character piece.first position line)

def Lexeme.scan (line : String) : Except Failure (List Lexeme) :=
  Piece.lexemes line 0 false (Piece.split line.toList)

namespace Token

/-- The token at the front of a text, blanks skipped, and the rest. -/
def next? (text : List Char) : Option (Token × List Char) :=
  match text.dropWhile Piece.isBlank with
  | [] => none
  | c :: rest =>
    match (Piece.front c rest).1.shape with
    | .token token => some (token, (Piece.front c rest).2)
    | _ => none

theorem length_dropWhile_le {α : Type} (p : α → Bool) (items : List α) :
    (items.dropWhile p).length ≤ items.length := by
  have := congrArg List.length (List.takeWhile_append_dropWhile (p := p) (l := items))
  rw [List.length_append] at this
  omega

theorem length_lt_of_next? {text rest : List Char} {token : Token}
    (h : next? text = some (token, rest)) : rest.length < text.length := by
  unfold next? at h
  have skipped := length_dropWhile_le Piece.isBlank text
  split at h
  · cases h
  · next c others found =>
    rw [found] at skipped
    have := Piece.length_front_lt c others
    split at h
    · simp only [Option.some.injEq, Prod.mk.injEq] at h
      rw [← h.2]
      omega
    · cases h

/-- The tokens of a text up to the first thing that is none, and the text behind them. -/
def scan (text : List Char) : List Token × List Char :=
  match h : next? text with
  | none => ([], text)
  | some (token, rest) =>
    have := length_lt_of_next? h
    let (tokens, unread) := scan rest
    (token :: tokens, unread)
termination_by text.length

theorem scan_of_next?_none {text : List Char} (h : next? text = none) : scan text = ([], text) := by
  rw [scan]
  split
  · rfl
  · next found => rw [h] at found; cases found

theorem scan_of_next?_some {text rest : List Char} {token : Token}
    (h : next? text = some (token, rest)) :
    scan text = (token :: (scan rest).1, (scan rest).2) := by
  rw [scan]
  split
  · next found => rw [h] at found; cases found
  · next found =>
    rw [h] at found
    cases found
    rfl

end Token

end Entailment
