import Entailment.Token

/-!
# Pieces of a line

A line falls into pieces without gaps: runs of blanks, tokens, and what cannot become a token.  Each
piece is the longest one that starts where it does.

## Main statements

* `Piece.spelling_front`: taking a piece off the front of a text loses nothing.
* `Piece.spelling_split`: the pieces of a text, put together, are the text.
-/

namespace Entailment

inductive Shape where
  /-- Spaces, tabs and carriage returns. -/
  | blank
  | token (token : Token)
  /-- The first half of a sign whose second half is missing. -/
  | incomplete
  /-- A text without its closing quote. -/
  | unterminated
  /-- A character that no token contains. -/
  | unknown
  deriving DecidableEq

/-- A piece of a line with its spelling, which is never empty. -/
structure Piece where
  shape : Shape
  first : Char
  others : List Char
  deriving DecidableEq

namespace Piece

def spelling (piece : Piece) : List Char := piece.first :: piece.others

def last (piece : Piece) : Char := piece.spelling.getLast (List.cons_ne_nil _ _)

/-- Whether a character separates tokens. -/
def isBlank (c : Char) : Bool := c = ' ' || c = '\t' || c = '\r'

/-- Whether a character may continue a lower-case word. -/
def continuesWord (c : Char) : Bool := c.isLower || c.isDigit || c = '_'

/-- Whether a piece is spelled with ASCII letters, digits and underscores only. -/
def isWord (piece : Piece) : Bool := piece.spelling.all fun c => c.isAlphanum || c = '_'

/-- The token spelled by a single character. -/
def sign? : Char → Option Token
  | '¬' | '!' => some .not
  | '∧' | '&' => some (.connective .conjunction)
  | '∨' | '|' => some (.connective .disjunction)
  | '→' => some (.connective .conditional)
  | '∴' => some .therefore
  | '(' => some .leftParenthesis
  | ')' => some .rightParenthesis
  | ',' => some .comma
  | _ => none

/-- The piece of a character and those behind it that satisfy `continues`, and the rest. -/
def run (continues : Char → Bool) (shape : List Char → Shape) (c : Char) (rest : List Char) :
    Piece × List Char :=
  let others := rest.takeWhile continues
  (⟨shape others, c, others⟩, rest.dropWhile continues)

/-- The piece of a text that opens with a quote, and the rest. -/
def quoted (quote : Char) (rest : List Char) : Piece × List Char :=
  let content := rest.takeWhile (· ≠ '"')
  match rest.dropWhile (· ≠ '"') with
  | [] => (⟨.unterminated, quote, content⟩, [])
  | closing :: rest => (⟨.token (.text (.ofList content)), quote, content ++ [closing]⟩, rest)

def signed : Char → List Char → Piece × List Char
  | ':', '=' :: rest => (⟨.token .assign, ':', ['=']⟩, rest)
  | '-', '>' :: rest => (⟨.token (.connective .conditional), '-', ['>']⟩, rest)
  | c, rest =>
    if c = ':' || c = '-' then (⟨.incomplete, c, []⟩, rest)
    else
      match sign? c with
      | some token => (⟨.token token, c, []⟩, rest)
      | none => (⟨.unknown, c, []⟩, rest)

/-- The piece at the front of a text that opens with `c`, and the rest. -/
def front (c : Char) (rest : List Char) : Piece × List Char :=
  if isBlank c then run isBlank (fun _ => .blank) c rest
  else if c.isUpper then
    run Char.isDigit (fun digits => .token (.atom (.ofList (c :: digits)))) c rest
  else if c.isLower then
    run continuesWord (fun letters => .token (.ofWord (.ofList (c :: letters)))) c rest
  else if c = '"' then quoted c rest
  else signed c rest

/-! ## What is taken off the front, and what is left -/

theorem spelling_run (continues : Char → Bool) (shape : List Char → Shape) (c : Char)
    (rest : List Char) :
    (run continues shape c rest).1.spelling ++ (run continues shape c rest).2 = c :: rest := by
  simp [run, spelling, List.takeWhile_append_dropWhile]

theorem spelling_quoted (quote : Char) (rest : List Char) :
    (quoted quote rest).1.spelling ++ (quoted quote rest).2 = quote :: rest := by
  have whole : rest.takeWhile (· ≠ '"') ++ rest.dropWhile (· ≠ '"') = rest :=
    List.takeWhile_append_dropWhile
  unfold quoted
  split
  · next h =>
    rw [h, List.append_nil] at whole
    simp only [spelling, whole, List.append_nil]
  · next h =>
    rw [h] at whole
    simp only [spelling, List.cons_append, List.append_assoc, List.nil_append, whole]

theorem spelling_signed (c : Char) (rest : List Char) :
    (signed c rest).1.spelling ++ (signed c rest).2 = c :: rest := by
  unfold signed
  split
  · rfl
  · rfl
  · split
    · rfl
    · split <;> rfl

/-- The piece at the front and the rest are the text. -/
theorem spelling_front (c : Char) (rest : List Char) :
    (front c rest).1.spelling ++ (front c rest).2 = c :: rest := by
  unfold front
  repeat' split
  · exact spelling_run ..
  · exact spelling_run ..
  · exact spelling_run ..
  · exact spelling_quoted ..
  · exact spelling_signed ..

theorem length_front_lt (c : Char) (rest : List Char) :
    (front c rest).2.length < (c :: rest).length := by
  have := congrArg List.length (spelling_front c rest)
  simp only [spelling, List.length_append, List.length_cons] at this ⊢
  omega

/-! ## The pieces of a text -/

def split : List Char → List Piece
  | [] => []
  | c :: rest => (front c rest).1 :: split (front c rest).2
termination_by text => text.length
decreasing_by exact length_front_lt c rest

/-- The pieces of a text, put together, are the text. -/
theorem spelling_split (text : List Char) : (split text).flatMap spelling = text := by
  fun_induction split text with
  | case1 => rfl
  | case2 c rest ih => rw [List.flatMap_cons, ih, spelling_front]

end Piece

end Entailment
