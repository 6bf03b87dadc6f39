import Entailment.Proofs.Line.Scanned

/-!
# Written tokens

A text in which tokens are written has a piece for each of them and blanks between the pieces, at
least where a word would go on otherwise.  Such a text is scanned without failure, and into these
tokens.

Main statement: `Written.exists_scan`.
-/

namespace Entailment

/-- How tokens stand in a text. -/
inductive Written : List Char → List Token → Prop where
  | nil : Written [] []
  | blank {c : Char} {text : List Char} {tokens : List Token} :
      Piece.isBlank c = true → Written text tokens → Written (c :: text) tokens
  | token {piece : Piece} {token : Token} {text : List Char} {tokens : List Token} :
      piece.Whole → piece.shape = .token token →
      (piece.isWord = true → ∀ c ∈ text.head?, Piece.isWordChar c = false) →
      Written text tokens → Written (piece.spelling ++ text) (token :: tokens)

/-- From any position on, the text is scanned into these tokens, unless it goes on with a word that
ends right in front of it. -/
def Scans (text : List Char) (tokens : List Token) : Prop :=
  ∀ line position touching, (touching = true → ∀ c ∈ text.head?, Piece.isWordChar c = false) →
    ∃ lexemes, Piece.lexemes line position touching (Piece.split text) = .ok lexemes ∧
      lexemes.map Lexeme.token = tokens

namespace Scans

variable {text : List Char} {tokens : List Token}

theorem nil : Scans [] [] := by
  intro line position touching _
  refine ⟨[], ?_, rfl⟩
  rw [Piece.split]
  rfl

theorem blank {c : Char} (hc : Piece.isBlank c = true) (h : Scans text tokens) :
    Scans (c :: text) tokens := by
  intro line position touching _
  rw [Piece.lexemes_blank hc]
  apply h
  intro untouched
  cases untouched

theorem token {piece : Piece} {token : Token} (whole : piece.Whole)
    (htoken : piece.shape = .token token)
    (ends : piece.isWord = true → ∀ c ∈ text.head?, Piece.isWordChar c = false)
    (h : Scans text tokens) : Scans (piece.spelling ++ text) (token :: tokens) := by
  intro line position touching apart
  obtain ⟨lexemes, scanned, rfl⟩ := h line (position + piece.spelling.length) piece.isWord ends
  refine ⟨⟨token, .ofList piece.spelling, position⟩ :: lexemes, ?_, rfl⟩
  rw [Piece.lexemes_whole whole htoken ends fun same => apart same _ rfl, scanned]
  rfl

end Scans

namespace Written

variable {text : List Char} {tokens : List Token}

theorem scans (h : Written text tokens) : Scans text tokens := by
  induction h with
  | nil => exact .nil
  | blank hc _ ih => exact ih.blank hc
  | token whole htoken ends _ ih => exact ih.token whole htoken ends

/-- A text in which tokens are written is scanned, and into these tokens. -/
theorem exists_scan {text : String} (h : Written text.toList tokens) :
    ∃ lexemes, Lexeme.scan text = .ok lexemes ∧ lexemes.map Lexeme.token = tokens :=
  h.scans text 0 false nofun

/-- A token in its written form, in front of a text in which others are written. -/
theorem render (token : Token) (lexable : token.lexable = true)
    (ends : token.render.toList.all Piece.isWordChar = true →
      ∀ c ∈ text.head?, Piece.isWordChar c = false)
    (h : Written text tokens) : Written (token.render.toList ++ text) (token :: tokens) := by
  obtain ⟨piece, whole, htoken, spelled⟩ := Token.exists_piece_of_lexable lexable
  rw [← spelled] at ends ⊢
  exact .token whole htoken ends h

/-- A sign is no word, so anything may stand behind it. -/
theorem sign (token : Token) (lexable : token.lexable = true)
    (apart : token.render.toList.all Piece.isWordChar = false) (h : Written text tokens) :
    Written (token.render.toList ++ text) (token :: tokens) := by
  refine h.render token lexable fun word => ?_
  rw [apart] at word
  cases word

theorem space (h : Written text tokens) : Written (' ' :: text) tokens := h.blank rfl

theorem intercalate {tokens : List Token} (lexable : ∀ token ∈ tokens, token.lexable = true) :
    Written (String.intercalate " " (tokens.map Token.render)).toList tokens := by
  induction tokens with
  | nil => exact .nil
  | cons token others ih =>
    have behind := ih fun other mem => lexable other (List.mem_cons_of_mem _ mem)
    have first := lexable token List.mem_cons_self
    cases others with
    | nil =>
      have whole := Written.nil.render token first (by rintro - c ⟨⟩)
      rw [List.map_singleton, String.intercalate_singleton, ← List.append_nil token.render.toList]
      exact whole
    | cons next rest =>
      have whole := behind.space.render token first (by rintro - c ⟨⟩; rfl)
      have spelled : (String.intercalate " " ((token :: next :: rest).map Token.render)).toList =
          token.render.toList ++
            (' ' :: (String.intercalate " " ((next :: rest).map Token.render)).toList) := by
        simp [String.intercalate_cons_cons]
      rw [spelled]
      exact whole

/-- Tokens in their written form with a blank between each two of them. -/
theorem of_spaced {text : List Char} {tokens : List Token}
    (spelled : text = (String.intercalate " " (tokens.map Token.render)).toList)
    (lexable : ∀ token ∈ tokens, token.lexable = true) : Written text tokens := by
  rw [spelled]
  exact .intercalate lexable

end Written

end Entailment
