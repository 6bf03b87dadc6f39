import Entailment.Proofs.Line.Pieces

/-!
# Tokens that their written form spells

An atom is an upper-case letter with digits behind it, an identifier a lower-case word that is not
reserved, and a text has no quote in it.  The written form of such a token is one piece of a line,
and the piece is that token.

Main statement: `Token.exists_piece_of_lexable`.
-/

namespace Entailment

namespace Token

/-- Whether a name is spelled as atoms are. -/
def isAtomName (name : String) : Bool :=
  match name.toList with
  | [] => false
  | c :: digits => c.isUpper && digits.all Char.isDigit

/-- Whether a name is spelled as identifiers are, and not reserved. -/
def isIdentifier (name : String) : Bool :=
  match name.toList with
  | [] => false
  | c :: letters => c.isLower && letters.all Piece.continuesWord && (keyword? name).isNone

/-- Whether the written form of a token spells it. -/
def lexable : Token → Bool
  | atom name => isAtomName name
  | identifier name => isIdentifier name
  | text content => !content.toList.contains '"'
  | _ => true

theorem exists_piece_of_isAtomName {name : String} (h : isAtomName name = true) :
    ∃ piece : Piece, piece.Whole ∧ piece.shape = .token (atom name) ∧
      piece.spelling = name.toList := by
  unfold isAtomName at h
  split at h
  · cases h
  · next c digits spelled =>
    obtain ⟨upper, all⟩ := Bool.and_eq_true_iff.1 h
    refine ⟨⟨.token (atom name), c, digits⟩, ?_, rfl, spelled.symm⟩
    rw [Piece.Whole, Piece.front_of_isUpper upper, Piece.run_of_all (List.all_eq_true.1 all),
      ← spelled, String.ofList_toList]

theorem exists_piece_of_isIdentifier {name : String} (h : isIdentifier name = true) :
    ∃ piece : Piece, piece.Whole ∧ piece.shape = .token (identifier name) ∧
      piece.spelling = name.toList := by
  unfold isIdentifier at h
  split at h
  · cases h
  · next c letters spelled =>
    obtain ⟨h, unreserved⟩ := Bool.and_eq_true_iff.1 h
    obtain ⟨lower, all⟩ := Bool.and_eq_true_iff.1 h
    refine ⟨⟨.token (identifier name), c, letters⟩, ?_, rfl, spelled.symm⟩
    have word : ofWord name = identifier name := by
      rw [ofWord, Option.isNone_iff_eq_none.1 unreserved]
      rfl
    rw [Piece.Whole, Piece.front_of_isLower lower, Piece.run_of_all (List.all_eq_true.1 all),
      ← spelled, String.ofList_toList, word]

theorem exists_piece_of_text {content : String} (inside : '"' ∉ content.toList) :
    ∃ piece : Piece, piece.Whole ∧ piece.shape = .token (text content) ∧
      piece.spelling = (text content).render.toList := by
  refine ⟨⟨.token (text content), '"', content.toList ++ ['"']⟩, ?_, rfl, ?_⟩
  · show Piece.quoted '"' (content.toList ++ ['"']) = _
    rw [Piece.quoted_of_notMem inside, String.ofList_toList]
  · simp [Piece.spelling, render]

theorem exists_piece_of_front {token : Token} {c : Char} {others : List Char}
    (spelled : token.render.toList = c :: others)
    (whole : Piece.front c others = (⟨.token token, c, others⟩, [])) :
    ∃ piece : Piece, piece.Whole ∧ piece.shape = .token token ∧
      piece.spelling = token.render.toList :=
  ⟨⟨.token token, c, others⟩, whole, rfl, spelled.symm⟩

/-- The written form of a token that is lexable is one piece, and the piece is the token. -/
theorem exists_piece_of_lexable {token : Token} (h : token.lexable = true) :
    ∃ piece : Piece, piece.Whole ∧ piece.shape = .token token ∧
      piece.spelling = token.render.toList := by
  cases token with
  | atom name => exact exists_piece_of_isAtomName h
  | identifier name => exact exists_piece_of_isIdentifier h
  | text content =>
    have inside : '"' ∉ content.toList := by simpa [lexable] using h
    exact exists_piece_of_text inside
  | truth value => cases value <;> exact exists_piece_of_front rfl rfl
  | query question => cases question <;> exact exists_piece_of_front rfl rfl
  | connective sign => cases sign <;> exact exists_piece_of_front rfl rfl
  | _ => exact exists_piece_of_front rfl rfl

end Token

end Entailment
