import Entailment.Proofs.Line.Pieces

/-!
# Reading tokens one by one

What `Token.next?` takes off the front of a text is blanks and then a piece that is a token.  To
show something of a text it is enough to show it where there is no next token, and to carry it over
from what is behind one.

* `Token.next?_of_leads`: which token is the next one.
* `Token.reading_induction`: the induction along the tokens of a text.
-/

namespace Entailment

namespace Token

variable {gap rest : List Char} {piece : Piece} {token : Token}

theorem dropWhile_of_leads (blank : ∀ c ∈ gap, Piece.isBlank c = true) (leads : piece.Leads rest)
    (htoken : piece.shape = .token token) :
    (gap ++ (piece.spelling ++ rest)).dropWhile Piece.isBlank = piece.spelling ++ rest := by
  rw [List.dropWhile_append_of_pos blank]
  exact List.dropWhile_cons_of_neg (leads.not_isBlank htoken)

theorem takeWhile_of_leads (blank : ∀ c ∈ gap, Piece.isBlank c = true) (leads : piece.Leads rest)
    (htoken : piece.shape = .token token) :
    (gap ++ (piece.spelling ++ rest)).takeWhile Piece.isBlank = gap := by
  rw [List.takeWhile_append_of_pos blank]
  show gap ++ (piece.first :: _).takeWhile Piece.isBlank = gap
  rw [List.takeWhile_cons_of_neg (leads.not_isBlank htoken), List.append_nil]

theorem next?_of_leads (blank : ∀ c ∈ gap, Piece.isBlank c = true) (leads : piece.Leads rest)
    (htoken : piece.shape = .token token) :
    next? (gap ++ (piece.spelling ++ rest)) = some (token, rest) := by
  have first : (gap ++ (piece.spelling ++ rest)).dropWhile Piece.isBlank =
      piece.first :: (piece.others ++ rest) := dropWhile_of_leads blank leads htoken
  unfold next?
  rw [first]
  dsimp only
  rw [leads, htoken]

theorem exists_leads_of_next? {text : List Char} (h : next? text = some (token, rest)) :
    ∃ (gap : List Char) (piece : Piece), (∀ c ∈ gap, Piece.isBlank c = true) ∧ piece.Leads rest ∧
      piece.shape = .token token ∧ text = gap ++ (piece.spelling ++ rest) := by
  have whole := List.takeWhile_append_dropWhile (p := Piece.isBlank) (l := text)
  unfold next? at h
  split at h
  · cases h
  · next c others found =>
    obtain ⟨piece, behind, taken, leads, spelled⟩ := Piece.exists_leads c others
    rw [taken] at h
    split at h
    · next htoken =>
      cases h
      rw [found, spelled] at whole
      exact ⟨_, piece, fun d mem => List.mem_takeWhile_imp mem, leads, htoken, whole.symm⟩
    · cases h

/-- To show something of every text, show it of those without a next token, and of those that have
one if it is so of what is behind that. -/
@[elab_as_elim]
theorem reading_induction {motive : List Char → Prop}
    (stop : ∀ text, next? text = none → motive text)
    (read : ∀ (gap : List Char) (piece : Piece) (token : Token) (rest : List Char),
      (∀ c ∈ gap, Piece.isBlank c = true) → piece.Leads rest →
      piece.shape = .token token → motive rest → motive (gap ++ (piece.spelling ++ rest)))
    (text : List Char) : motive text := by
  induction size : text.length using Nat.strong_induction_on generalizing text with
  | _ size ih =>
    subst size
    cases found : next? text with
    | none => exact stop text found
    | some first =>
      have shorter := length_lt_of_next? found
      obtain ⟨gap, piece, blank, leads, htoken, rfl⟩ := exists_leads_of_next? found
      exact read gap piece first.1 first.2 blank leads htoken (ih _ shorter first.2 rfl)

end Token

end Entailment
