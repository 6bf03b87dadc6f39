import Entailment.Proofs.Line.Layout
import Entailment.Proofs.Line.Scanned
import Entailment.Proofs.Line.Written
import Entailment.Proofs.Token.Reading

/-!
# Canonical spelling

Tokens are spelled canonically in their written form with a blank between each two of them.  From
such a text the tokens are read again and nothing is left, and a line that is spelled so is the line
it was, whatever blanks it had and whichever of the spellings of a sign it used.

* `Token.next?_render`: a written token in front of a text is the next one.
* `Token.scan_canonical`: canonical spelling is read back.
* `Line.canonical_reads_back`: so is a line, with the tokens it had before.
-/

namespace Entailment

namespace Token

def canonical (tokens : List Token) : String := String.intercalate " " (tokens.map render)

theorem canonical_singleton (token : Token) : canonical [token] = token.render := by
  rw [canonical, List.map_singleton, String.intercalate_singleton]

theorem toList_canonical_cons (token next : Token) (others : List Token) :
    (canonical (token :: next :: others)).toList =
      token.render.toList ++ ' ' :: (canonical (next :: others)).toList := by
  simp [canonical, String.intercalate_cons_cons]

/-! ## The next token of a text -/

theorem next?_blank {c : Char} (blank : Piece.isBlank c = true) (text : List Char) :
    next? (c :: text) = next? text := by
  unfold next?
  rw [List.dropWhile_cons_of_pos blank]

/-- A token in its written form is the next one, unless the text goes on with the word that it is. -/
theorem next?_render {token : Token} {text : List Char} (lexable : token.lexable = true)
    (ends : ∀ c ∈ text.head?, Piece.isWordChar c = false) :
    next? (token.render.toList ++ text) = some (token, text) := by
  obtain ⟨piece, whole, htoken, spelled⟩ := exists_piece_of_lexable lexable
  rw [← spelled]
  exact next?_of_leads (List.forall_mem_nil _) (whole.leads htoken fun _ => ends) htoken

/-- The next token is one that its written form spells. -/
theorem lexable_of_next? {text rest : List Char} {token : Token}
    (h : next? text = some (token, rest)) : token.lexable = true := by
  obtain ⟨gap, piece, -, leads, htoken, -⟩ := exists_leads_of_next? h
  have shape : (Piece.front piece.first (piece.others ++ rest)).1.shape = .token token := by
    rw [leads, htoken]
  exact Piece.lexable_of_front shape

/-! ## Reading to the end -/

theorem scan_nil : scan [] = ([], []) := scan_of_next?_none rfl

/-- A blank in front of a text that a token can be read from makes no difference. -/
theorem scan_blank {c : Char} {text : List Char} (blank : Piece.isBlank c = true)
    (some : (scan text).1 ≠ []) : scan (c :: text) = scan text := by
  cases found : next? text with
  | none =>
    rw [scan_of_next?_none found] at some
    exact absurd rfl some
  | some first =>
    rw [scan_of_next?_some found]
    exact scan_of_next?_some ((next?_blank blank text).trans found)

theorem scan_render {token : Token} {text : List Char} (lexable : token.lexable = true)
    (ends : ∀ c ∈ text.head?, Piece.isWordChar c = false) :
    scan (token.render.toList ++ text) = (token :: (scan text).1, (scan text).2) :=
  scan_of_next?_some (next?_render lexable ends)

/-- Tokens in canonical spelling are read back, and nothing is left. -/
theorem scan_canonical {tokens : List Token} (lexable : ∀ token ∈ tokens, token.lexable = true) :
    scan (canonical tokens).toList = (tokens, []) := by
  induction tokens with
  | nil => exact scan_nil
  | cons token others ih =>
    have first : token.lexable = true := lexable token List.mem_cons_self
    have behind := ih fun other mem => lexable other (List.mem_cons_of_mem _ mem)
    cases others with
    | nil =>
      rw [canonical_singleton, ← List.append_nil token.render.toList,
        scan_render first (by rintro c ⟨⟩), scan_nil]
    | cons next rest =>
      have some : (scan (canonical (next :: rest)).toList).1 ≠ [] := by
        rw [behind]
        exact List.cons_ne_nil _ _
      rw [toList_canonical_cons, scan_render first (by rintro c ⟨⟩; rfl), scan_blank rfl some,
        behind]

end Token

/-! ## Lines in canonical spelling -/

namespace Line

open Token (Laid canonical)

theorem laid_of_ofText {text : String} {line : Line} (read : ofText text = .ok line) :
    Laid line.tokens := by
  rcases ofText_eq_ok_iff.1 read with ⟨-, rfl⟩ | ⟨-, lexemes, -, laid, rfl⟩
  · exact ⟨by rintro token ⟨⟩, .nil, Nat.zero_le 1, rfl, rfl⟩
  · exact laid

theorem lexable_of_ofText {text : String} {line : Line} (read : ofText text = .ok line) :
    ∀ token ∈ line.tokens, token.lexable = true := by
  intro token mem
  rcases ofText_eq_ok_iff.1 read with ⟨-, rfl⟩ | ⟨-, lexemes, scanned, -, rfl⟩
  · cases mem
  · obtain ⟨lexeme, found, rfl⟩ := List.mem_map.1 mem
    exact Lexeme.lexable_of_scan scanned found

/-- A text in which tokens are written that are well laid is a line of these tokens. -/
theorem exists_ofText_of_written {text : String} {tokens : List Token}
    (written : Written text.toList tokens) (laid : Laid tokens) :
    ∃ line, ofText text = .ok line ∧ line.tokens = tokens := by
  obtain ⟨lexemes, scanned, rfl⟩ := written.exists_scan
  exact ⟨⟨text, lexemes⟩, ofText_of_laid scanned laid, rfl⟩

/-- Reading undoes canonical spelling.  Tokens that their written forms spell are read back from it
one by one, and only such tokens are ever read; so every line can be spelled canonically, and it
keeps its tokens. -/
theorem canonical_reads_back :
    (∀ tokens : List Token, (∀ token ∈ tokens, token.lexable = true) →
      Token.scan (canonical tokens).toList = (tokens, [])) ∧
    (∀ text token rest, Token.next? text = some (token, rest) → token.lexable = true) ∧
    ∀ text line, ofText text = .ok line →
      (∀ token ∈ line.tokens, token.lexable = true) ∧
      ∃ again, ofText (canonical line.tokens) = .ok again ∧ again.tokens = line.tokens := by
  refine ⟨fun tokens lexable => Token.scan_canonical lexable,
    fun text token rest found => Token.lexable_of_next? found, ?_⟩
  intro text line read
  have lexable := lexable_of_ofText read
  exact ⟨lexable, exists_ofText_of_written (.intercalate lexable) (laid_of_ofText read)⟩

/-- Blanks of several kinds, none where none is needed, and signs that are printed otherwise than
they are spelled here. -/
theorem canonical_reads_back_ascii :
    let text := " argument a_1:=(!P12->\tQ)therefore R"
    let tokens : List Token := [.argument, .identifier "a_1", .assign, .leftParenthesis, .not,
      .atom "P12", .connective .conditional, .atom "Q", .rightParenthesis, .therefore, .atom "R"]
    canonical tokens = "argument a_1 := ( ¬ P12 → Q ) ∴ R" ∧
    (∀ token ∈ tokens, token.lexable = true) ∧
    Token.scan (canonical tokens).toList = (tokens, []) ∧
    ∃ line, ofText text = .ok line ∧ line.tokens = tokens ∧
      ∃ again, ofText (canonical tokens) = .ok again ∧ again.tokens = tokens := by
  intro text tokens
  obtain ⟨spelled, -, lines⟩ := canonical_reads_back
  have lexable : ∀ token ∈ tokens, token.lexable = true := by decide
  have scanned : Line.tokens <$> ofText text = .ok tokens := by decide +kernel
  cases read : ofText text with
  | error failure =>
    rw [read] at scanned
    cases scanned
  | ok line =>
    rw [read] at scanned
    have found : line.tokens = tokens := Except.ok.inj scanned
    obtain ⟨-, again⟩ := lines text line read
    rw [found] at again
    exact ⟨rfl, lexable, spelled tokens lexable, line, rfl, found, again⟩

end Line

end Entailment
