import Entailment.Proofs.Argument.RoundTrip
import Entailment.Proofs.Line.Scanned

/-!
# Statements that can be written

A statement that was read from a text has atoms, identifiers and texts of the form that tokens have,
and if it declares an argument, the argument has a premise.  Every statement of this kind can be
written as a line that is read as the statement again.

* `Line.writable_of_statement?`: what is read can be written.
* `Statement.exists_line_render`: what can be written is read back.
-/

namespace Entailment

open Token (isAtomName isIdentifier)

theorem Token.lexable_text_iff {content : String} :
    (text content).lexable = true ↔ '"' ∉ content.toList := by
  simp [lexable]

/-! ## What is read can be written -/

namespace Formula

theorem Word.mem_of_occurs {joins : List Token → Token → Prop} {word : List Token}
    {formula : Formula} (h : Word joins word formula) {name : String}
    (occurs : name ∈ formula.occurrences) : .atom name ∈ word := by
  induction h with
  | atom other =>
    obtain rfl := List.mem_singleton.1 occurs
    exact List.mem_singleton_self _
  | negation _ ih => exact List.mem_cons_of_mem _ (ih occurs)
  | binary _ _ _ ihl ihr =>
    apply List.mem_cons_of_mem
    rcases List.mem_append.1 occurs with left | right
    · exact List.mem_append_left _ (ihl left)
    · exact List.mem_append_right _ (List.mem_cons_of_mem _ (List.mem_append_left _ (ihr right)))

theorem ListWord.mem_of_occurs {tokens : List Token} {formulas : List Formula}
    (h : ListWord tokens formulas) {formula : Formula} (mem : formula ∈ formulas) {name : String}
    (occurs : name ∈ formula.occurrences) : .atom name ∈ tokens := by
  induction h with
  | one hword =>
    obtain rfl := List.mem_singleton.1 mem
    exact hword.mem_of_occurs occurs
  | more hword _ ih =>
    rcases List.mem_cons.1 mem with rfl | mem
    · exact List.mem_append_left _ (hword.mem_of_occurs occurs)
    · exact List.mem_append_right _ (List.mem_cons_of_mem _ (ih mem))

theorem ListWord.ne_nil {tokens : List Token} {formulas : List Formula}
    (h : ListWord tokens formulas) : formulas ≠ [] := by
  cases h with
  | one _ => exact List.cons_ne_nil _ _
  | more _ _ => exact List.cons_ne_nil _ _

end Formula

namespace Argument

/-- What an argument has to have to be written in a line: a premise, and atoms that are spelled as
atoms are in a line. -/
structure Writable (argument : Argument) : Prop where
  premises : argument.premises ≠ []
  formulas : ∀ formula ∈ argument.formulas, formula.Writable

theorem LineWord.mem_of_occurs {tokens : List Token} {argument : Argument}
    (h : LineWord tokens argument) {formula : Formula} (mem : formula ∈ argument.formulas)
    {name : String} (occurs : name ∈ formula.occurrences) : .atom name ∈ tokens := by
  cases h with
  | unconcluded hpremises =>
    rw [formulas, Option.toList_none, List.append_nil] at mem
    exact hpremises.mem_of_occurs mem occurs
  | concluded hpremises hword =>
    rcases List.mem_append.1 mem with mem | mem
    · exact List.mem_append_left _ (hpremises.mem_of_occurs mem occurs)
    · obtain rfl := List.mem_singleton.1 mem
      exact List.mem_append_right _ (List.mem_cons_of_mem _ (hword.mem_of_occurs occurs))

theorem LineWord.premises_ne_nil {tokens : List Token} {argument : Argument}
    (h : LineWord tokens argument) : argument.premises ≠ [] := by
  cases h with
  | unconcluded hpremises => exact hpremises.ne_nil
  | concluded hpremises _ => exact hpremises.ne_nil

theorem LineWord.writable {tokens : List Token} {argument : Argument} (h : LineWord tokens argument)
    (lexable : ∀ token ∈ tokens, token.lexable = true) : argument.Writable where
  premises := h.premises_ne_nil
  formulas _ mem _ occurs := lexable _ (h.mem_of_occurs mem occurs)

end Argument

namespace Statement

/-- What the names and texts of a statement have to be, so that it can be written in a line. -/
def Writable : Statement → Prop
  | assign name _ => isAtomName name = true
  | describe name text => isAtomName name = true ∧ '"' ∉ text.toList
  | declare id argument => isIdentifier id = true ∧ argument.Writable
  | ask _ id => isIdentifier id = true
  | print text => '"' ∉ text.toList

theorem Word.writable {tokens : List Token} {statement : Statement} (h : LineWord tokens statement)
    (lexable : ∀ token ∈ tokens, token.lexable = true) : statement.Writable := by
  cases h with
  | blank => exact List.not_mem_nil
  | print content => exact Token.lexable_text_iff.1 (lexable (.text content) (by simp))
  | assign name value => exact lexable (.atom name) (by simp)
  | describe name content =>
    exact ⟨lexable (.atom name) (by simp), Token.lexable_text_iff.1 (lexable (.text content) (by simp))⟩
  | ask query id => exact lexable (.identifier id) (by simp)
  | declare id hargument =>
    refine ⟨lexable (.identifier id) (by simp), hargument.writable fun token mem => ?_⟩
    exact lexable token (by simp [mem])

end Statement

/-- The statement of a line that was read from a text can be written. -/
theorem Line.writable_of_statement? {text : String} {line : Line} {statement : Statement}
    (read : Line.ofText text = .ok line) (h : line.statement? = .ok (some statement)) :
    statement.Writable := by
  have spelled := Line.statement?_eq_some_iff_word.1 h
  rcases Line.ofText_eq_ok_iff.1 read with ⟨-, rfl⟩ | ⟨-, lexemes, scanned, laid, rfl⟩
  · cases spelled
  · apply (Statement.lineWord_of_laid laid spelled).writable
    intro token mem
    obtain ⟨lexeme, found, rfl⟩ := List.mem_map.1 mem
    exact Lexeme.lexable_of_scan scanned found

/-! ## What can be written is read back -/

namespace Statement

def render : Statement → String
  | assign name value => name ++ " := " ++ toString value
  | describe name text => name ++ " is \"" ++ text ++ "\""
  | declare id argument => "argument " ++ id ++ " := " ++ argument.render
  | ask query id => query.keyword ++ " " ++ id
  | print text => "print \"" ++ text ++ "\""

def tokens : Statement → List Token
  | assign name value => [.atom name, .assign, .truth value]
  | describe name text => [.atom name, .is, .text text]
  | declare id argument => .argument :: .identifier id :: .assign :: argument.tokens
  | ask query id => [.query query, .identifier id]
  | print text => [.print, .text text]

theorem lineWord_tokens {statement : Statement} (writable : statement.Writable) :
    LineWord statement.tokens statement := by
  cases statement with
  | assign name value => exact .assign name value
  | describe name text => exact .describe name text
  | declare id argument => exact .declare id (Argument.lineWord_tokens writable.2.premises)
  | ask query id => exact .ask query id
  | print text => exact .print text

theorem count_tokens_le (statement : Statement) : statement.tokens.count .therefore ≤ 1 := by
  cases statement with
  | declare id argument => exact argument.count_tokens_le
  | _ => exact Nat.zero_le 1

theorem written_render {statement : Statement} (writable : statement.Writable) :
    Written statement.render.toList statement.tokens := by
  cases statement with
  | declare id argument => exact Argument.written_declaration writable.2.formulas writable.1
  | _ =>
    -- the tokens stand with one blank between each two of them
    refine .of_spaced ?_ ?_
    · simp [render, tokens, Token.render, String.intercalate_cons_cons]
    · simpa [tokens, Token.lexable, Writable] using writable

/-- A statement that can be written is read back from its written form. -/
theorem exists_line_render {statement : Statement} (writable : statement.Writable) :
    ∃ line, Line.ofText statement.render = .ok line ∧
      line.statement? = .ok (some statement) := by
  obtain ⟨lexemes, scanned, listed⟩ := (written_render writable).exists_scan
  have word : LineWord (lexemes.map Lexeme.token) statement := by
    rw [listed]
    exact lineWord_tokens writable
  have concludes : (lexemes.map Lexeme.token).count .therefore ≤ 1 := by
    rw [listed]
    exact statement.count_tokens_le
  exact ⟨⟨_, lexemes⟩, Line.ofText_of_lineWord scanned word concludes⟩

end Statement

end Entailment
