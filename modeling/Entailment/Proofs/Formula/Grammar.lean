import Mathlib.Data.List.Chain
import Entailment.Formula.Reading

/-!
# Grammar of formulas

The words, as lists of tokens, that spell a formula: an atom, `¬` before a word, or two words in
brackets with a token between them.  Which tokens may stand there is a parameter, since a reader of
bare tokens takes any of them while the layout of a line lets few of them through.

* `Formula.take_eq_ok_iff_word`: what is read off the front of a line is a word of the grammar, and
  each word is read whatever stands behind it.
* `Formula.optional_reads_words`: where a formula may be missing, nothing is read at a boundary,
  one word where there is one, and anything else is refused.
-/

namespace Entailment

namespace Token

/-- The tokens that a formula can open with. -/
def Opens (token : Token) : Prop :=
  (∃ name, token = atom name) ∨ token = leftParenthesis ∨ token = not

/-- The tokens that a formula can close with. -/
def Closes (token : Token) : Prop := (∃ name, token = atom name) ∨ token = rightParenthesis

theorem endsFormula_eq_true_iff {token : Token} :
    token.endsFormula = true ↔ token = comma ∨ token = rightParenthesis ∨ token = therefore := by
  cases token <;> simp [endsFormula]

end Token

namespace Formula

/-- The words that spell a formula.  `joins left operator` says that the token `operator` may stand
behind the word `left`, between it and the word of the second formula. -/
inductive Word (joins : List Token → Token → Prop) : List Token → Formula → Prop where
  | atom (name : String) : Word joins [.atom name] (.atom name)
  | negation {word : List Token} {body : Formula} :
      Word joins word body → Word joins (.not :: word) (.negation body)
  | binary {first second : List Token} {operator : Token} {left right : Formula} :
      Word joins first left → joins first operator → Word joins second right →
      Word joins (.leftParenthesis :: (first ++ operator :: (second ++ [.rightParenthesis])))
        (.binary operator.asConnective left right)

/-- The words in which any token may stand between two formulas. -/
abbrev AnyWord : List Token → Formula → Prop := Word fun _ _ => True

theorem Word.mono {joins joins' : List Token → Token → Prop} {word : List Token}
    {formula : Formula} (h : Word joins word formula)
    (le : ∀ left operator, joins left operator → joins' left operator) :
    Word joins' word formula := by
  induction h with
  | atom name => exact .atom name
  | negation _ ih => exact .negation ih
  | binary _ joined _ ihl ihr => exact .binary ihl (le _ _ joined) ihr

theorem Word.opens {joins : List Token → Token → Prop} {word : List Token} {formula : Formula}
    (h : Word joins word formula) : ∃ first others, word = first :: others ∧ first.Opens := by
  cases h with
  | atom name => exact ⟨_, _, rfl, .inl ⟨name, rfl⟩⟩
  | negation _ => exact ⟨_, _, rfl, .inr (.inr rfl)⟩
  | binary _ _ _ => exact ⟨_, _, rfl, .inr (.inl rfl)⟩

theorem Word.closes {joins : List Token → Token → Prop} {word : List Token} {formula : Formula}
    (h : Word joins word formula) : ∃ last, word.getLast? = some last ∧ last.Closes := by
  induction h with
  | atom name => exact ⟨_, rfl, .inl ⟨name, rfl⟩⟩
  | negation _ ih =>
    obtain ⟨last, hlast, closes⟩ := ih
    refine ⟨last, ?_, closes⟩
    rw [List.getLast?_cons, hlast]
    rfl
  | binary _ _ _ _ _ =>
    refine ⟨.rightParenthesis, ?_, .inr rfl⟩
    rw [← List.cons_append, ← List.cons_append, ← List.append_assoc, List.getLast?_concat]

/-! ## Reading and the grammar -/

/-- A word is read off the front of a line, whatever stands behind it. -/
theorem take_of_word {line : String} {joins : List Token → Token → Prop} {word : List Token}
    {formula : Formula} (h : Word joins word formula) {lexemes : List Lexeme}
    (spelled : lexemes.map Lexeme.token = word) (rest : List Lexeme) :
    take line (lexemes ++ rest) = (.ok formula, rest) := by
  induction h generalizing lexemes rest with
  | atom name =>
    obtain ⟨head, rfl, h⟩ := List.map_eq_singleton_iff.1 spelled
    rw [List.singleton_append, take_cons, h]
  | negation _ ih =>
    obtain ⟨head, tail, rfl, h, same⟩ := List.map_eq_cons_iff.1 spelled
    rw [List.cons_append, take_cons, h]
    dsimp only
    rw [ih same]
  | binary _ _ _ ihl ihr =>
    obtain ⟨head, tail, rfl, h, same⟩ := List.map_eq_cons_iff.1 spelled
    obtain ⟨first, tail, rfl, hfirst, same⟩ := List.map_eq_append_iff.1 same
    obtain ⟨operator, tail, rfl, hop, same⟩ := List.map_eq_cons_iff.1 same
    obtain ⟨second, tail, rfl, hsecond, same⟩ := List.map_eq_append_iff.1 same
    obtain ⟨closing, rfl, hclosing⟩ := List.map_eq_singleton_iff.1 same
    rw [List.cons_append, take_cons, h]
    simp only [List.append_assoc, List.cons_append, List.nil_append]
    rw [ihl hfirst]
    dsimp only
    rw [ihr hsecond]
    dsimp only
    rw [if_pos hclosing, hop]

/-- What was read off the front of a line is a word. -/
theorem exists_word_of_take {line : String} {lexemes rest : List Lexeme} {formula : Formula}
    (h : take line lexemes = (.ok formula, rest)) :
    ∃ word, lexemes = word ++ rest ∧ AnyWord (word.map Lexeme.token) formula := by
  -- on the number of lexemes: the operand behind an operator is not a tail of the pattern
  induction size : lexemes.length using Nat.strong_induction_on
    generalizing lexemes rest formula with
  | _ size ih =>
    subst size
    cases lexemes with
    | nil =>
      rw [take_nil] at h
      cases h
    | cons head tail =>
      rw [take_cons] at h
      split at h
      · next name hname =>
        cases h
        refine ⟨[head], rfl, ?_⟩
        rw [List.map_singleton, hname]
        exact .atom name
      · next hnot =>
        split at h
        · cases h
        · next body behind found =>
          cases h
          obtain ⟨word, rfl, spelled⟩ := ih _ (Nat.lt_succ_self _) found rfl
          refine ⟨head :: word, rfl, ?_⟩
          rw [List.map_cons, hnot]
          exact .negation spelled
      · next hopen =>
        split at h
        · cases h
        · cases h
        · next left operator behind found =>
          obtain ⟨first, rfl, hfirst⟩ := ih _ (Nat.lt_succ_self _) found rfl
          split at h
          · cases h
          · cases h
          · next right closing last found' =>
            obtain ⟨second, rfl, hsecond⟩ := ih _ (by simp; omega) found' rfl
            split at h
            · next hclosing =>
              cases h
              refine ⟨head :: (first ++ operator :: (second ++ [closing])), by simp, ?_⟩
              simp only [List.map_cons, List.map_append, List.map_nil, hopen, hclosing]
              exact .binary hfirst trivial hsecond
            · cases h
      · cases h

/-- Reading a formula takes a word off the front of the line. -/
theorem take_eq_ok_iff_word {line : String} {lexemes rest : List Lexeme} {formula : Formula} :
    take line lexemes = (.ok formula, rest) ↔
      ∃ word, lexemes = word ++ rest ∧ AnyWord (word.map Lexeme.token) formula := by
  constructor
  · exact exists_word_of_take
  · rintro ⟨word, rfl, spelled⟩
    exact take_of_word spelled rfl rest

/-- A line begins with one word at most, and the word has one reading. -/
theorem word_unique {first second rest rest' : List Lexeme} {formula formula' : Formula}
    (same : first ++ rest = second ++ rest') (h : AnyWord (first.map Lexeme.token) formula)
    (h' : AnyWord (second.map Lexeme.token) formula') : first = second ∧ formula = formula' := by
  have read : take "" (first ++ rest) = (.ok formula, rest) := take_of_word h rfl rest
  have read' : take "" (second ++ rest') = (.ok formula', rest') := take_of_word h' rfl rest'
  rw [same, read', Prod.mk.injEq, Except.ok.injEq] at read
  obtain ⟨rfl, rfl⟩ := read
  exact ⟨List.append_cancel_right same, rfl⟩

/-! ## A formula or a boundary -/

/-- Nothing is left, or the next token is a comma, a closing bracket or `∴`. -/
def AtBoundary (pending : List Lexeme) : Prop :=
  ∀ head ∈ pending.head?,
    head.token = .comma ∨ head.token = .rightParenthesis ∨ head.token = .therefore

section

variable {line : String} {pending : List Lexeme}

theorem run_optional_of_boundary (h : AtBoundary pending) :
    optional.run ⟨line, pending⟩ = (.ok none, ⟨line, pending⟩) := by
  cases pending with
  | nil => rfl
  | cons head rest =>
    have ends := Token.endsFormula_eq_true_iff.2 (h head rfl)
    simp only [optional, Read.run_bind, Read.run_peek, List.head?_cons, if_pos ends, Read.run_pure]

theorem run_optional_of_not_boundary (h : ¬ AtBoundary pending) :
    optional.run ⟨line, pending⟩ =
      ((take line pending).1.map some, ⟨line, (take line pending).2⟩) := by
  cases pending with
  | nil => exact absurd nofun h
  | cons head rest =>
    have goesOn : ¬ head.token.endsFormula = true := by
      intro ends
      apply h
      rintro _ ⟨⟩
      exact Token.endsFormula_eq_true_iff.1 ends
    simp only [optional, Read.run_bind, Read.run_peek, List.head?_cons, if_neg goesOn, required,
      Read.run_ofStep]
    cases (take line (head :: rest)).1 <;> rfl

theorem not_atBoundary_of_word {word rest : List Lexeme} {formula : Formula}
    (h : AnyWord (word.map Lexeme.token) formula) : ¬ AtBoundary (word ++ rest) := by
  intro boundary
  obtain ⟨first, others, spelled, opens⟩ := h.opens
  obtain ⟨head, tail, rfl, rfl, -⟩ := List.map_eq_cons_iff.1 spelled
  have ends := boundary head rfl
  rcases opens with ⟨name, opens⟩ | opens | opens <;> rw [opens] at ends <;> simp at ends

theorem run_optional_eq_none_iff {behind : Reader} :
    optional.run ⟨line, pending⟩ = (.ok none, behind) ↔
      AtBoundary pending ∧ behind = ⟨line, pending⟩ := by
  constructor
  · intro h
    by_cases boundary : AtBoundary pending
    · rw [run_optional_of_boundary boundary] at h
      cases h
      exact ⟨boundary, rfl⟩
    · rw [run_optional_of_not_boundary boundary, Prod.mk.injEq] at h
      revert h
      cases (take line pending).1 <;> simp [Except.map]
  · rintro ⟨boundary, rfl⟩
    exact run_optional_of_boundary boundary

theorem run_optional_eq_some_iff {formula : Formula} {behind : Reader} :
    optional.run ⟨line, pending⟩ = (.ok (some formula), behind) ↔
      ∃ word rest, pending = word ++ rest ∧ AnyWord (word.map Lexeme.token) formula ∧
        behind = ⟨line, rest⟩ := by
  constructor
  · intro h
    by_cases boundary : AtBoundary pending
    · rw [run_optional_of_boundary boundary] at h
      cases h
    · rw [run_optional_of_not_boundary boundary] at h
      rcases read : take line pending with ⟨failure | value, rest⟩
      · rw [read] at h
        cases h
      · rw [read] at h
        cases h
        obtain ⟨word, spelled, reads⟩ := take_eq_ok_iff_word.1 read
        exact ⟨word, rest, spelled, reads, rfl⟩
  · rintro ⟨word, rest, rfl, reads, rfl⟩
    have read : take line (word ++ rest) = (.ok formula, rest) := take_of_word reads rfl rest
    rw [run_optional_of_not_boundary (not_atBoundary_of_word reads), read]
    rfl

/-- Where a formula may be missing, nothing is read just at a boundary, and nothing is moved there.
A formula is read just where a word of one begins; the word and its reading are unique, the reader
is moved behind it, and what stands there does not matter.  In all other cases reading fails. -/
theorem optional_reads_words (line : String) (pending : List Lexeme) :
    (∀ behind, optional.run ⟨line, pending⟩ = (.ok none, behind) ↔
      AtBoundary pending ∧ behind = ⟨line, pending⟩) ∧
    (∀ formula behind, optional.run ⟨line, pending⟩ = (.ok (some formula), behind) ↔
      ∃ word rest, pending = word ++ rest ∧ AnyWord (word.map Lexeme.token) formula ∧
        behind = ⟨line, rest⟩) ∧
    (∀ word rest formula, pending = word ++ rest → AnyWord (word.map Lexeme.token) formula →
      (∀ word' rest' formula', pending = word' ++ rest' →
        AnyWord (word'.map Lexeme.token) formula' → word' = word ∧ formula' = formula) ∧
      ∀ others, optional.run ⟨line, word ++ others⟩ = (.ok (some formula), ⟨line, others⟩)) ∧
    (¬ AtBoundary pending →
      (∀ word rest formula, pending = word ++ rest → ¬ AnyWord (word.map Lexeme.token) formula) →
      ∃ failure behind, optional.run ⟨line, pending⟩ = (.error failure, behind)) := by
  refine ⟨fun behind => run_optional_eq_none_iff, fun formula behind => run_optional_eq_some_iff,
    fun word rest formula spelled reads => ⟨?_, ?_⟩, fun unbounded wordless => ?_⟩
  · intro word' rest' formula' spelled' reads'
    exact word_unique (spelled'.symm.trans spelled) reads' reads
  · intro others
    exact run_optional_eq_some_iff.2 ⟨word, others, rfl, reads, rfl⟩
  · rcases result : optional.run ⟨line, pending⟩ with ⟨failure | _ | formula, behind⟩
    · exact ⟨failure, behind, rfl⟩
    · exact absurd (run_optional_eq_none_iff.1 result).1 unbounded
    · obtain ⟨word, rest, spelled, reads, -⟩ := run_optional_eq_some_iff.1 result
      exact absurd reads (wordless word rest formula spelled)

/-- A bracket may stand between two formulas, and reads as a conditional. -/
example : AnyWord [.leftParenthesis, .atom "P", .rightParenthesis, .atom "Q", .rightParenthesis]
    (.binary .conditional (.atom "P") (.atom "Q")) :=
  .binary (.atom "P") trivial (.atom "Q")

end

end Formula

end Entailment
