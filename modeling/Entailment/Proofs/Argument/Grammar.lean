import Entailment.Argument.Reading
import Entailment.Proofs.Formula.Grammar

/-!
# Grammar of arguments

The lists of tokens that read as an argument when nothing else is known about the line: premises
with commas anywhere between them, then possibly `∴`, a conclusion and one closing bracket.

* `Argument.readFrom_eq_ok_iff_word`: reading succeeds just on these lists.
* `Argument.run_read_eq_ok_iff`, `Argument.run_read_eq_error_iff`: what this says of a reader that
  stands anywhere in a line.
-/

namespace Entailment

namespace Argument

/-- Premises with commas in any number before, between and behind them. -/
inductive AnyPremises : List Token → List Formula → Prop where
  | nil : AnyPremises [] []
  | comma {tokens : List Token} {premises : List Formula} :
      AnyPremises tokens premises → AnyPremises (.comma :: tokens) premises
  | premise {word tokens : List Token} {formula : Formula} {premises : List Formula} :
      Formula.AnyWord word formula → AnyPremises tokens premises →
      AnyPremises (word ++ tokens) (formula :: premises)

/-- The lists of tokens that read as an argument. -/
inductive AnyWord : List Token → Argument → Prop where
  | unconcluded {tokens : List Token} {premises : List Formula} :
      AnyPremises tokens premises → AnyWord tokens ⟨premises, none⟩
  | concluded {tokens word : List Token} {premises : List Formula} {conclusion : Formula} :
      AnyPremises tokens premises → Formula.AnyWord word conclusion →
      AnyWord (tokens ++ .therefore :: word) ⟨premises, some conclusion⟩
  | closed {tokens word : List Token} {premises : List Formula} {conclusion : Formula} :
      AnyPremises tokens premises → Formula.AnyWord word conclusion →
      AnyWord (tokens ++ .therefore :: (word ++ [.rightParenthesis])) ⟨premises, some conclusion⟩

/-- The argument that goes on with the premises of another and ends in its conclusion. -/
def extend (argument more : Argument) : Argument :=
  ⟨argument.premises ++ more.premises, more.conclusion⟩

theorem extend_addPremise (argument : Argument) (premise : Formula) (premises : List Formula)
    (conclusion : Option Formula) :
    (argument.addPremise premise).extend ⟨premises, conclusion⟩ =
      argument.extend ⟨premise :: premises, conclusion⟩ := by
  simp [extend, addPremise]

theorem closeFrom_eq_ok_iff {line : String} {argument result : Argument}
    {lexemes rest : List Lexeme} :
    closeFrom line argument lexemes = (.ok result, rest) ↔
      result = argument ∧ rest = [] ∧
        (lexemes = [] ∨ lexemes.map Lexeme.token = [.rightParenthesis]) := by
  constructor
  · intro h
    unfold closeFrom at h
    split at h
    · cases h
      exact ⟨rfl, rfl, .inl rfl⟩
    · next head _ =>
      split at h
      · next closing =>
        split at h
        · cases h
          exact ⟨rfl, rfl, .inr (congrArg (fun token => [token]) closing)⟩
        · cases h
      · cases h
  · rintro ⟨rfl, rfl, rfl | closing⟩
    · rfl
    · obtain ⟨head, rfl, hclosing⟩ := List.map_eq_singleton_iff.1 closing
      rw [closeFrom, if_pos hclosing]

/-! ## Each word of the grammar is read -/

theorem readFrom_of_take {line : String} {lexemes rest : List Lexeme} {premise : Formula}
    (h : Formula.take line lexemes = (.ok premise, rest)) (argument : Argument) :
    readFrom line argument lexemes = readFrom line (argument.addPremise premise) rest := by
  cases lexemes with
  | nil =>
    rw [Formula.take_nil] at h
    cases h
  | cons head tail =>
    rw [readFrom_cons]
    split
    -- no formula opens with a comma, with `∴` or with a closing bracket
    · next hcomma => rw [Formula.take_cons, hcomma] at h; cases h
    · next htherefore => rw [Formula.take_cons, htherefore] at h; cases h
    · next hclosing => rw [Formula.take_cons, hclosing] at h; cases h
    · rw [h]

theorem readFrom_of_premises {line : String} {tokens : List Token} {premises : List Formula}
    (h : AnyPremises tokens premises) {lexemes : List Lexeme}
    (spelled : lexemes.map Lexeme.token = tokens) (argument : Argument) (rest : List Lexeme) :
    readFrom line argument (lexemes ++ rest) =
      readFrom line { argument with premises := argument.premises ++ premises } rest := by
  induction h generalizing lexemes argument with
  | nil =>
    rw [List.map_eq_nil_iff.1 spelled, List.nil_append, List.append_nil]
  | comma _ ih =>
    obtain ⟨head, tail, rfl, hcomma, same⟩ := List.map_eq_cons_iff.1 spelled
    rw [List.cons_append, readFrom_cons, hcomma]
    exact ih same argument
  | premise spelling _ ih =>
    obtain ⟨word, tail, rfl, hword, same⟩ := List.map_eq_append_iff.1 spelled
    rw [List.append_assoc, readFrom_of_take (Formula.take_of_word spelling hword _), ih same]
    simp only [addPremise, List.append_assoc, List.singleton_append]

theorem readFrom_of_therefore {line : String} {lexemes rest : List Lexeme} {therefore : Lexeme}
    {word : List Token} {conclusion : Formula} (h : Formula.AnyWord word conclusion)
    (htherefore : therefore.token = .therefore) (spelled : lexemes.map Lexeme.token = word)
    (argument : Argument) :
    readFrom line argument (therefore :: (lexemes ++ rest)) =
      closeFrom line (argument.conclude conclusion) rest := by
  rw [readFrom_cons, htherefore]
  dsimp only
  rw [Formula.take_of_word h spelled]

theorem readFrom_of_word {line : String} {tokens : List Token} {more : Argument}
    (h : AnyWord tokens more) {lexemes : List Lexeme} (spelled : lexemes.map Lexeme.token = tokens)
    {argument : Argument} (unconcluded : argument.conclusion = none) :
    readFrom line argument lexemes = (.ok (argument.extend more), []) := by
  cases h with
  | unconcluded hpremises =>
    rw [← List.append_nil lexemes, readFrom_of_premises hpremises spelled, readFrom_nil, extend,
      unconcluded]
  | concluded hpremises hword =>
    obtain ⟨first, tail, rfl, hfirst, same⟩ := List.map_eq_append_iff.1 spelled
    obtain ⟨therefore, word, rfl, htherefore, same⟩ := List.map_eq_cons_iff.1 same
    rw [readFrom_of_premises hpremises hfirst, ← List.append_nil word,
      readFrom_of_therefore hword htherefore same]
    exact closeFrom_eq_ok_iff.2 ⟨rfl, rfl, .inl rfl⟩
  | closed hpremises hword =>
    obtain ⟨first, tail, rfl, hfirst, same⟩ := List.map_eq_append_iff.1 spelled
    obtain ⟨therefore, tail, rfl, htherefore, same⟩ := List.map_eq_cons_iff.1 same
    obtain ⟨word, closing, rfl, same, hclosing⟩ := List.map_eq_append_iff.1 same
    rw [readFrom_of_premises hpremises hfirst, readFrom_of_therefore hword htherefore same]
    exact closeFrom_eq_ok_iff.2 ⟨rfl, rfl, .inr hclosing⟩

/-! ## What was read is a word of the grammar -/

theorem AnyWord.comma {tokens : List Token} {argument : Argument} (h : AnyWord tokens argument) :
    AnyWord (.comma :: tokens) argument := by
  cases h with
  | unconcluded hpremises => exact .unconcluded hpremises.comma
  | concluded hpremises hword => exact .concluded hpremises.comma hword
  | closed hpremises hword => exact .closed hpremises.comma hword

theorem AnyWord.premise {word tokens : List Token} {formula : Formula} {argument : Argument}
    (hformula : Formula.AnyWord word formula) (h : AnyWord tokens argument) :
    AnyWord (word ++ tokens) ⟨formula :: argument.premises, argument.conclusion⟩ := by
  cases h with
  | unconcluded hpremises => exact .unconcluded (.premise hformula hpremises)
  | concluded hpremises hword =>
    rw [← List.append_assoc]
    exact .concluded (.premise hformula hpremises) hword
  | closed hpremises hword =>
    rw [← List.append_assoc]
    exact .closed (.premise hformula hpremises) hword

theorem exists_word_of_readFrom {line : String} {argument result : Argument}
    {lexemes rest : List Lexeme} (h : readFrom line argument lexemes = (.ok result, rest))
    (unconcluded : argument.conclusion = none) :
    rest = [] ∧ ∃ more, AnyWord (lexemes.map Lexeme.token) more ∧ result = argument.extend more := by
  fun_induction readFrom line argument lexemes generalizing result rest with
  | case1 argument =>
    cases h
    refine ⟨rfl, ⟨[], none⟩, .unconcluded .nil, ?_⟩
    rw [extend, List.append_nil, ← unconcluded]
  | case2 argument head tail hcomma ih =>
    obtain ⟨finished, more, hmore, same⟩ := ih h unconcluded
    refine ⟨finished, more, ?_, same⟩
    rw [List.map_cons, hcomma]
    exact hmore.comma
  | case3 => cases h
  | case4 argument head tail htherefore conclusion behind shorter found =>
    obtain ⟨word, rfl, hword⟩ :=
      Formula.exists_word_of_take (Formula.take_eq_ok_iff.2 ⟨shorter, found⟩)
    obtain ⟨same, finished, closing⟩ := closeFrom_eq_ok_iff.1 h
    refine ⟨finished, ⟨[], some conclusion⟩, ?_, ?_⟩
    · rw [List.map_cons, htherefore, List.map_append]
      rcases closing with rfl | closing
      · rw [List.map_nil, List.append_nil]
        exact .concluded .nil hword
      · rw [closing]
        exact .closed .nil hword
    · rw [same, extend, List.append_nil]
      rfl
  | case5 => cases h
  | case6 => cases h
  | case7 argument head tail premise behind shorter found _ _ _ ih =>
    obtain ⟨word, hword, spelled⟩ :=
      Formula.exists_word_of_take (Formula.take_eq_ok_iff.2 ⟨shorter, found⟩)
    obtain ⟨finished, more, hmore, same⟩ := ih h unconcluded
    refine ⟨finished, ⟨premise :: more.premises, more.conclusion⟩, ?_, ?_⟩
    · rw [hword, List.map_append]
      exact hmore.premise spelled
    · rw [same]
      exact extend_addPremise ..

/-- Reading an argument succeeds just on the words of the grammar, to the end of the line. -/
theorem readFrom_eq_ok_iff_word {line : String} {result : Argument} {lexemes rest : List Lexeme} :
    readFrom line {} lexemes = (.ok result, rest) ↔
      rest = [] ∧ AnyWord (lexemes.map Lexeme.token) result := by
  constructor
  · intro h
    obtain ⟨finished, more, hmore, same⟩ := exists_word_of_readFrom h rfl
    refine ⟨finished, ?_⟩
    rw [same]
    exact hmore
  · rintro ⟨rfl, h⟩
    exact readFrom_of_word h rfl rfl

/-- Commas may be doubled, and a bracket behind the conclusion closes nothing. -/
example : AnyWord [.atom "P", .comma, .comma, .atom "Q", .therefore, .atom "R", .rightParenthesis]
    ⟨[.atom "P", .atom "Q"], some (.atom "R")⟩ :=
  .closed (.premise (.atom "P") (.comma (.comma (.premise (.atom "Q") .nil)))) (.atom "R")

/-! ## Reading the rest of a line -/

theorem run_read_eq_ok_iff {line : String} {pending : List Lexeme} {argument : Argument}
    {behind : Reader} :
    read.run ⟨line, pending⟩ = (.ok argument, behind) ↔
      AnyWord (pending.map Lexeme.token) argument ∧ behind = ⟨line, []⟩ := by
  rw [read, Read.run_ofStep]
  constructor
  · intro h
    obtain ⟨result, rfl⟩ := Prod.mk.inj h
    obtain ⟨finished, spelled⟩ := readFrom_eq_ok_iff_word.1 (Prod.ext result rfl)
    exact ⟨spelled, congrArg (Reader.mk line) finished⟩
  · rintro ⟨spelled, rfl⟩
    rw [readFrom_eq_ok_iff_word.2 ⟨rfl, spelled⟩]

theorem run_read_eq_error_iff {line : String} {pending : List Lexeme} :
    (∃ failure behind, read.run ⟨line, pending⟩ = (.error failure, behind)) ↔
      ∀ argument, ¬ AnyWord (pending.map Lexeme.token) argument := by
  constructor
  · rintro ⟨failure, behind, refused⟩ argument spelled
    rw [run_read_eq_ok_iff.2 ⟨spelled, rfl⟩] at refused
    cases refused
  · intro wordless
    rcases result : read.run ⟨line, pending⟩ with ⟨failure | argument, behind⟩
    · exact ⟨failure, behind, rfl⟩
    · exact absurd (run_read_eq_ok_iff.1 result).1 (wordless argument)

end Argument

end Entailment
