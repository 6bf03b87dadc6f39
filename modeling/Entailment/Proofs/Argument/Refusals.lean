import Entailment.Proofs.Argument.Grammar
import Entailment.Proofs.Formula.Begun

/-!
# Arguments that stop short

Reading an argument fails at a lexeme, or because the tokens stop within a formula or behind `∴`.
Where every bracket is closed and the last token announces nothing, only one of these is left: a
bracket around one formula comes last.  Its closing bracket is taken for the token between two
formulas, and the second one is missing.

* `Argument.stops_of_readFrom`: where reading fails.
* `Argument.Unfinished.exists_bare`: how the tokens of a line can stop short.
-/

namespace Entailment

open Token (Follows depthBehind)

namespace Argument

open Formula (Awaited Begun Dangling Bare)

/-- The tokens of an argument that stop in front of what is awaited. -/
inductive Unfinished : Awaited → List Token → Prop where
  | opened {awaited : Awaited} {begun tokens : List Token} :
      Begun awaited begun → begun ≠ [] → begun <:+ tokens → Unfinished awaited tokens
  | therefore {tokens : List Token} : [.therefore] <:+ tokens → Unfinished .formula tokens

/-- What can keep lexemes from being read as an argument. -/
inductive Stops (line : String) (lexemes : List Lexeme) : Failure → Prop where
  | lexeme {lexeme : Lexeme} : lexeme ∈ lexemes → Stops line lexemes (lexeme.unexpected line)
  | short {awaited : Awaited} :
      Unfinished awaited (lexemes.map Lexeme.token) → Stops line lexemes (awaited.failure line)

/-! ## Where reading fails -/

section

variable {line : String} {argument : Argument} {lexemes rest : List Lexeme} {failure : Failure}

theorem Unfinished.of_suffix {awaited : Awaited} {tokens whole : List Token}
    (h : Unfinished awaited tokens) (suffix : tokens <:+ whole) : Unfinished awaited whole := by
  cases h with
  | opened begun present ends => exact .opened begun present (ends.trans suffix)
  | therefore ends => exact .therefore (ends.trans suffix)

theorem Stops.of_suffix {whole : List Lexeme} (h : Stops line lexemes failure)
    (suffix : lexemes <:+ whole) : Stops line whole failure := by
  cases h with
  | lexeme mem => exact .lexeme (suffix.subset mem)
  | short unfinished => exact .short (unfinished.of_suffix (suffix.map Lexeme.token))

/-- What stops a formula that has lexemes stops the argument that it opens. -/
theorem stops_of_formula (h : Formula.Stops line lexemes failure rest) (present : lexemes ≠ []) :
    Stops line lexemes failure := by
  cases h with
  | lexeme _ _ _ => exact .lexeme (List.mem_append_right _ List.mem_cons_self)
  | short begun same =>
    subst same
    have present : lexemes.map Lexeme.token ≠ [] := fun none =>
      present (List.map_eq_nil_iff.1 none)
    exact .short (.opened begun present (List.suffix_refl _))

/-- What stops the conclusion stops the argument. -/
theorem stops_of_conclusion {therefore : Lexeme} (htherefore : therefore.token = .therefore)
    (h : Formula.Stops line lexemes failure rest) : Stops line (therefore :: lexemes) failure := by
  cases h with
  | lexeme _ _ _ =>
    exact .lexeme (List.mem_cons_of_mem _ (List.mem_append_right _ List.mem_cons_self))
  | short begun same =>
    subst same
    apply Stops.short
    rw [List.map_cons, htherefore]
    -- with nothing begun it is `∴` that the tokens end with
    rcases begun.opens with ⟨rfl, none⟩ | ⟨first, others, spelled, -⟩
    · rw [none]
      exact .therefore (List.suffix_refl _)
    · rw [spelled] at begun ⊢
      exact .opened begun (List.cons_ne_nil _ _) (List.suffix_cons _ _)

theorem stops_of_closeFrom (h : closeFrom line argument lexemes = (.error failure, rest)) :
    Stops line lexemes failure := by
  unfold closeFrom at h
  split at h
  · cases h
  · next head tail =>
    split at h
    · split at h
      · cases h
      · cases h
        exact .lexeme (List.mem_cons_of_mem _ List.mem_cons_self)
    · cases h
      exact .lexeme List.mem_cons_self

/-- Reading an argument fails at a lexeme, or the tokens stop within a formula or behind `∴`. -/
theorem stops_of_readFrom (h : readFrom line argument lexemes = (.error failure, rest)) :
    Stops line lexemes failure := by
  fun_induction readFrom line argument lexemes generalizing rest with
  | case1 => cases h
  | case2 argument head tail hcomma ih => exact (ih h).of_suffix (List.suffix_cons _ _)
  | case3 argument head tail htherefore stuck left found =>
    cases h
    exact stops_of_conclusion htherefore (Formula.stops_of_stuck found)
  | case4 argument head tail htherefore conclusion behind shorter found =>
    obtain ⟨word, rfl, -⟩ :=
      Formula.exists_word_of_take (Formula.take_eq_ok_iff.2 ⟨shorter, found⟩)
    exact (stops_of_closeFrom h).of_suffix ⟨head :: word, rfl⟩
  | case5 =>
    cases h
    exact .lexeme List.mem_cons_self
  | case6 argument head tail stuck left found =>
    cases h
    exact stops_of_formula (Formula.stops_of_stuck found) (List.cons_ne_nil _ _)
  | case7 argument head tail premise behind shorter found _ _ _ ih =>
    obtain ⟨word, spelled, -⟩ :=
      Formula.exists_word_of_take (Formula.take_eq_ok_iff.2 ⟨shorter, found⟩)
    exact (ih h).of_suffix ⟨word, spelled.symm⟩

end

/-! ## What the layout of a line leaves of it -/

/-- In a line that leaves no bracket open only a formula can be awaited. -/
theorem Unfinished.awaits_formula {awaited : Awaited} {tokens : List Token}
    (h : Unfinished awaited tokens) (follows : tokens.IsChain Follows)
    (balanced : tokens.foldlM depthBehind 0 = some 0) : awaited = .formula := by
  cases h with
  | opened hbegun _ ends =>
    by_contra unfinished
    obtain ⟨before, rfl⟩ := ends
    rw [List.foldlM_append] at balanced
    obtain ⟨depth, -, behind⟩ := Option.bind_eq_some_iff.1 balanced
    obtain ⟨deeper, more, opened⟩ :=
      hbegun.exists_deeper unfinished (List.isChain_append.1 follows).2.1 depth
    rw [opened] at behind
    cases behind
    omega
  | therefore _ => rfl

theorem Unfinished.dangling {tokens : List Token} (h : Unfinished .formula tokens)
    (follows : tokens.IsChain Follows) : Dangling tokens := by
  cases h with
  | opened hbegun present ends =>
    obtain ⟨before, rfl⟩ := ends
    have inside := (List.isChain_append.1 follows).2.1
    rcases hbegun.dangling rfl inside with none | dangling
    · exact absurd none present
    · exact dangling.of_suffix (List.suffix_append _ _)
  | therefore ends => exact .inl ⟨_, ends, rfl⟩

/-- In a line that leaves no bracket open and does not stop at a token that announces something, the
formula can be missing only behind a bracket around one formula. -/
theorem Unfinished.exists_bare {awaited : Awaited} {tokens : List Token}
    (h : Unfinished awaited tokens) (follows : tokens.IsChain Follows)
    (balanced : tokens.foldlM depthBehind 0 = some 0)
    (settled : ∀ last, [last] <:+ tokens → last.kind.announces = false) :
    awaited = .formula ∧ ∃ bare, bare <:+ tokens ∧ Bare bare := by
  obtain rfl := h.awaits_formula follows balanced
  refine ⟨rfl, ?_⟩
  rcases h.dangling follows with ⟨last, ends, announces⟩ | bare
  · rw [settled last ends] at announces
    cases announces
  · exact bare

end Argument

end Entailment
