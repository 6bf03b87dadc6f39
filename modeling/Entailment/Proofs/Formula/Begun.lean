import Entailment.Proofs.Formula.LineGrammar

/-!
# Formulas that stop short

Reading a formula fails at the first lexeme that cannot go on with what was begun, or where the
lexemes run out.  In a line whose tokens may follow one another it does not matter much where they
do: a bracket is left open, or something is announced, or the bracket that closes an operand was
taken for the token between two of them.

* `Formula.stops_of_take`: where reading fails.
* `Formula.Begun.exists_deeper`: an operator or a closing bracket is missing only inside a bracket.
* `Formula.Begun.dangling`: which tokens a formula can be missing behind.
-/

namespace Entailment

open Token (Follows depthBehind)

namespace Formula

/-- What has to come next. -/
inductive Awaited where
  | formula
  /-- The token between two formulas in brackets. -/
  | operator
  /-- The bracket behind two formulas. -/
  | closing
  deriving DecidableEq

namespace Awaited

/-- Whether a token can come next. -/
def Admits : Awaited → Token → Prop
  | formula, token => token.Opens
  | operator, _ => True
  | closing, token => token = .rightParenthesis

/-- The failure of a line that has run out. -/
def failure (line : String) : Awaited → Failure
  | formula => due line
  | operator | closing => .exhausted line

end Awaited

/-- The tokens that begin a formula and stop in front of what is awaited. -/
inductive Begun : Awaited → List Token → Prop where
  | nil : Begun .formula []
  | negation {awaited : Awaited} {tokens : List Token} :
      Begun awaited tokens → Begun awaited (.not :: tokens)
  | first {awaited : Awaited} {tokens : List Token} :
      Begun awaited tokens → Begun awaited (.leftParenthesis :: tokens)
  | operator {first : List Token} {left : Formula} :
      AnyWord first left → Begun .operator (.leftParenthesis :: first)
  | second {awaited : Awaited} {first tokens : List Token} {left : Formula} (operator : Token) :
      AnyWord first left → Begun awaited tokens →
      Begun awaited (.leftParenthesis :: (first ++ operator :: tokens))
  | closing {first second : List Token} {left right : Formula} (operator : Token) :
      AnyWord first left → AnyWord second right →
      Begun .closing (.leftParenthesis :: (first ++ operator :: second))

/-! ## Where reading fails -/

/-- A failure to read a formula off the front of `lexemes`, with the lexemes left over: a lexeme
comes that is not admitted, or none comes. -/
inductive Stops (line : String) : List Lexeme → Failure → List Lexeme → Prop where
  | lexeme {awaited : Awaited} {before behind rest : List Lexeme} {lexeme : Lexeme} :
      Begun awaited (before.map Lexeme.token) → ¬ awaited.Admits lexeme.token →
      rest = behind ∨ rest = lexeme :: behind →
      Stops line (before ++ lexeme :: behind) (lexeme.unexpected line) rest
  | short {awaited : Awaited} {lexemes : List Lexeme} {failure : Failure} :
      Begun awaited (lexemes.map Lexeme.token) → failure = awaited.failure line →
      Stops line lexemes failure []

section

variable {line : String} {lexemes rest : List Lexeme} {failure : Failure}

/-- What stops a formula stops the one that it is a part of. -/
theorem Stops.inside (h : Stops line lexemes failure rest) (front : List Lexeme)
    (around : ∀ {awaited tokens}, Begun awaited tokens →
      Begun awaited (front.map Lexeme.token ++ tokens)) :
    Stops line (front ++ lexemes) failure rest := by
  cases h with
  | lexeme begun refused left =>
    rw [← List.append_assoc]
    refine .lexeme ?_ refused left
    rw [List.map_append]
    exact around begun
  | short begun same =>
    refine .short ?_ same
    rw [List.map_append]
    exact around begun

variable {head operator closing : Lexeme} {first second : List Lexeme} {left right : Formula}

theorem Stops.inNegation (h : Stops line lexemes failure rest) (hnot : head.token = .not) :
    Stops line (head :: lexemes) failure rest := by
  apply h.inside [head]
  intro awaited tokens begun
  rw [List.map_singleton, hnot]
  exact .negation begun

theorem Stops.inFirst (h : Stops line lexemes failure rest) (hopen : head.token = .leftParenthesis) :
    Stops line (head :: lexemes) failure rest := by
  apply h.inside [head]
  intro awaited tokens begun
  rw [List.map_singleton, hopen]
  exact .first begun

theorem Stops.inSecond (h : Stops line lexemes failure rest) (hopen : head.token = .leftParenthesis)
    (hfirst : AnyWord (first.map Lexeme.token) left) :
    Stops line (head :: (first ++ operator :: lexemes)) failure rest := by
  have whole : head :: (first ++ operator :: lexemes) =
      head :: (first ++ [operator]) ++ lexemes := by simp
  rw [whole]
  apply h.inside
  intro awaited tokens begun
  simp only [List.map_cons, List.map_append, List.map_nil, hopen, List.cons_append,
    List.append_assoc, List.nil_append]
  exact .second _ hfirst begun

theorem begun_operator (hopen : head.token = .leftParenthesis)
    (hfirst : AnyWord (first.map Lexeme.token) left) :
    Begun .operator ((head :: first).map Lexeme.token) := by
  rw [List.map_cons, hopen]
  exact .operator hfirst

theorem begun_closing (hopen : head.token = .leftParenthesis)
    (hfirst : AnyWord (first.map Lexeme.token) left)
    (hsecond : AnyWord (second.map Lexeme.token) right) :
    Begun .closing ((head :: (first ++ operator :: second)).map Lexeme.token) := by
  rw [List.map_cons, List.map_append, List.map_cons, hopen]
  exact .closing _ hfirst hsecond

theorem stops_at_closing (hopen : head.token = .leftParenthesis)
    (hfirst : AnyWord (first.map Lexeme.token) left)
    (hsecond : AnyWord (second.map Lexeme.token) right)
    (unclosed : closing.token ≠ .rightParenthesis) :
    Stops line (head :: (first ++ operator :: (second ++ closing :: rest)))
      (closing.unexpected line) rest := by
  have whole : head :: (first ++ operator :: (second ++ closing :: rest)) =
      head :: (first ++ operator :: second) ++ closing :: rest := by simp
  rw [whole]
  exact .lexeme (begun_closing hopen hfirst hsecond) unclosed (.inl rfl)

theorem stops_at_head (refused : ¬ head.token.Opens) :
    Stops line (head :: lexemes) (head.unexpected line)
      (if head.token.endsFormula then head :: lexemes else lexemes) := by
  have begun : Begun .formula (([] : List Lexeme).map Lexeme.token) := .nil
  apply Stops.lexeme begun refused
  split
  · exact .inr rfl
  · exact .inl rfl

end

/-- Reading a formula fails where it has to stop. -/
theorem stops_of_take {line : String} {lexemes rest : List Lexeme} {failure : Failure}
    (h : take line lexemes = (.error failure, rest)) : Stops line lexemes failure rest := by
  -- on the number of lexemes, as for what is read
  induction size : lexemes.length using Nat.strong_induction_on
    generalizing lexemes rest failure with
  | _ size ih =>
    subst size
    cases lexemes with
    | nil =>
      rw [take_nil] at h
      cases h
      exact .short Begun.nil rfl
    | cons head tail =>
      rw [take_cons] at h
      split at h
      · cases h
      · next hnot =>
        split at h
        · next found =>
          cases h
          exact (ih _ (Nat.lt_succ_self _) found rfl).inNegation hnot
        · cases h
      · next hopen =>
        split at h
        · next found =>
          cases h
          exact (ih _ (Nat.lt_succ_self _) found rfl).inFirst hopen
        · next left found =>
          cases h
          obtain ⟨first, rfl, hfirst⟩ := exists_word_of_take found
          rw [List.append_nil]
          exact .short (begun_operator hopen hfirst) rfl
        · next left operator behind found =>
          obtain ⟨first, rfl, hfirst⟩ := exists_word_of_take found
          split at h
          · next found' =>
            cases h
            exact (ih _ (by simp; omega) found' rfl).inSecond hopen hfirst
          · next right found' =>
            cases h
            obtain ⟨second, rfl, hsecond⟩ := exists_word_of_take found'
            rw [List.append_nil]
            exact .short (begun_closing hopen hfirst hsecond) rfl
          · next right closing last found' =>
            obtain ⟨second, rfl, hsecond⟩ := exists_word_of_take found'
            split at h
            · cases h
            · next unclosed =>
              cases h
              exact stops_at_closing hopen hfirst hsecond unclosed
      · next token hatom hnot hopen =>
        cases h
        apply stops_at_head
        rintro (⟨name, same⟩ | same | same)
        · exact hatom name same
        · exact hopen same
        · exact hnot same

theorem stops_of_stuck {line : String} {lexemes rest : List Lexeme} {failure : Failure}
    (h : readFrom line lexemes = .stuck failure rest) : Stops line lexemes failure rest := by
  apply stops_of_take
  rw [take, h, Reading.outcome]

/-! ## Where the tokens of a line can stop short -/

theorem Begun.opens {awaited : Awaited} {tokens : List Token} (h : Begun awaited tokens) :
    (awaited = .formula ∧ tokens = []) ∨
      ∃ first others, tokens = first :: others ∧ first.Opens := by
  cases h with
  | nil => exact .inl ⟨rfl, rfl⟩
  | negation _ => exact .inr ⟨_, _, rfl, .inr (.inr rfl)⟩
  | first _ => exact .inr ⟨_, _, rfl, .inr (.inl rfl)⟩
  | operator _ => exact .inr ⟨_, _, rfl, .inr (.inl rfl)⟩
  | second _ _ _ => exact .inr ⟨_, _, rfl, .inr (.inl rfl)⟩
  | closing _ _ _ => exact .inr ⟨_, _, rfl, .inr (.inl rfl)⟩

/-- Behind a word and the token that joins it to something that opens a formula, as many brackets
are open as before. -/
theorem foldlM_depthBehind_operand {first tokens : List Token} {left : Formula}
    {operator head : Token} (hfirst : AnyWord first left) (opens : head.Opens)
    (follows : (first ++ operator :: head :: tokens).IsChain Follows) (depth : Nat) :
    (first ++ operator :: head :: tokens).foldlM depthBehind depth =
      (head :: tokens).foldlM depthBehind depth := by
  obtain ⟨inside, behind, joint⟩ := List.isChain_append.1 follows
  obtain ⟨last, hlast, closes⟩ := hfirst.closes
  have before := (List.isChain_cons_cons.1 behind).1
  have joins := Token.joins_of_follows hlast closes opens (joint last hlast _ rfl) before
  rw [List.foldlM_append, (hfirst.lineWord_of_follows inside).segment.balanced,
    Option.bind_eq_bind, Option.bind_some, List.foldlM_cons, Token.depthBehind_of_joins joins]
  rfl

/-- Where no formula is awaited a bracket has been left open. -/
theorem Begun.exists_deeper {awaited : Awaited} {tokens : List Token} (h : Begun awaited tokens)
    (unfinished : awaited ≠ .formula) (follows : tokens.IsChain Follows) (depth : Nat) :
    ∃ deeper > depth, tokens.foldlM depthBehind depth = some deeper := by
  induction h generalizing depth with
  | nil => exact absurd rfl unfinished
  | negation _ ih => exact ih unfinished follows.tail depth
  | first _ ih =>
    obtain ⟨deeper, more, opened⟩ := ih unfinished follows.tail (depth + 1)
    exact ⟨deeper, by omega, opened⟩
  | operator hfirst =>
    have word := hfirst.lineWord_of_follows follows.tail
    exact ⟨depth + 1, Nat.lt_succ_self _, word.segment.balanced (depth + 1)⟩
  | second operator hfirst inner ih =>
    rcases inner.opens with ⟨none, -⟩ | ⟨head, others, rfl, opens⟩
    · exact absurd none unfinished
    · have behind := (List.isChain_append.1 follows.tail).2.1.tail
      obtain ⟨deeper, more, opened⟩ := ih unfinished behind (depth + 1)
      refine ⟨deeper, by omega, ?_⟩
      rw [← opened]
      exact foldlM_depthBehind_operand hfirst opens follows.tail (depth + 1)
  | closing operator hfirst hsecond =>
    have behind := (List.isChain_append.1 follows.tail).2.1.tail
    have word := hsecond.lineWord_of_follows behind
    obtain ⟨head, others, rfl, opens⟩ := hsecond.opens
    refine ⟨depth + 1, Nat.lt_succ_self _, ?_⟩
    rw [← word.segment.balanced (depth + 1)]
    exact foldlM_depthBehind_operand hfirst opens follows.tail (depth + 1)

/-- A bracket with one formula in it and nothing else. -/
def Bare (tokens : List Token) : Prop :=
  ∃ word formula, LineWord word formula ∧
    tokens = .leftParenthesis :: (word ++ [.rightParenthesis])

/-- The last of the tokens announces something, or it closes a bracket around one formula. -/
def Dangling (tokens : List Token) : Prop :=
  (∃ last, [last] <:+ tokens ∧ last.kind.announces = true) ∨ ∃ bare, bare <:+ tokens ∧ Bare bare

theorem Dangling.of_suffix {tokens whole : List Token} (h : Dangling tokens)
    (suffix : tokens <:+ whole) : Dangling whole := by
  rcases h with ⟨last, stops, announces⟩ | ⟨bare, stops, hbare⟩
  · exact .inl ⟨last, stops.trans suffix, announces⟩
  · exact .inr ⟨bare, stops.trans suffix, hbare⟩

theorem Dangling.behind {before : Token} {tokens : List Token}
    (announces : before.kind.announces = true) (h : tokens = [] ∨ Dangling tokens) :
    Dangling (before :: tokens) := by
  rcases h with rfl | inside
  · exact .inl ⟨before, List.suffix_refl _, announces⟩
  · exact inside.of_suffix (List.suffix_cons _ _)

/-- Of the tokens that can follow a formula only a closing bracket announces nothing. -/
theorem announces_or_closing {last operator : Token} (closes : last.Closes)
    (follows : Follows last operator) :
    operator.kind.announces = true ∨ operator = .rightParenthesis := by
  cases operator
  case rightParenthesis => exact .inr rfl
  case atom | identifier | text | print =>
    rcases closes with ⟨name, rfl⟩ | rfl <;> cases follows
  case truth value =>
    rcases closes with ⟨name, rfl⟩ | rfl <;> cases value <;> cases follows
  all_goals exact .inl rfl

/-- A formula that has been opened can be missing only behind a token that announces it or behind a
bracket that closed too early. -/
theorem Begun.dangling {awaited : Awaited} {tokens : List Token} (h : Begun awaited tokens)
    (due : awaited = .formula) (follows : tokens.IsChain Follows) :
    tokens = [] ∨ Dangling tokens := by
  induction h with
  | nil => exact .inl rfl
  | negation _ ih => exact .inr (.behind rfl (ih due follows.tail))
  | first _ ih => exact .inr (.behind rfl (ih due follows.tail))
  | operator _ => cases due
  | @second _ word tokens left _ hfirst _ ih =>
    right
    obtain ⟨inside, behind, joint⟩ := List.isChain_append.1 follows.tail
    obtain ⟨last, hlast, closes⟩ := hfirst.closes
    have rest := ih due behind.tail
    rcases announces_or_closing closes (joint last hlast _ rfl) with announces | rfl
    · exact (Dangling.behind announces rest).of_suffix ⟨.leftParenthesis :: word, rfl⟩
    · rcases rest with rfl | dangling
      -- the bracket behind the first operand is the last token
      · have spelled := hfirst.lineWord_of_follows inside
        exact .inr ⟨_, List.suffix_refl _, word, left, spelled, rfl⟩
      · apply dangling.of_suffix
        exact ⟨.leftParenthesis :: (word ++ [.rightParenthesis]), by simp⟩
  | closing _ _ _ => cases due

end Formula

end Entailment
