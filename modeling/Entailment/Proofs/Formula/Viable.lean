import Entailment.Proofs.Formula.Begun

/-!
# Tokens that can go on to a formula

Reading a formula fails no later than it has to: at the first lexeme behind which no continuation
makes a formula.  If there is no such lexeme the lexemes run out, and what the failure says depends
on what could have come next.

* `Formula.Viable`: tokens that can go on to a formula.
* `Formula.anyWord_unique`: no word of the grammar goes on to another one.
* `Formula.Begun.viable_concat_iff`: which tokens can come next behind what has been begun.

Main statement: `Formula.optional_fails_early`.
-/

namespace Entailment

namespace Formula

/-- The tokens can go on to a formula. -/
def Viable (tokens : List Token) : Prop := ∃ more formula, AnyWord (tokens ++ more) formula

theorem Viable.of_front {front tokens : List Token} (h : Viable tokens)
    (before : front <+: tokens) : Viable front := by
  obtain ⟨behind, rfl⟩ := before
  obtain ⟨more, formula, word⟩ := h
  rw [List.append_assoc] at word
  exact ⟨behind ++ more, formula, word⟩

/-! ## Words -/

theorem Word.of_not {joins : List Token → Token → Prop} {tokens : List Token} {formula : Formula}
    (h : Word joins (.not :: tokens) formula) : ∃ body, Word joins tokens body := by
  cases h with
  | negation word => exact ⟨_, word⟩

theorem Word.of_leftParenthesis {joins : List Token → Token → Prop} {tokens : List Token}
    {formula : Formula} (h : Word joins (.leftParenthesis :: tokens) formula) :
    ∃ first operator second left right,
      tokens = first ++ operator :: (second ++ [.rightParenthesis]) ∧
      Word joins first left ∧ Word joins second right := by
  cases h with
  | binary hfirst _ hsecond => exact ⟨_, _, _, _, _, rfl, hfirst, hsecond⟩

theorem anyWord_binary {first second : List Token} {left right : Formula}
    (hfirst : AnyWord first left) (operator : Token) (hsecond : AnyWord second right) :
    AnyWord (.leftParenthesis :: (first ++ operator :: (second ++ [.rightParenthesis])))
      (.binary operator.asConnective left right) :=
  .binary hfirst trivial hsecond

/-- A list of tokens begins with one word at most, whatever stands behind it. -/
theorem anyWord_unique {first second rest rest' : List Token} {formula formula' : Formula}
    (same : first ++ rest = second ++ rest') (h : AnyWord first formula)
    (h' : AnyWord second formula') : first = second ∧ rest = rest' := by
  -- reading is a function of lexemes, so the tokens are given lexemes without a spelling
  let bare (token : Token) : Lexeme := ⟨token, "", 0⟩
  have tokens_bare (tokens : List Token) : (tokens.map bare).map Lexeme.token = tokens := by
    rw [List.map_map]
    exact List.map_id _
  have spelled : first.map bare ++ rest.map bare = second.map bare ++ rest'.map bare := by
    rw [← List.map_append, same, List.map_append]
  rw [← tokens_bare first] at h
  rw [← tokens_bare second] at h'
  have firsts := congrArg (List.map Lexeme.token) (word_unique spelled h h').1
  rw [tokens_bare, tokens_bare] at firsts
  subst firsts
  exact ⟨rfl, List.append_cancel_left same⟩

/-! ## What can come next -/

/-- What takes the place of what is awaited. -/
inductive Awaited.Fits : Awaited → List Token → Prop where
  | formula {word : List Token} {formula : Formula} : AnyWord word formula → Fits .formula word
  | operator (token : Token) : Fits .operator [token]
  | closing : Fits .closing [.rightParenthesis]

/-- What is admitted begins something that fits. -/
theorem Awaited.exists_fits {awaited : Awaited} {token : Token} (h : awaited.Admits token) :
    ∃ others, awaited.Fits (token :: others) := by
  cases awaited with
  | formula =>
    rcases h with ⟨name, rfl⟩ | rfl | rfl
    · exact ⟨[], .formula (.atom name)⟩
    · exact ⟨_, .formula (anyWord_binary (.atom "") .comma (.atom ""))⟩
    · exact ⟨_, .formula (.negation (.atom ""))⟩
  | operator => exact ⟨[], .operator token⟩
  | closing =>
    obtain rfl : token = .rightParenthesis := h
    exact ⟨[], .closing⟩

theorem Awaited.exists_admits (awaited : Awaited) : ∃ token, awaited.Admits token := by
  cases awaited with
  | formula => exact ⟨.not, .inr (.inr rfl)⟩
  | operator => exact ⟨.comma, trivial⟩
  | closing => exact ⟨.rightParenthesis, rfl⟩

variable {awaited : Awaited} {tokens : List Token} {token : Token}

/-- What was begun goes on to a formula with whatever fits behind it. -/
theorem Begun.goes_on (h : Begun awaited tokens) {piece : List Token} (fits : awaited.Fits piece) :
    Viable (tokens ++ piece) := by
  induction h with
  | nil =>
    cases fits with
    | formula word => exact ⟨[], _, by simpa using word⟩
  | negation _ ih =>
    obtain ⟨more, formula, word⟩ := ih fits
    exact ⟨more, _, .negation word⟩
  | @first awaited tokens _ ih =>
    obtain ⟨more, left, word⟩ := ih fits
    have whole := anyWord_binary word .comma (.atom "")
    exact ⟨more ++ [.comma, .atom "", .rightParenthesis], _, by simpa using whole⟩
  | operator hfirst =>
    cases fits with
    | operator token =>
      have whole := anyWord_binary hfirst token (.atom "")
      exact ⟨[.atom "", .rightParenthesis], _, by simpa using whole⟩
  | second operator hfirst _ ih =>
    obtain ⟨more, right, word⟩ := ih fits
    have whole := anyWord_binary hfirst operator word
    exact ⟨more ++ [.rightParenthesis], _, by simpa using whole⟩
  | closing operator hfirst hsecond =>
    cases fits with
    | closing =>
      have whole := anyWord_binary hfirst operator hsecond
      exact ⟨[], _, by simpa using whole⟩

theorem Begun.viable_of_admits (h : Begun awaited tokens) (admitted : awaited.Admits token) :
    Viable (tokens ++ [token]) := by
  obtain ⟨others, fits⟩ := Awaited.exists_fits admitted
  apply (h.goes_on fits).of_front
  exact ⟨others, by simp⟩

theorem Begun.viable (h : Begun awaited tokens) : Viable tokens := by
  obtain ⟨token, admitted⟩ := awaited.exists_admits
  exact (h.viable_of_admits admitted).of_front (List.prefix_append _ _)

/-- No word is over while one is begun. -/
theorem Begun.not_prefix (h : Begun awaited tokens) {word : List Token} {formula : Formula}
    (hword : AnyWord word formula) : ¬ word <+: tokens := by
  rintro ⟨behind, rfl⟩
  obtain ⟨token, admitted⟩ := awaited.exists_admits
  obtain ⟨more, whole, hwhole⟩ := h.viable_of_admits admitted
  rw [List.append_assoc, List.append_assoc] at hwhole
  have same : word ++ (behind ++ ([token] ++ more)) =
      (word ++ (behind ++ ([token] ++ more))) ++ [] := (List.append_nil _).symm
  have none := (anyWord_unique same hword hwhole).2
  simp at none

/-- In a word that begins with the same tokens, what was begun is still going on. -/
theorem Begun.viable_of_word (h : Begun awaited tokens) {word more behind : List Token}
    {formula : Formula} (hword : AnyWord word formula)
    (same : tokens ++ token :: more = word ++ behind) : Viable (tokens ++ [token]) := by
  -- the word reaches beyond what was begun, or it would be over while that is going on
  rcases List.append_eq_append_iff.1 same with ⟨inside, rfl, left⟩ | ⟨inside, rfl, left⟩
  · cases inside with
    | nil =>
      rw [List.append_nil] at hword
      exact absurd (List.prefix_refl _) (h.not_prefix hword)
    | cons next others =>
      obtain ⟨rfl, -⟩ := List.cons_eq_cons.1 left
      exact ⟨others, formula, by simpa using hword⟩
  · exact absurd (List.prefix_append _ _) (h.not_prefix hword)

theorem Begun.admits_of_viable (h : Begun awaited tokens) (viable : Viable (tokens ++ [token])) :
    awaited.Admits token := by
  induction h with
  | nil =>
    obtain ⟨more, formula, word⟩ := viable
    obtain ⟨first, others, spelled, opens⟩ := word.opens
    cases spelled
    exact opens
  | negation _ ih =>
    obtain ⟨more, formula, word⟩ := viable
    obtain ⟨body, word⟩ := word.of_not
    exact ih ⟨more, body, word⟩
  | first begun ih =>
    obtain ⟨more, formula, word⟩ := viable
    simp only [List.cons_append, List.append_assoc, List.nil_append] at word
    obtain ⟨first, operator, second, left, right, spelled, hfirst, -⟩ := word.of_leftParenthesis
    exact ih (begun.viable_of_word hfirst spelled)
  | operator _ => trivial
  | second operator hfirst begun ih =>
    obtain ⟨more, formula, word⟩ := viable
    simp only [List.cons_append, List.append_assoc, List.nil_append] at word
    obtain ⟨first, joint, second, left, right, spelled, hfirst', hsecond⟩ :=
      word.of_leftParenthesis
    obtain ⟨rfl, behind⟩ := anyWord_unique spelled hfirst hfirst'
    exact ih (begun.viable_of_word hsecond (List.cons_eq_cons.1 behind).2)
  | closing operator hfirst hsecond =>
    obtain ⟨more, formula, word⟩ := viable
    simp only [List.cons_append, List.append_assoc, List.nil_append] at word
    obtain ⟨first, joint, second, left, right, spelled, hfirst', hsecond'⟩ :=
      word.of_leftParenthesis
    obtain ⟨rfl, behind⟩ := anyWord_unique spelled hfirst hfirst'
    obtain ⟨rfl, last⟩ := anyWord_unique (List.cons_eq_cons.1 behind).2 hsecond hsecond'
    exact (List.cons_eq_cons.1 last).1

/-- Behind what has been begun just those tokens can come next that are admitted. -/
theorem Begun.viable_concat_iff (h : Begun awaited tokens) :
    Viable (tokens ++ [token]) ↔ awaited.Admits token :=
  ⟨h.admits_of_viable, h.viable_of_admits⟩

/-! ## Where reading fails -/

/-- What tokens that can go on to a formula wait for: just the tokens that it admits can come
next. -/
def Awaits (tokens : List Token) (awaited : Awaited) : Prop :=
  ∀ token, Viable (tokens ++ [token]) ↔ awaited.Admits token

/-- The lexeme is the first behind which no formula is possible. -/
structure FirstBad (before : List Lexeme) (lexeme : Lexeme) : Prop where
  viable : ∀ front, front <+: before → Viable (front.map Lexeme.token)
  bad : ¬ Viable ((before ++ [lexeme]).map Lexeme.token)

/-- Reading a formula fails at the first lexeme behind which no formula is possible, and stops in
front of it or behind it.  Where a formula is possible to the end, the lexemes run out: if a formula
has to come next the failure is an empty symbol at the end of the line, and if any token may come
next, or only a closing bracket, the line is exhausted. -/
theorem optional_fails_early (line : String) {pending : List Lexeme}
    (unbounded : ¬ AtBoundary pending)
    (wordless : ∀ word formula, word <+: pending → ¬ AnyWord (word.map Lexeme.token) formula) :
    ((∃ front, front <+: pending ∧ ¬ Viable (front.map Lexeme.token)) →
      ∃ before lexeme behind rest, pending = before ++ lexeme :: behind ∧ FirstBad before lexeme ∧
        optional.run ⟨line, pending⟩ =
          (.error (.symbol lexeme.spelling lexeme.position line), ⟨line, rest⟩) ∧
        (rest = lexeme :: behind ∨ rest = behind)) ∧
    ((∀ front, front <+: pending → Viable (front.map Lexeme.token)) →
      ∃ awaited, Awaits (pending.map Lexeme.token) awaited ∧
        optional.run ⟨line, pending⟩ = (.error (awaited.failure line), ⟨line, []⟩)) := by
  rcases read : take line pending with ⟨failure | formula, rest⟩
  · have run : optional.run ⟨line, pending⟩ = (.error failure, ⟨line, rest⟩) := by
      rw [run_optional_of_not_boundary unbounded, read]
      rfl
    cases stops_of_take read with
    | @lexeme awaited before behind _ lexeme begun refused left =>
      have first : FirstBad before lexeme := by
        refine ⟨fun front inFront => begun.viable.of_front (inFront.map Lexeme.token), ?_⟩
        rw [List.map_append, List.map_singleton, begun.viable_concat_iff]
        exact refused
      refine ⟨fun _ => ⟨before, lexeme, behind, rest, rfl, first, run, left.symm⟩, fun viable => ?_⟩
      exact absurd (viable _ ⟨behind, by simp⟩) first.bad
    | @short awaited _ _ begun same =>
      refine ⟨?_, fun _ => ⟨awaited, fun token => begun.viable_concat_iff, by rw [run, same]⟩⟩
      rintro ⟨front, inFront, bad⟩
      exact absurd (begun.viable.of_front (inFront.map Lexeme.token)) bad
  · obtain ⟨word, rfl, spelled⟩ := take_eq_ok_iff_word.1 read
    exact absurd spelled (wordless word formula (List.prefix_append _ _))

/-- Where reading has failed no word begins. -/
theorem not_anyWord_of_take {line : String} {pending rest : List Lexeme} {failure : Failure}
    (h : take line pending = (.error failure, rest)) (word : List Lexeme) (formula : Formula)
    (front : word <+: pending) : ¬ AnyWord (word.map Lexeme.token) formula := by
  obtain ⟨behind, rfl⟩ := front
  intro spelled
  rw [take_of_word spelled rfl behind] at h
  cases h

/-- A bracket that closes too early is the first bad lexeme, and it is left.  The same line without
it and what is behind it runs out where a formula has to come. -/
theorem optional_fails_early_closing :
    let before : List Lexeme := [⟨.not, "!", 0⟩, ⟨.leftParenthesis, "(", 1⟩, ⟨.atom "P", "P", 2⟩,
      ⟨.comma, ",", 3⟩]
    let closing : Lexeme := ⟨.rightParenthesis, ")", 4⟩
    let pending := before ++ [closing, ⟨.atom "Q", "Q", 5⟩]
    ¬ AtBoundary pending ∧
    (∀ word formula, word <+: pending → ¬ AnyWord (word.map Lexeme.token) formula) ∧
    (∃ before lexeme behind rest, pending = before ++ lexeme :: behind ∧ FirstBad before lexeme ∧
      optional.run ⟨"!(P,)Q", pending⟩ =
        (.error (.symbol lexeme.spelling lexeme.position "!(P,)Q"), ⟨"!(P,)Q", rest⟩) ∧
      (rest = lexeme :: behind ∨ rest = behind)) ∧
    ¬ AtBoundary before ∧
    (∀ word formula, word <+: before → ¬ AnyWord (word.map Lexeme.token) formula) ∧
    ∃ awaited, Awaits (before.map Lexeme.token) awaited ∧
      optional.run ⟨"!(P,", before⟩ = (.error (awaited.failure "!(P,"), ⟨"!(P,", []⟩) := by
  intro before closing pending
  have refused : take "!(P,)Q" pending =
      (.error (.symbol ")" 4 "!(P,)Q"), [closing, ⟨.atom "Q", "Q", 5⟩]) := by decide +kernel
  have short : take "!(P," before = (.error (due "!(P,"), []) := by decide +kernel
  have unbounded : ¬ AtBoundary pending := fun boundary => by simpa [before] using boundary _ rfl
  have unbounded' : ¬ AtBoundary before := fun boundary => by simpa [before] using boundary _ rfl
  have begun : Begun .formula (before.map Lexeme.token) :=
    .negation (.second .comma (.atom "P") .nil)
  have bad : ¬ Viable ((before ++ [closing]).map Lexeme.token) := by
    rw [List.map_append, List.map_singleton, begun.viable_concat_iff]
    simp [Awaited.Admits, Token.Opens, closing]
  obtain ⟨fails, -⟩ := optional_fails_early "!(P,)Q" unbounded (not_anyWord_of_take refused)
  obtain ⟨-, runsOut⟩ := optional_fails_early "!(P," unbounded' (not_anyWord_of_take short)
  exact ⟨unbounded, not_anyWord_of_take refused, fails ⟨_, ⟨[⟨.atom "Q", "Q", 5⟩], rfl⟩, bad⟩,
    unbounded', not_anyWord_of_take short,
    runsOut fun front inFront => begun.viable.of_front (inFront.map Lexeme.token)⟩

end Formula

end Entailment
