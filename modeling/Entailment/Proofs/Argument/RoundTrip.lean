import Entailment.Proofs.Line.Written
import Entailment.Proofs.Statement.LineGrammar

/-!
# Written arguments

The written form of a formula has the tokens of that formula in it, and these read as the formula
again.  So an argument is read back from a line that declares it in its written form.

Main statement: `Argument.read_render`.
-/

namespace Entailment

open Token (isAtomName isIdentifier)

namespace Formula

def tokens : Formula → List Token
  | atom name => [.atom name]
  | negation body => .not :: body.tokens
  | binary connective left right =>
    .leftParenthesis :: (left.tokens ++ .connective connective ::
      (right.tokens ++ [.rightParenthesis]))

/-- Whether all atoms are spelled as atoms are in a line. -/
def Writable (formula : Formula) : Prop :=
  ∀ name ∈ formula.occurrences, isAtomName name = true

theorem lineWord_tokens (formula : Formula) : LineWord formula.tokens formula := by
  induction formula with
  | atom name => exact .atom name
  | negation body ih => exact .negation ih
  | binary connective left right ihl ihr => exact .binary ihl trivial ihr

theorem count_tokens (formula : Formula) : formula.tokens.count .therefore = 0 := by
  induction formula with
  | atom name => rfl
  | negation body ih => exact (List.count_cons_of_ne (by decide)).trans ih
  | binary connective left right ihl ihr =>
    simp [tokens, List.count_append, ihl, ihr]

theorem written_render {formula : Formula} (writable : formula.Writable) {text : List Char}
    {tokens : List Token} (ends : ∀ c ∈ text.head?, Piece.isWordChar c = false)
    (h : Written text tokens) :
    Written (formula.render.toList ++ text) (formula.tokens ++ tokens) := by
  induction formula generalizing text tokens with
  | atom name =>
    have spelled : (Token.atom name).lexable = true := writable name (List.mem_singleton_self _)
    exact h.render (.atom name) spelled fun _ => ends
  | negation body ih =>
    have whole := (ih writable ends h).sign .not rfl rfl
    have spelled : (negation body).render.toList ++ text =
        "¬".toList ++ (body.render.toList ++ text) := by
      simp [render]
    rw [spelled]
    exact whole
  | binary connective left right ihl ihr =>
    -- from the closing bracket forward, each piece is put in front of the text written so far
    have hl : left.Writable := fun name mem => writable name (List.mem_append_left _ mem)
    have hr : right.Writable := fun name mem => writable name (List.mem_append_right _ mem)
    have closing := h.sign .rightParenthesis rfl rfl
    have second := ihr hr (by rintro c ⟨⟩; rfl) closing
    have joined := second.space.sign (.connective connective) rfl (by cases connective <;> rfl)
    have first := ihl hl (by rintro c ⟨⟩; rfl) joined.space
    have whole := first.sign .leftParenthesis rfl rfl
    have spelled : (binary connective left right).render.toList ++ text =
        "(".toList ++ (left.render.toList ++ (' ' :: (connective.sign.toList ++
          (' ' :: (right.render.toList ++ (")".toList ++ text)))))) := by
      simp [render]
    have listed : (binary connective left right).tokens ++ tokens =
        .leftParenthesis :: (left.tokens ++ (.connective connective ::
          (right.tokens ++ (.rightParenthesis :: tokens)))) := by
      simp [Formula.tokens]
    rw [spelled, listed]
    exact whole

/-! ## Lists of formulas -/

/-- The tokens of formulas written with a comma between each two of them. -/
def listTokens : List Formula → List Token
  | [] => []
  | [formula] => formula.tokens
  | formula :: next :: others => formula.tokens ++ .comma :: listTokens (next :: others)

theorem listWord_listTokens {formulas : List Formula} (some : formulas ≠ []) :
    ListWord (listTokens formulas) formulas := by
  fun_induction listTokens formulas with
  | case1 => exact absurd rfl some
  | case2 formula => exact .one formula.lineWord_tokens
  | case3 formula next others ih => exact .more formula.lineWord_tokens (ih (List.cons_ne_nil _ _))

theorem count_listTokens (formulas : List Formula) :
    (listTokens formulas).count .therefore = 0 := by
  fun_induction listTokens formulas with
  | case1 => rfl
  | case2 formula => exact formula.count_tokens
  | case3 formula next others ih =>
    simp [List.count_append, formula.count_tokens, ih]

theorem written_intercalate {formulas : List Formula}
    (writable : ∀ formula ∈ formulas, formula.Writable) {text : List Char} {tokens : List Token}
    (ends : ∀ c ∈ text.head?, Piece.isWordChar c = false) (h : Written text tokens) :
    Written ((String.intercalate ", " (formulas.map render)).toList ++ text)
      (listTokens formulas ++ tokens) := by
  fun_induction listTokens formulas with
  | case1 =>
    rw [List.map_nil, String.intercalate_nil]
    exact h
  | case2 formula =>
    rw [List.map_singleton, String.intercalate_singleton]
    exact written_render (writable _ (List.mem_singleton_self _)) ends h
  | case3 formula next others ih =>
    have behind := ih fun other mem => writable other (List.mem_cons_of_mem _ mem)
    have separated := behind.space.sign .comma rfl rfl
    have whole := written_render (writable _ List.mem_cons_self) (by rintro c ⟨⟩; rfl) separated
    have spelled : (String.intercalate ", " ((formula :: next :: others).map render)).toList ++ text =
        formula.render.toList ++ (",".toList ++ (' ' ::
          ((String.intercalate ", " ((next :: others).map render)).toList ++ text))) := by
      simp [String.intercalate_cons_cons]
    rw [spelled, List.append_assoc, List.cons_append]
    exact whole

end Formula

namespace Argument

def tokens (argument : Argument) : List Token :=
  match argument.conclusion with
  | none => Formula.listTokens argument.premises
  | some conclusion => Formula.listTokens argument.premises ++ .therefore :: conclusion.tokens

theorem lineWord_tokens {argument : Argument} (premises : argument.premises ≠ []) :
    LineWord argument.tokens argument := by
  rcases argument with ⟨formulas, _ | conclusion⟩
  · exact .unconcluded (Formula.listWord_listTokens premises)
  · exact .concluded (Formula.listWord_listTokens premises) conclusion.lineWord_tokens

theorem count_tokens_le (argument : Argument) : argument.tokens.count .therefore ≤ 1 := by
  rcases argument with ⟨formulas, _ | conclusion⟩
  · show (Formula.listTokens formulas).count .therefore ≤ 1
    rw [Formula.count_listTokens]
    omega
  · show (Formula.listTokens formulas ++ .therefore :: conclusion.tokens).count .therefore ≤ 1
    rw [List.count_append, List.count_cons_self, Formula.count_listTokens, conclusion.count_tokens]

theorem written_render {argument : Argument}
    (writable : ∀ formula ∈ argument.formulas, formula.Writable) :
    Written argument.render.toList argument.tokens := by
  rcases argument with ⟨formulas, conclusion⟩
  have premises : ∀ formula ∈ formulas, formula.Writable := fun formula mem =>
    writable formula (List.mem_append_left _ mem)
  cases conclusion with
  | none =>
    have whole := Formula.written_intercalate premises (by rintro c ⟨⟩) .nil
    rw [List.append_nil, List.append_nil] at whole
    exact whole
  | some conclusion =>
    have last : conclusion.Writable :=
      writable conclusion (List.mem_append_right _ (List.mem_singleton_self _))
    have ending := Formula.written_render last (by rintro c ⟨⟩) .nil
    rw [List.append_nil, List.append_nil] at ending
    have concluded := ending.space.sign .therefore rfl rfl
    have whole := Formula.written_intercalate premises (by rintro c ⟨⟩; rfl) concluded.space
    have spelled : (render ⟨formulas, some conclusion⟩).toList =
        (String.intercalate ", " (formulas.map Formula.render)).toList ++
          (' ' :: ("∴".toList ++ (' ' :: conclusion.render.toList))) := by
      simp [render]
    rw [spelled]
    exact whole

theorem written_declaration {argument : Argument} {id : String}
    (writable : ∀ formula ∈ argument.formulas, formula.Writable)
    (identifier : isIdentifier id = true) :
    Written ("argument " ++ id ++ " := " ++ argument.render).toList
      (.argument :: .identifier id :: .assign :: argument.tokens) := by
  have assigned := (written_render writable).space.sign .assign rfl rfl
  have named := assigned.space.render (.identifier id) identifier (by rintro - c ⟨⟩; rfl)
  have whole := named.space.render .argument rfl (by rintro - c ⟨⟩; rfl)
  have spelled : ("argument " ++ id ++ " := " ++ argument.render).toList =
      "argument".toList ++ (' ' :: (id.toList ++ (' ' :: (":=".toList ++
        (' ' :: argument.render.toList))))) := by
    simp
  rw [spelled]
  exact whole

/-- The written form of an argument is read back as that argument where one is declared. -/
theorem read_render (argument : Argument) (id : String) (premises : argument.premises ≠ [])
    (names : ∀ formula ∈ argument.formulas, ∀ name ∈ formula.occurrences, isAtomName name = true)
    (identifier : isIdentifier id = true) :
    ∃ line, Line.ofText ("argument " ++ id ++ " := " ++ argument.render) = .ok line ∧
      line.statement? = .ok (some (.declare id argument)) := by
  obtain ⟨lexemes, scanned, listed⟩ := (written_declaration names identifier).exists_scan
  have word : Statement.LineWord (lexemes.map Lexeme.token) (.declare id argument) := by
    rw [listed]
    exact .declare id (lineWord_tokens premises)
  have concludes : (lexemes.map Lexeme.token).count .therefore ≤ 1 := by
    rw [listed]
    show argument.tokens.count .therefore ≤ 1
    exact argument.count_tokens_le
  exact ⟨⟨_, lexemes⟩, Line.ofText_of_lineWord scanned word concludes⟩

/-- Nested negations, a repeated atom and two premises in front of a conclusion. -/
theorem read_render_nested :
    ∃ line, Line.ofText "argument a_1 := ¬(P12 → ¬¬Q), (Q ∨ (P12 ∧ R)) ∴ ¬R" = .ok line ∧
      line.statement? = .ok (some (.declare "a_1"
        ⟨[.negation (.binary .conditional (.atom "P12") (.negation (.negation (.atom "Q")))),
          .binary .disjunction (.atom "Q") (.binary .conjunction (.atom "P12") (.atom "R"))],
          some (.negation (.atom "R"))⟩)) := by
  exact read_render
    ⟨[.negation (.binary .conditional (.atom "P12") (.negation (.negation (.atom "Q")))),
      .binary .disjunction (.atom "Q") (.binary .conjunction (.atom "P12") (.atom "R"))],
      some (.negation (.atom "R"))⟩ "a_1" (List.cons_ne_nil _ _) (by decide) (by decide)

end Argument

end Entailment
