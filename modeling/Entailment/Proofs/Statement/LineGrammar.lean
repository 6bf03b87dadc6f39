import Entailment.Proofs.Argument.LineGrammar
import Entailment.Proofs.Statement.Grammar

/-!
# Statements in a line

A line has to be well laid and to read as a statement.  What both let through is one grammar, and
that there is one `∴` in the line at most.

* `Statement.laid_and_anyWord_iff`: this, for tokens.
* `Line.ofText_statement_eq_some_iff`: this, from the text on.
-/

namespace Entailment

open Token (Follows Laid)

/-- The last token of a line announces nothing. -/
theorem Token.Laid.not_announces {tokens : List Token} {last : Token} (h : Laid tokens)
    (stops : [last] <:+ tokens) : last.kind.announces = false := by
  obtain ⟨initial, rfl⟩ := stops
  have complete := h.complete
  rw [List.reverse_append, List.reverse_singleton, List.singleton_append, List.map_cons] at complete
  unfold Kind.expectsMore at complete
  split at complete
  · next none => cases none
  · cases complete
  · cases complete
  · next same =>
    cases same
    exact complete

namespace Statement

/-- The statements that a line can hold, with the tokens that spell them. -/
abbrev LineWord : List Token → Statement → Prop := Word Argument.LineWord

theorem Word.mono {first second : List Token → Argument → Prop} {tokens : List Token}
    {statement : Statement} (h : Word first tokens statement)
    (weaker : ∀ tokens argument, first tokens argument → second tokens argument) :
    Word second tokens statement := by
  cases h with
  | blank => exact .blank
  | print content => exact .print content
  | assign name value => exact .assign name value
  | describe name content => exact .describe name content
  | ask query id => exact .ask query id
  | declare id hargument => exact .declare id (weaker _ _ hargument)

theorem lineWord_of_laid {tokens : List Token} {statement : Statement} (laid : Laid tokens)
    (h : AnyWord tokens statement) : LineWord tokens statement := by
  cases h with
  | blank => exact .blank
  | print content => exact .print content
  | assign name value => exact .assign name value
  | describe name content => exact .describe name content
  | ask query id => exact .ask query id
  | @declare tokens argument id hargument =>
    have start : .assign :: tokens <:+ .argument :: .identifier id :: .assign :: tokens :=
      ⟨[.argument, .identifier id], rfl⟩
    have settled : Argument.Settled (.assign :: tokens) := by
      constructor
      · intro stops
        cases laid.not_announces (stops.trans start)
      · intro stops
        cases laid.not_announces (stops.trans start)
    exact .declare id (Argument.lineWord_of_anyWord hargument laid.follows.tail.tail
      laid.balanced settled)

/-- A declaration stops behind a formula, so nothing has to follow. -/
theorem complete_of_segment {id : String} {tokens : List Token} (h : Token.Segment tokens) :
    Kind.expectsMore ((.argument :: .identifier id :: .assign :: tokens).reverse.map Token.kind) =
      false := by
  obtain ⟨last, hlast, closes⟩ := h.closes
  obtain ⟨initial, rfl⟩ := List.getLast?_eq_some_iff.1 hlast
  rw [← List.cons_append, ← List.cons_append, ← List.cons_append, List.reverse_append,
    List.reverse_singleton, List.singleton_append, List.map_cons]
  -- there is a token in front of the last one, so an atom does not stand alone
  obtain ⟨before, others, more⟩ : ∃ before others,
      (Token.argument :: .identifier id :: .assign :: initial).reverse.map Token.kind =
        before :: others := by
    apply List.exists_cons_of_ne_nil
    simp
  rw [more]
  rcases closes with ⟨name, rfl⟩ | rfl <;> rfl

theorem laid_of_lineWord {tokens : List Token} {statement : Statement}
    (h : LineWord tokens statement) (concludes : tokens.count .therefore ≤ 1) : Laid tokens := by
  have opens : ∀ token ∈ tokens.head?, token.kind.startsLine = true := by
    cases h with
    | ask query id => rintro token ⟨⟩; cases query <;> rfl
    | _ => rintro token ⟨⟩; rfl
  have follows : tokens.IsChain Follows := by
    cases h with
    | blank => exact .singleton _
    | print content => exact .cons_cons rfl (.singleton _)
    | assign name value => exact .cons_cons rfl (.cons_cons (by cases value <;> rfl) (.singleton _))
    | describe name content => exact .cons_cons rfl (.cons_cons rfl (.singleton _))
    | ask query id => exact .cons_cons rfl (.singleton _)
    | declare id hargument =>
      refine .cons_cons rfl (.cons_cons rfl (hargument.segment.isChain_cons fun first opens => ?_))
      rcases opens with ⟨name, rfl⟩ | rfl | rfl <;> rfl
  have balanced : tokens.foldlM Token.depthBehind 0 = some 0 := by
    cases h with
    | declare id hargument => exact hargument.segment.balanced 0
    | _ => rfl
  have complete : Kind.expectsMore (tokens.reverse.map Token.kind) = false := by
    cases h with
    | declare id hargument => exact complete_of_segment hargument.segment
    | _ => rfl
  exact ⟨opens, follows, concludes, balanced, complete⟩

/-- The layout of a line and the reading of a statement together let through one grammar. -/
theorem laid_and_anyWord_iff {tokens : List Token} {statement : Statement} :
    Laid tokens ∧ AnyWord tokens statement ↔
      LineWord tokens statement ∧ tokens.count .therefore ≤ 1 := by
  constructor
  · rintro ⟨laid, h⟩
    exact ⟨lineWord_of_laid laid h, laid.concludes⟩
  · rintro ⟨h, concludes⟩
    exact ⟨laid_of_lineWord h concludes, h.mono fun _ _ => Argument.LineWord.anyWord⟩

end Statement

/-- A text whose tokens spell a statement, with one `∴` at most, is a line with that statement. -/
theorem Line.ofText_of_lineWord {text : String} {lexemes : List Lexeme} {statement : Statement}
    (scanned : Lexeme.scan text = .ok lexemes)
    (h : Statement.LineWord (lexemes.map Lexeme.token) statement)
    (concludes : (lexemes.map Lexeme.token).count .therefore ≤ 1) :
    Line.ofText text = .ok ⟨text, lexemes⟩ ∧
      Line.statement? ⟨text, lexemes⟩ = .ok (some statement) := by
  obtain ⟨laid, spelled⟩ := Statement.laid_and_anyWord_iff.2 ⟨h, concludes⟩
  exact ⟨Line.ofText_of_laid scanned laid, Line.statement?_eq_some_iff_word.2 spelled⟩

/-- A text is read as a line with a statement just if it scans and its tokens spell the statement,
with one `∴` at most. -/
theorem Line.ofText_statement_eq_some_iff (text : String) (statement : Statement) :
    (Line.ofText text >>= Line.statement?) = .ok (some statement) ↔
      ∃ lexemes, Lexeme.scan text = .ok lexemes ∧
        Statement.LineWord (lexemes.map Lexeme.token) statement ∧
        (lexemes.map Lexeme.token).count .therefore ≤ 1 := by
  constructor
  · intro h
    cases read : Line.ofText text with
    | error failure =>
      rw [read] at h
      cases h
    | ok line =>
      rw [read] at h
      have spelled : Statement.AnyWord line.tokens statement :=
        Line.statement?_eq_some_iff_word.1 h
      rcases Line.ofText_eq_ok_iff.1 read with ⟨-, rfl⟩ | ⟨-, lexemes, scanned, laid, rfl⟩
      · cases spelled
      · exact ⟨lexemes, scanned, Statement.laid_and_anyWord_iff.1 ⟨laid, spelled⟩⟩
  · rintro ⟨lexemes, scanned, h, concludes⟩
    obtain ⟨read, spelled⟩ := Line.ofText_of_lineWord scanned h concludes
    rw [read]
    exact spelled

/-- Behind an atom `:=` joins two formulas, as a conditional. -/
example : (Line.ofText "argument x := (P := Q)" >>= Line.statement?) =
    .ok (some (.declare "x" ⟨[.binary .conditional (.atom "P") (.atom "Q")], none⟩)) := by
  decide +kernel

end Entailment
