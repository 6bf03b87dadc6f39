import Entailment.Proofs.Argument.Grammar
import Entailment.Proofs.Line.Reader
import Entailment.Statement.Reading

/-!
# Grammar of statements

The token lists of the statements.  Which lists declare an argument is a parameter; the other
statements have one shape each.

* `Line.statement?_eq_some_iff_word`: which lines are read as which statement.
* `Line.statement_reads_words`: what comes of any lexemes, for arguments and for statements.
-/

namespace Entailment

namespace Statement

/-- The lists of tokens that spell a statement, where `arguments` are those of an argument. -/
inductive Word (arguments : List Token → Argument → Prop) : List Token → Statement → Prop where
  | blank : Word arguments [.print] (.print "")
  | print (content : String) : Word arguments [.print, .text content] (.print content)
  | assign (name : String) (value : Bool) :
      Word arguments [.atom name, .assign, .truth value] (.assign name value)
  | describe (name content : String) :
      Word arguments [.atom name, .is, .text content] (.describe name content)
  | ask (query : Query) (id : String) :
      Word arguments [.query query, .identifier id] (.ask query id)
  | declare {tokens : List Token} {argument : Argument} (id : String) :
      arguments tokens argument →
      Word arguments (.argument :: .identifier id :: .assign :: tokens) (.declare id argument)

/-- The lists of tokens that read as a statement when nothing else is known about the line. -/
abbrev AnyWord : List Token → Statement → Prop := Word Argument.AnyWord

theorem word_of_readBehind {line : String} {head : Lexeme} {rest : List Lexeme} {behind : Reader}
    {statement : Statement} (h : (readBehind head).run ⟨line, rest⟩ = (.ok statement, behind))
    (finished : behind.pending = []) :
    AnyWord (head.token :: rest.map Lexeme.token) statement := by
  unfold readBehind at h
  split at h
  · next hprint =>
    rw [hprint]
    rcases rest with _ | ⟨lexeme, more⟩
    · cases h
      exact .blank
    · simp only [Read.run_bind, Read.run_next?, List.head?_cons, List.tail_cons] at h
      split at h
      · next content htext =>
        cases h
        obtain rfl : more = [] := finished
        rw [List.map_singleton, htext]
        exact .print content
      · cases h
  · next name hatom =>
    obtain ⟨verb, _, hread, h⟩ := Read.run_bind_eq_ok_iff.1 h
    obtain ⟨rest, rfl, rfl⟩ := Read.run_any_eq_ok_iff.1 hread
    obtain ⟨object, _, hread, h⟩ := Read.run_bind_eq_ok_iff.1 h
    obtain ⟨rest, rfl, rfl⟩ := Read.run_any_eq_ok_iff.1 hread
    rw [hatom, List.map_cons, List.map_cons]
    split at h
    · next value hverb hobject =>
      cases h
      obtain rfl : rest = [] := finished
      rw [hverb, hobject]
      exact .assign name value
    · next content hverb hobject =>
      cases h
      obtain rfl : rest = [] := finished
      rw [hverb, hobject]
      exact .describe name content
    · cases h
    · cases h
    · cases h
  · next hargument =>
    obtain ⟨id, _, hread, h⟩ := Read.run_bind_eq_ok_iff.1 h
    obtain ⟨identifier, rest, hid, rfl, rfl⟩ := Read.run_identifier_eq_ok_iff.1 hread
    obtain ⟨assign, _, hread, h⟩ := Read.run_bind_eq_ok_iff.1 h
    obtain ⟨hassign, rest, rfl, rfl⟩ := Read.run_expect_eq_ok_iff.1 hread
    obtain ⟨argument, _, hread, h⟩ := Read.run_bind_eq_ok_iff.1 h
    have spelled := (Argument.run_read_eq_ok_iff.1 hread).1
    cases h
    rw [hargument, List.map_cons, List.map_cons, hid, hassign]
    exact .declare id spelled
  · next query hquery =>
    obtain ⟨id, _, hread, h⟩ := Read.run_bind_eq_ok_iff.1 h
    obtain ⟨identifier, rest, hid, rfl, rfl⟩ := Read.run_identifier_eq_ok_iff.1 hread
    cases h
    obtain rfl : rest = [] := finished
    rw [hquery, List.map_singleton, hid]
    exact .ask query id
  · cases h

theorem readBehind_of_word {line : String} {head : Lexeme} {rest : List Lexeme}
    {statement : Statement} (h : AnyWord (head.token :: rest.map Lexeme.token) statement) :
    (readBehind head).run ⟨line, rest⟩ = (.ok statement, ⟨line, []⟩) := by
  generalize spelled : head.token :: rest.map Lexeme.token = tokens at h
  unfold readBehind
  cases h with
  | blank =>
    obtain ⟨hprint, hrest⟩ := List.cons_eq_cons.1 spelled
    rw [hprint, List.map_eq_nil_iff.1 hrest]
    rfl
  | print content =>
    obtain ⟨hprint, hrest⟩ := List.cons_eq_cons.1 spelled
    obtain ⟨text, rfl, htext⟩ := List.map_eq_singleton_iff.1 hrest
    rw [hprint]
    simp only [Read.run_bind, Read.run_next?, List.head?_cons, List.tail_cons, htext]
    rfl
  | assign name value =>
    obtain ⟨hatom, hrest⟩ := List.cons_eq_cons.1 spelled
    obtain ⟨verb, tail, rfl, hverb, htail⟩ := List.map_eq_cons_iff.1 hrest
    obtain ⟨object, rfl, hobject⟩ := List.map_eq_singleton_iff.1 htail
    rw [hatom]
    simp only [Read.run_bind, Read.run_any, hverb, hobject]
    rfl
  | describe name content =>
    obtain ⟨hatom, hrest⟩ := List.cons_eq_cons.1 spelled
    obtain ⟨verb, tail, rfl, hverb, htail⟩ := List.map_eq_cons_iff.1 hrest
    obtain ⟨object, rfl, hobject⟩ := List.map_eq_singleton_iff.1 htail
    rw [hatom]
    simp only [Read.run_bind, Read.run_any, hverb, hobject]
    rfl
  | ask query id =>
    obtain ⟨hquery, hrest⟩ := List.cons_eq_cons.1 spelled
    obtain ⟨identifier, rfl, hid⟩ := List.map_eq_singleton_iff.1 hrest
    rw [hquery]
    simp only [Read.run_bind, Read.run_identifier, hid]
    rfl
  | declare id hargument =>
    obtain ⟨hhead, hrest⟩ := List.cons_eq_cons.1 spelled
    obtain ⟨identifier, tail, rfl, hid, htail⟩ := List.map_eq_cons_iff.1 hrest
    obtain ⟨assign, tail, rfl, hassign, htail⟩ := List.map_eq_cons_iff.1 htail
    rw [← htail] at hargument
    rw [hhead]
    simp only [Read.run_bind, Read.run_identifier, Read.run_expect, hid, if_pos hassign,
      Argument.run_read_eq_ok_iff.2 ⟨hargument, rfl⟩]
    rfl

end Statement

/-- A line is read as a statement just if its tokens spell that statement. -/
theorem Line.statement?_eq_some_iff_word {line : Line} {statement : Statement} :
    line.statement? = .ok (some statement) ↔ Statement.AnyWord line.tokens statement := by
  rcases line with ⟨text, _ | ⟨head, rest⟩⟩
  · constructor
    · intro h
      cases h
    · intro h
      cases h
  · have start : (⟨text, head :: rest⟩ : Line).statement? =
        ((Statement.readBehind head >>= fun statement => do
          Read.finish; return some statement).run ⟨text, rest⟩).1 := rfl
    rw [start]
    constructor
    · intro h
      obtain ⟨found, between, hread, h⟩ := Read.run_bind_eq_ok_iff.1 (Prod.ext h rfl)
      obtain ⟨⟨⟩, last, hfinish, h⟩ := Read.run_bind_eq_ok_iff.1 h
      obtain ⟨finished, -⟩ := Read.run_finish_eq_ok_iff.1 hfinish
      cases h
      exact Statement.word_of_readBehind hread finished
    · intro h
      rw [Read.run_bind, Statement.readBehind_of_word h]
      rfl

namespace Line

theorem statement?_eq_none_iff {line : Line} : line.statement? = .ok none ↔ line.tokens = [] := by
  rcases line with ⟨text, _ | ⟨head, rest⟩⟩
  · exact ⟨fun _ => rfl, fun _ => rfl⟩
  · constructor
    · intro h
      obtain ⟨first, between, hread, h⟩ := Read.run_bind_eq_ok_iff.1 (Prod.ext h rfl)
      -- there is a lexeme, so what comes of the line is a statement or a failure
      cases hread
      obtain ⟨statement, between, -, h⟩ := Read.run_bind_eq_ok_iff.1 h
      obtain ⟨⟨⟩, last, -, h⟩ := Read.run_bind_eq_ok_iff.1 h
      cases h
    · intro none
      cases none

theorem statement?_eq_declare_iff {line : Line} {id : String} {argument : Argument} :
    line.statement? = .ok (some (.declare id argument)) ↔
      ∃ tokens, line.tokens = .argument :: .identifier id :: .assign :: tokens ∧
        Argument.AnyWord tokens argument := by
  rw [statement?_eq_some_iff_word]
  constructor
  · intro h
    generalize spelled : line.tokens = tokens at h
    cases h with
    | declare _ hargument => exact ⟨_, rfl, hargument⟩
  · rintro ⟨tokens, spelled, hargument⟩
    rw [spelled]
    exact .declare id hargument

theorem statement?_eq_error_iff {line : Line} :
    (∃ failure, line.statement? = .error failure) ↔
      line.tokens ≠ [] ∧ ∀ statement, ¬ Statement.AnyWord line.tokens statement := by
  constructor
  · rintro ⟨failure, refused⟩
    refine ⟨fun none => ?_, fun statement spelled => ?_⟩
    · rw [statement?_eq_none_iff.2 none] at refused
      cases refused
    · rw [statement?_eq_some_iff_word.2 spelled] at refused
      cases refused
  · rintro ⟨present, wordless⟩
    rcases result : line.statement? with failure | _ | statement
    · exact ⟨failure, rfl⟩
    · exact absurd (statement?_eq_none_iff.1 result) present
    · exact absurd (statement?_eq_some_iff_word.1 result) (wordless statement)

/-- Whatever lexemes there are, in a line or behind some place of it, the grammar says what comes of
them.  An argument is read just where they spell it: premises with commas anywhere between them,
then possibly `∴`, a conclusion and one closing bracket.  All of them are taken then, and anything
else fails.  A line without lexemes is no statement, any other one is the statement that its
lexemes spell, and the remaining lines fail. -/
theorem statement_reads_words :
    (∀ line pending argument behind,
      Argument.read.run ⟨line, pending⟩ = (.ok argument, behind) ↔
        Argument.AnyWord (pending.map Lexeme.token) argument ∧ behind = ⟨line, []⟩) ∧
    (∀ line pending,
      (∃ failure behind, Argument.read.run ⟨line, pending⟩ = (.error failure, behind)) ↔
        ∀ argument, ¬ Argument.AnyWord (pending.map Lexeme.token) argument) ∧
    ∀ line : Line,
      (line.statement? = .ok none ↔ line.tokens = []) ∧
      (∀ id argument, line.statement? = .ok (some (.declare id argument)) ↔
        ∃ tokens, line.tokens = .argument :: .identifier id :: .assign :: tokens ∧
          Argument.AnyWord tokens argument) ∧
      (∀ statement, line.statement? = .ok (some statement) ↔
        Statement.AnyWord line.tokens statement) ∧
      ((∃ failure, line.statement? = .error failure) ↔
        line.tokens ≠ [] ∧ ∀ statement, ¬ Statement.AnyWord line.tokens statement) :=
  ⟨fun _ _ _ _ => Argument.run_read_eq_ok_iff, fun _ _ => Argument.run_read_eq_error_iff,
    fun _ => ⟨statement?_eq_none_iff, fun _ _ => statement?_eq_declare_iff,
      fun _ => statement?_eq_some_iff_word, statement?_eq_error_iff⟩⟩

end Line

end Entailment
