import Entailment.Proofs.Argument.Refusals
import Entailment.Proofs.Line.Scanned
import Entailment.Proofs.Statement.LineGrammar

/-!
# Lines that are no statement

Reading a statement fails at a lexeme, or because the line runs out.  In a well laid line it runs
out in one way only: it is a declaration, and a bracket around one formula closes it.  The closing
bracket is taken for the token between two formulas, and the second one is missing.

* `Line.statement?_or_stops`: what can keep lexemes from being read as a statement.
* `Line.refusal_of_laid`: which of it the layout of a line leaves.
* `Line.ofText_never_exhausts`: what comes of a line that has lexemes.
-/

namespace Entailment

open Token (Laid)

namespace Statement

open Formula (Awaited)

/-- The tokens of a line that stops before its statement can have an object. -/
inductive Fragment : List Token → Prop where
  | atom (name : String) : Fragment [.atom name]
  | verb (name : String) (verb : Token) : Fragment [.atom name, verb]
  | argument : Fragment [.argument]
  | declaration (id : String) : Fragment [.argument, .identifier id]
  | query (query : Query) : Fragment [.query query]

/-- What can keep lexemes from being read as a statement. -/
inductive Stops (line : String) (lexemes : List Lexeme) : Failure → Prop where
  | lexeme {lexeme : Lexeme} : lexeme ∈ lexemes → Stops line lexemes (lexeme.unexpected line)
  | fragment : Fragment (lexemes.map Lexeme.token) → Stops line lexemes (.exhausted line)
  | argument {awaited : Awaited} {tokens : List Token} (id : String) :
      lexemes.map Lexeme.token = .argument :: .identifier id :: .assign :: tokens →
      Argument.Unfinished awaited tokens → Stops line lexemes (awaited.failure line)

/-- What comes of reading the rest of a line: a statement with some lexemes left over, or a failure
of the whole line. -/
inductive Ending (line : String) (head : Lexeme) (rest : List Lexeme) :
    Except Failure Statement × Reader → Prop where
  | read {statement : Statement} {pending : List Lexeme} :
      pending <:+ rest → Ending line head rest (.ok statement, ⟨line, pending⟩)
  | stopped {failure : Failure} {behind : Reader} :
      Stops line (head :: rest) failure → Ending line head rest (.error failure, behind)

section

variable {line : String} {head : Lexeme} {rest : List Lexeme}

theorem mem_second {lexeme : Lexeme} : lexeme ∈ head :: lexeme :: rest :=
  List.mem_cons_of_mem _ List.mem_cons_self

theorem mem_third {between lexeme : Lexeme} : lexeme ∈ head :: between :: lexeme :: rest :=
  List.mem_cons_of_mem _ mem_second

theorem ending_print (hprint : head.token = .print) :
    Ending line head rest ((readBehind head).run ⟨line, rest⟩) := by
  rw [readBehind, hprint]
  dsimp only
  rcases rest with _ | ⟨lexeme, more⟩
  · exact .read (List.suffix_refl _)
  · simp only [Read.run_bind, Read.run_next?, List.head?_cons, List.tail_cons]
    split
    · exact .read (List.suffix_cons _ _)
    · exact .stopped (.lexeme mem_second)

theorem ending_atom {name : String} (hatom : head.token = .atom name) :
    Ending line head rest ((readBehind head).run ⟨line, rest⟩) := by
  rw [readBehind, hatom]
  dsimp only
  rcases rest with _ | ⟨verb, _ | ⟨object, more⟩⟩
  · apply Ending.stopped
    apply Stops.fragment
    rw [List.map_singleton, hatom]
    exact .atom name
  · apply Ending.stopped
    apply Stops.fragment
    rw [List.map_cons, List.map_singleton, hatom]
    exact .verb name verb.token
  · have behind : more <:+ verb :: object :: more := ⟨[verb, object], rfl⟩
    simp only [Read.run_bind, Read.run_any]
    split
    · exact .read behind
    · exact .read behind
    · exact .stopped (.lexeme mem_third)
    · exact .stopped (.lexeme mem_third)
    · exact .stopped (.lexeme mem_second)

theorem ending_argument (hargument : head.token = .argument) :
    Ending line head rest ((readBehind head).run ⟨line, rest⟩) := by
  rw [readBehind, hargument]
  dsimp only
  rcases rest with _ | ⟨identifier, _ | ⟨assign, others⟩⟩
  · apply Ending.stopped
    apply Stops.fragment
    rw [List.map_singleton, hargument]
    exact .argument
  · simp only [Read.run_bind, Read.run_identifier, Read.run_expect]
    cases hid : identifier.token
    case identifier id =>
      apply Ending.stopped
      apply Stops.fragment
      rw [List.map_cons, List.map_singleton, hargument, hid]
      exact .declaration id
    all_goals exact .stopped (.lexeme mem_second)
  · simp only [Read.run_bind, Read.run_identifier, Read.run_expect]
    cases hid : identifier.token
    case identifier id =>
      by_cases hassign : assign.token = .assign
      · simp only [if_pos hassign, Argument.read, Read.run_ofStep]
        rcases found : Argument.readFrom line {} others with ⟨failure | argument, left⟩
        · apply Ending.stopped
          cases Argument.stops_of_readFrom found with
          | lexeme mem =>
            have inside : others <:+ head :: identifier :: assign :: others :=
              ⟨[head, identifier, assign], rfl⟩
            exact .lexeme (inside.subset mem)
          | short unfinished =>
            refine .argument id ?_ unfinished
            rw [List.map_cons, List.map_cons, List.map_cons, hargument, hid, hassign]
        · obtain ⟨rfl, -⟩ := Argument.readFrom_eq_ok_iff_word.1 found
          exact .read (List.nil_suffix)
      · simp only [if_neg hassign]
        exact .stopped (.lexeme mem_third)
    all_goals exact .stopped (.lexeme mem_second)

theorem ending_query {query : Query} (hquery : head.token = .query query) :
    Ending line head rest ((readBehind head).run ⟨line, rest⟩) := by
  rw [readBehind, hquery]
  dsimp only
  rcases rest with _ | ⟨identifier, more⟩
  · apply Ending.stopped
    apply Stops.fragment
    rw [List.map_singleton, hquery]
    exact .query query
  · simp only [Read.run_bind, Read.run_identifier]
    cases hid : identifier.token
    case identifier id => exact .read (List.suffix_cons _ _)
    all_goals exact .stopped (.lexeme mem_second)

theorem ending_readBehind (line : String) (head : Lexeme) (rest : List Lexeme) :
    Ending line head rest ((readBehind head).run ⟨line, rest⟩) := by
  cases htoken : head.token
  case print => exact ending_print htoken
  case atom => exact ending_atom htoken
  case argument => exact ending_argument htoken
  case query => exact ending_query htoken
  all_goals
    rw [readBehind, htoken]
    exact .stopped (.lexeme List.mem_cons_self)

end

/-! ## What the layout of a line leaves of it -/

/-- The layout of a line asks for more behind a fragment, or refuses it. -/
theorem Fragment.not_laid {tokens : List Token} (h : Fragment tokens) : ¬ Laid tokens := by
  intro laid
  cases h with
  | verb name verb =>
    -- a bracket closes nothing here, and whatever else follows an atom has an object
    have follows := (List.isChain_cons_cons.1 laid.follows).1
    rcases Formula.announces_or_closing (.inl ⟨name, rfl⟩) follows with announces | rfl
    · rw [laid.not_announces (List.suffix_cons _ _)] at announces
      cases announces
    · cases laid.balanced
  | _ => cases laid.complete

end Statement

namespace Line

/-- A line that has lexemes is a statement, or it is refused at one of them, or it runs out. -/
theorem statement?_or_stops {line : Line} (present : line.lexemes ≠ []) :
    (∃ statement, line.statement? = .ok (some statement)) ∨
      ∃ failure, line.statement? = .error failure ∧
        Statement.Stops line.text line.lexemes failure := by
  rcases line with ⟨text, _ | ⟨head, rest⟩⟩
  · exact absurd rfl present
  · have start : (⟨text, head :: rest⟩ : Line).statement? =
        ((Statement.readBehind head >>= fun statement => do
          Read.finish; return some statement).run ⟨text, rest⟩).1 := rfl
    have ending := Statement.ending_readBehind text head rest
    rw [start, Read.run_bind]
    generalize (Statement.readBehind head).run ⟨text, rest⟩ = outcome at ending ⊢
    cases ending with
    | @read statement pending behind =>
      cases pending with
      | nil => exact .inl ⟨statement, rfl⟩
      | cons extra others =>
        have mem : extra ∈ head :: rest :=
          List.mem_cons_of_mem _ (behind.subset List.mem_cons_self)
        exact .inr ⟨_, rfl, .lexeme mem⟩
    | stopped stops => exact .inr ⟨_, rfl, stops⟩

/-- The symbol is one of the lexemes of the line, and the position is where it stands. -/
def Holds (line : Line) (spelling : String) (position : Nat) : Prop :=
  spelling ≠ "" ∧
  (∃ lexeme ∈ line.lexemes, spelling = lexeme.spelling ∧ position = lexeme.position) ∧
  ∃ before behind, line.text.toList = before ++ spelling.toList ++ behind ∧
    position = before.length

/-- The line declares an argument, and what it ends with is a bracket around one formula. -/
def EndsBare (line : Line) : Prop :=
  ∃ id tokens bare, Formula.Bare bare ∧
    line.tokens = .argument :: .identifier id :: .assign :: (tokens ++ bare)

theorem holds_of_scan {text : String} {lexemes : List Lexeme}
    (scanned : Lexeme.scan text = .ok lexemes) {lexeme : Lexeme} (mem : lexeme ∈ lexemes) :
    Holds ⟨text, lexemes⟩ lexeme.spelling lexeme.position :=
  ⟨Lexeme.spelling_ne_of_scan scanned mem, ⟨lexeme, mem, rfl, rfl⟩,
    Lexeme.stands_of_scan scanned mem⟩

/-- A well laid line is refused at one of its lexemes, or where it ends with a bracket around one
formula. -/
theorem refusal_of_laid {line : Line} {failure : Failure} (laid : Laid line.tokens)
    (h : Statement.Stops line.text line.lexemes failure) :
    (∃ lexeme ∈ line.lexemes, failure = lexeme.unexpected line.text) ∨
      failure = Formula.due line.text ∧ line.EndsBare := by
  cases h with
  | lexeme mem => exact .inl ⟨_, mem, rfl⟩
  | fragment fragment => exact absurd laid fragment.not_laid
  | @argument awaited tokens id declared unfinished =>
    right
    have declared : line.tokens = .argument :: .identifier id :: .assign :: tokens := declared
    rw [declared] at laid
    have ends : tokens <:+ .argument :: .identifier id :: .assign :: tokens :=
      ⟨[.argument, .identifier id, .assign], rfl⟩
    have settled (last : Token) (stops : [last] <:+ tokens) : last.kind.announces = false :=
      laid.not_announces (stops.trans ends)
    obtain ⟨rfl, bare, ⟨before, rfl⟩, hbare⟩ :=
      unfinished.exists_bare laid.follows.tail.tail.tail laid.balanced settled
    exact ⟨rfl, id, before, bare, hbare, declared⟩

/-- A line that has lexemes is a statement, or it is refused with a symbol of the text.  The symbol
is one of its lexemes; or it is empty and stands at the end of the text, and then the line is a
declaration that ends with a bracket around one formula. -/
theorem ofText_never_exhausts {text : String} {line : Line} (read : ofText text = .ok line)
    (present : line.lexemes ≠ []) :
    (∃ statement, line.statement? = .ok (some statement)) ∨
    ∃ spelling position, line.statement? = .error (.symbol spelling position text) ∧
      (line.Holds spelling position ∨
        spelling = "" ∧ position = text.length ∧ line.EndsBare) := by
  obtain ⟨-, rfl⟩ | ⟨-, lexemes, scanned, laid, rfl⟩ := ofText_eq_ok_iff.1 read
  · exact absurd rfl present
  have laid : Laid (Line.tokens ⟨text, lexemes⟩) := laid
  rcases statement?_or_stops present with accepted | ⟨failure, refused, stops⟩
  · exact .inl accepted
  right
  rcases refusal_of_laid laid stops with ⟨lexeme, mem, rfl⟩ | ⟨rfl, bare⟩
  · exact ⟨lexeme.spelling, lexeme.position, refused, .inl (holds_of_scan scanned mem)⟩
  · exact ⟨"", text.length, refused, .inr ⟨rfl, rfl, bare⟩⟩

theorem ofText_never_exhausts_bare_bracket :
    ∃ line, ofText "argument a := (P)" = .ok line ∧ line.lexemes ≠ [] ∧
      line.statement? = .error (.symbol "" 17 "argument a := (P)") ∧
      ((∃ statement, line.statement? = .ok (some statement)) ∨
      ∃ spelling position,
        line.statement? = .error (.symbol spelling position "argument a := (P)") ∧
        (line.Holds spelling position ∨
          spelling = "" ∧ position = "argument a := (P)".length ∧ line.EndsBare)) := by
  have read : ofText "argument a := (P)" = .ok ⟨"argument a := (P)",
      [⟨.argument, "argument", 0⟩, ⟨.identifier "a", "a", 9⟩, ⟨.assign, ":=", 11⟩,
        ⟨.leftParenthesis, "(", 14⟩, ⟨.atom "P", "P", 15⟩, ⟨.rightParenthesis, ")", 16⟩]⟩ := by
    decide +kernel
  exact ⟨_, read, List.cons_ne_nil _ _, by decide +kernel,
    ofText_never_exhausts read (List.cons_ne_nil _ _)⟩

end Line

end Entailment
