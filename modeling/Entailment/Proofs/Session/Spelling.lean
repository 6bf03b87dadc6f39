import Entailment.Proofs.Line.Canonical
import Entailment.Proofs.Session.Lines
import Entailment.Proofs.Statement.Refusals

/-!
# Programs with the same tokens

How the tokens of a program are spelled and laid out over its lines shows in the failures only.  Two
programs that have the same tokens line by line give the same outcomes and lead to the same session.
If one of them fails, so does the other, at the same line and for the same cause; only the symbol
and the place that are named may differ, and these only where the line is no statement.

* `Failure.cause`: what a failure says without the text it is found in.
* `Line.statement?_of_same_tokens`: two lines with the same tokens are the same statement, or none.
* `Session.HaltsAt`: the line at which a program stops, and the session it has come to.

Main statement: `Session.run_of_same_tokens`.
-/

namespace Entailment

/-- What can go wrong, without where it does. -/
inductive Failure.Cause where
  | character
  | symbol
  | endOfLine
  | exhausted
  | unbound
  | undeclared
  | unsupported
  | tooManyVariables
  deriving DecidableEq

/-- The cause of a failure, without the text in which it is found. -/
def Failure.cause : Failure → Failure.Cause
  | .character .. => .character
  | .symbol .. => .symbol
  | .endOfLine _ => .endOfLine
  | .exhausted _ => .exhausted
  | .unbound _ => .unbound
  | .undeclared _ => .undeclared
  | .unsupported _ => .unsupported
  | .tooManyVariables .. => .tooManyVariables

/-! ## Lines with the same tokens -/

namespace Line

/-- A line that a program can have: it was read from a text, and it is not empty. -/
structure OfProgram (line : Line) : Prop where
  read : ∃ text, ofText text = .ok line
  present : line.lexemes ≠ []

theorem ofProgram_of_mapM {texts : List String} {lines : List Line}
    (h : texts.mapM ofText = .ok lines) {line : Line} (mem : line ∈ lines)
    (present : line.lexemes ≠ []) : line.OfProgram := by
  induction texts generalizing lines with
  | nil =>
    cases h
    cases mem
  | cons text texts ih =>
    obtain ⟨first, rest, read, others, rfl⟩ := mapM_ofText_cons_eq_ok_iff.1 h
    rcases List.mem_cons.1 mem with rfl | mem
    · exact ⟨⟨text, read⟩, present⟩
    · exact ih others mem

theorem ofProgram_of_mem {source : String} {lines : List Line} (h : program source = .ok lines)
    {line : Line} (mem : line ∈ lines) : line.OfProgram := by
  obtain ⟨all, read, kept⟩ := bind_eq_ok_iff.1 h
  cases kept
  obtain ⟨found, present⟩ := List.mem_filter.1 mem
  exact ofProgram_of_mapM read found (by simpa using present)

/-- A line of a program is a statement, or a symbol keeps it from being one. -/
theorem OfProgram.statement?_or_symbol {line : Line} (h : line.OfProgram) :
    (∃ statement, line.statement? = .ok (some statement)) ∨
      ∃ failure, line.statement? = .error failure ∧ failure.cause = .symbol := by
  obtain ⟨⟨text, read⟩, present⟩ := h
  rcases statement?_or_stops present with accepted | ⟨failure, refused, stops⟩
  · exact .inl accepted
  · refine .inr ⟨failure, refused, ?_⟩
    rcases refusal_of_laid (laid_of_ofText read) stops with ⟨lexeme, -, rfl⟩ | ⟨rfl, -⟩ <;> rfl

/-- Two lines with the same tokens are the same statement, or the same cause keeps both from being
one. -/
theorem OfProgram.statement?_of_same_tokens {first second : Line} (h : first.OfProgram)
    (h' : second.OfProgram) (same : first.tokens = second.tokens) :
    (∃ statement, first.statement? = .ok (some statement) ∧
      second.statement? = .ok (some statement)) ∨
    ∃ failure failure', first.statement? = .error failure ∧ second.statement? = .error failure' ∧
      failure.cause = failure'.cause := by
  have carries {one other : Line} (same : one.tokens = other.tokens) {statement : Statement}
      (accepted : one.statement? = .ok (some statement)) :
      other.statement? = .ok (some statement) := by
    rw [statement?_eq_some_iff_word] at accepted ⊢
    rwa [← same]
  rcases h.statement?_or_symbol with ⟨statement, accepted⟩ | ⟨failure, refused, symbol⟩
  · exact .inl ⟨statement, accepted, carries same accepted⟩
  · rcases h'.statement?_or_symbol with ⟨statement, accepted⟩ | ⟨failure', refused', symbol'⟩
    · rw [carries same.symm accepted] at refused
      cases refused
    · exact .inr ⟨failure, failure', refused, refused', symbol.trans symbol'.symm⟩

end Line

/-! ## Programs with the same tokens -/

namespace Session

/-- Two lines fail in a session: neither is a statement, for the same cause, or both are the same
statement, and this fails. -/
inductive FailsAlike (session : Session) (first second : Line) : Failure → Failure → Prop where
  | reading {failure failure' : Failure} :
      first.statement? = .error failure → second.statement? = .error failure' →
      failure.cause = failure'.cause → FailsAlike session first second failure failure'
  | executing {statement : Statement} {failure : Failure} :
      first.statement? = .ok (some statement) → second.statement? = .ok (some statement) →
      session.execute statement = (.error failure, session) →
      FailsAlike session first second failure failure

/-- The lines of a program are executed up to the one with this index, which fails in the session
that they have led to. -/
inductive HaltsAt : Session → List Line → Nat → Line → Session → Failure → Prop where
  | here {session : Session} {line : Line} {lines : List Line} {failure : Failure} :
      session.executeLine line = (.error failure, session) →
      HaltsAt session (line :: lines) 0 line session failure
  | next {session between last : Session} {first line : Line} {lines : List Line} {index : Nat}
      {outcome : Option Outcome} {failure : Failure} :
      session.executeLine first = (.ok outcome, between) →
      HaltsAt between lines index line last failure →
      HaltsAt session (first :: lines) (index + 1) line last failure

/-- What comes of two programs that differ in how they are spelled: the same, or they halt at lines
with the same index, which fail alike. -/
inductive RunsAlike (session : Session) (lines lines' : List Line) :
    Except Failure (List Outcome) × Session → Except Failure (List Outcome) × Session → Prop where
  | done (outcomes : List Outcome) (last : Session) :
      RunsAlike session lines lines' (.ok outcomes, last) (.ok outcomes, last)
  | halted {index : Nat} {line line' : Line} {last : Session} {failure failure' : Failure} :
      session.HaltsAt lines index line last failure →
      session.HaltsAt lines' index line' last failure' →
      last.FailsAlike line line' failure failure' →
      RunsAlike session lines lines' (.error failure, last) (.error failure', last)

variable {session between : Session} {first second : Line} {lines lines' : List Line}
  {failure failure' : Failure}

theorem executeLine_of_refused (h : first.statement? = .error failure) :
    session.executeLine first = (.error failure, session) := by
  rw [executeLine, h]

/-- A line that is a statement does what the statement does. -/
theorem executeLine_of_statement {statement : Statement}
    (h : first.statement? = .ok (some statement)) :
    session.executeLine first =
      ((session.execute statement).1.map some, (session.execute statement).2) := by
  rw [executeLine, h]

theorem FailsAlike.executeLine (h : session.FailsAlike first second failure failure') :
    session.executeLine first = (.error failure, session) ∧
      session.executeLine second = (.error failure', session) := by
  cases h with
  | reading refused refused' _ =>
    exact ⟨executeLine_of_refused refused, executeLine_of_refused refused'⟩
  | executing accepted accepted' fails =>
    rw [executeLine_of_statement accepted, executeLine_of_statement accepted', fails]
    exact ⟨rfl, rfl⟩

/-- Lines with the same tokens do the same in a session, or fail alike. -/
theorem executeLine_of_same_tokens (h : first.OfProgram) (h' : second.OfProgram)
    (same : first.tokens = second.tokens) (session : Session) :
    (∃ outcome after, session.executeLine first = (.ok outcome, after) ∧
      session.executeLine second = (.ok outcome, after)) ∨
    ∃ failure failure', session.FailsAlike first second failure failure' := by
  rcases h.statement?_of_same_tokens h' same with
    ⟨statement, accepted, accepted'⟩ | ⟨failure, failure', refused, refused', cause⟩
  · rcases executed : session.execute statement with ⟨failure | outcome, after⟩
    · obtain rfl := execute_error executed
      exact .inr ⟨failure, failure, .executing accepted accepted' executed⟩
    · refine .inl ⟨some outcome, after, ?_, ?_⟩
      · rw [executeLine_of_statement accepted, executed]
        rfl
      · rw [executeLine_of_statement accepted', executed]
        rfl
  · exact .inr ⟨failure, failure', .reading refused refused' cause⟩

theorem RunsAlike.same_session {result result' : Except Failure (List Outcome) × Session}
    (h : session.RunsAlike lines lines' result result') : result.2 = result'.2 := by
  cases h <;> rfl

theorem RunsAlike.cons {outcome : Option Outcome}
    (executed : session.executeLine first = (.ok outcome, between))
    (executed' : session.executeLine second = (.ok outcome, between))
    (h : between.RunsAlike lines lines' (between.executeLines lines)
      (between.executeLines lines')) :
    session.RunsAlike (first :: lines) (second :: lines') (session.executeLines (first :: lines))
      (session.executeLines (second :: lines')) := by
  rw [executeLines, executeLines, executed, executed']
  dsimp only
  generalize between.executeLines lines = result at h
  generalize between.executeLines lines' = result' at h
  cases h with
  | done outcomes last => exact .done _ last
  | halted halts halts' alike => exact .halted (.next executed halts) (.next executed' halts') alike

/-- The lines of two programs that have the same tokens run alike. -/
theorem executeLines_of_same_tokens (read : ∀ line ∈ lines, line.OfProgram)
    (read' : ∀ line ∈ lines', line.OfProgram)
    (same : lines.map Line.tokens = lines'.map Line.tokens) (session : Session) :
    session.RunsAlike lines lines' (session.executeLines lines) (session.executeLines lines') := by
  induction lines generalizing lines' session with
  | nil =>
    obtain rfl : lines' = [] := List.map_eq_nil_iff.1 same.symm
    exact .done [] session
  | cons first others ih =>
    obtain ⟨second, others', rfl, tokens, rest⟩ := List.map_eq_cons_iff.1 same.symm
    rw [List.forall_mem_cons] at read read'
    rcases executeLine_of_same_tokens read.1 read'.1 tokens.symm session with
      ⟨outcome, between, executed, executed'⟩ | ⟨failure, failure', alike⟩
    · exact .cons executed executed' (ih read.2 read'.2 rest.symm between)
    · obtain ⟨fails, fails'⟩ := alike.executeLine
      rw [executeLines, executeLines, fails, fails']
      exact .halted (.here fails) (.here fails') alike

/-- How the tokens of a program are spelled and laid out makes no difference to the session that it
leads to, nor to its outcomes.  A program that fails does so at the same statement, and with the
same failure unless it is the statement itself that cannot be read; then the cause is the same. -/
theorem run_of_same_tokens (session : Session) {source source' : String}
    (read : Line.program source = .ok lines) (read' : Line.program source' = .ok lines')
    (same : lines.map Line.tokens = lines'.map Line.tokens) :
    (session.run source).2 = (session.run source').2 ∧
      session.RunsAlike lines lines' (session.run source) (session.run source') := by
  have alike : session.RunsAlike lines lines' (session.run source) (session.run source') := by
    unfold run
    rw [read, read']
    exact executeLines_of_same_tokens (fun _ => Line.ofProgram_of_mem read)
      (fun _ => Line.ofProgram_of_mem read') same session
  exact ⟨alike.same_session, alike⟩

/-- A bracket around one formula is no argument.  Where the second formula is missing depends on the
blanks of the line. -/
theorem run_of_same_tokens_bare_bracket :
    let source := "P:=true\nargument a:=(!P)"
    let source' := "// one\r\n\tP := true\r\n\n argument a := ( ¬ P )"
    let tokens : List (List Token) := [[.atom "P", .assign, .truth true],
      [.argument, .identifier "a", .assign, .leftParenthesis, .not, .atom "P", .rightParenthesis]]
    ∃ lines lines', Line.program source = .ok lines ∧ Line.program source' = .ok lines' ∧
      lines.map Line.tokens = tokens ∧ lines'.map Line.tokens = tokens ∧
      (({} : Session).run source).1 = .error (.symbol "" 16 "argument a:=(!P)") ∧
      (({} : Session).run source').1 = .error (.symbol "" 22 " argument a := ( ¬ P )") ∧
      (({} : Session).run source).2 = (({} : Session).run source').2 ∧
      ({} : Session).RunsAlike lines lines' (({} : Session).run source)
        (({} : Session).run source') := by
  intro source source' tokens
  have scanned : List.map Line.tokens <$> Line.program source = .ok tokens := by decide +kernel
  have scanned' : List.map Line.tokens <$> Line.program source' = .ok tokens := by decide +kernel
  cases read : Line.program source with
  | error failure =>
    rw [read] at scanned
    cases scanned
  | ok lines =>
    cases read' : Line.program source' with
    | error failure =>
      rw [read'] at scanned'
      cases scanned'
    | ok lines' =>
      rw [read] at scanned
      rw [read'] at scanned'
      have found : lines.map Line.tokens = tokens := Except.ok.inj scanned
      have found' : lines'.map Line.tokens = tokens := Except.ok.inj scanned'
      exact ⟨lines, lines', rfl, rfl, found, found', by decide +kernel, by decide +kernel,
        run_of_same_tokens {} read read' (found.trans found'.symm)⟩

end Session

end Entailment
