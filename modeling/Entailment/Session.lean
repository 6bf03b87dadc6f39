import Entailment.Argument.Verdict
import Entailment.Outcome
import Entailment.Statement

/-!
# Sessions

A session holds what the statements of a program have assigned, described, declared and answered so
far.  A statement first gets its outcome from the session; only an outcome is then recorded in it.

## Main statement

`Session.execute_error`: a statement that fails leaves the session as it was.
-/

namespace Entailment

/-- The tables of a program in progress. -/
structure Session where
  /-- How many distinct atoms an answer may enumerate at most. -/
  limit : Option Nat := none
  values : Valuation := ∅
  descriptions : Dictionary String := ∅
  arguments : Dictionary Argument := ∅
  assertions : Dictionary Bool := ∅
  validations : Dictionary Bool := ∅
  valuations : Dictionary Bool := ∅

namespace Session

def answers (session : Session) : Query → Dictionary Bool
  | .tautology => session.assertions
  | .validity => session.validations
  | .value => session.valuations

def declared (session : Session) (id : String) : Except Failure Argument :=
  match session.arguments[id]? with
  | some argument => .ok argument
  | none => .error (.undeclared id)

/-- Refuses formulas that mention more distinct atoms than the limit. -/
def checkLimit (session : Session) (formulas : List Formula) : Except Failure Unit :=
  match session.limit with
  | none => .ok ()
  | some limit =>
    let names := Names.union (formulas.map Formula.names)
    if names.size > limit then .error (.tooManyVariables names.size limit) else .ok ()

/-- What a statement produces in a session. -/
def outcome (session : Session) : Statement → Except Failure Outcome
  | .print text => .ok (.printed text)
  | .assign name value => .ok (.assigned name value)
  | .describe name text => .ok (.described name text)
  | .declare id argument => .ok (.declared id argument)
  | .ask query id => do
    let argument ← session.declared id
    session.checkLimit (argument.enumerated query)
    let result ← argument.answer session.values query
    return .answered query id argument result

/-- The session with an outcome written into its table. -/
def record (session : Session) : Outcome → Session
  | .printed _ => session
  | .assigned name value => { session with values := session.values.insert name value }
  | .described name text =>
    { session with descriptions := session.descriptions.insert name text }
  | .declared id argument => { session with arguments := session.arguments.insert id argument }
  | .answered .tautology id _ result =>
    { session with assertions := session.assertions.insert id result }
  | .answered .validity id _ result =>
    { session with validations := session.validations.insert id result }
  | .answered .value id _ result =>
    { session with valuations := session.valuations.insert id result }

def execute (session : Session) (statement : Statement) : Except Failure Outcome × Session :=
  match session.outcome statement with
  | .ok outcome => (.ok outcome, session.record outcome)
  | .error failure => (.error failure, session)

/-- A question is answered about a declared argument that is within the limit. -/
theorem outcome_ask_eq_ok_iff {session : Session} {query : Query} {id : String}
    {outcome : Outcome} :
    session.outcome (.ask query id) = .ok outcome ↔ ∃ argument result,
      session.declared id = .ok argument ∧
      session.checkLimit (argument.enumerated query) = .ok () ∧
      argument.answer session.values query = .ok result ∧
      outcome = .answered query id argument result := by
  simp only [Session.outcome, bind_eq_ok_iff]
  constructor
  · rintro ⟨argument, found, ⟨⟩, allowed, result, answered, ⟨⟩⟩
    exact ⟨argument, result, found, allowed, answered, rfl⟩
  · rintro ⟨argument, result, found, allowed, answered, rfl⟩
    exact ⟨argument, found, (), allowed, result, answered, rfl⟩

/-- A statement that fails leaves the session as it was. -/
theorem execute_error {session after : Session} {statement : Statement} {failure : Failure}
    (h : session.execute statement = (.error failure, after)) : after = session := by
  unfold execute at h
  split at h
  · cases h
  · cases h
    rfl

end Session

end Entailment
