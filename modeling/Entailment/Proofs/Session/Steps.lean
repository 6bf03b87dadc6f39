import Mathlib.Data.List.Forall2
import Entailment.Session.Run

/-!
# Steps of a session

A session is given statements, lines and texts of lines in any mixture, and it goes on where one of
them fails.  What a step says is the same in every session: a statement, nothing at all, or what
keeps it from being read.

* `Session.perform_eq`: the session comes in only with the statement that is executed.
* `Session.performs_related`: what relates two sessions step by step relates them at every step of a
  run.
-/

namespace Entailment

/-- What a session can be given. -/
inductive Step where
  | statement (statement : Statement)
  /-- A line with its lexemes, whatever these are. -/
  | line (line : Line)
  | text (text : String)

/-- The statement that a step stands for, `none` if there is nothing to execute. -/
def Step.statement? : Step → Except Failure (Option Statement)
  | statement it => .ok (some it)
  | line it => it.statement?
  | text it => Line.ofText it >>= Line.statement?

namespace Session

def perform (session : Session) : Step → Except Failure (Option Outcome) × Session
  | .statement it => ((session.execute it).1.map some, (session.execute it).2)
  | .line it => session.executeLine it
  | .text it => session.enter it

/-- Takes steps in order, going on where one fails: the result of each step with the session behind
it. -/
def performs (session : Session) : List Step → List (Except Failure (Option Outcome) × Session)
  | [] => []
  | step :: steps => session.perform step :: (session.perform step).2.performs steps

theorem perform_eq (session : Session) (step : Step) :
    session.perform step =
      match step.statement? with
      | .error failure => (.error failure, session)
      | .ok none => (.ok none, session)
      | .ok (some it) => ((session.execute it).1.map some, (session.execute it).2) := by
  cases step with
  | statement it => rfl
  | line it => rfl
  | text it =>
    have said : (Step.text it).statement? = Line.ofText it >>= Line.statement? := rfl
    rw [said, perform, enter]
    cases Line.ofText it with
    | error failure => rfl
    | ok line => rfl

/-- What relates two sessions before and behind each step they take relates them throughout. -/
theorem performs_related
    (Agree : Except Failure (Option Outcome) → Except Failure (Option Outcome) → Prop)
    (Related : Session → Session → Prop)
    (step : ∀ first second it, Related first second →
      Agree (first.perform it).1 (second.perform it).1 ∧
        Related (first.perform it).2 (second.perform it).2)
    {first second : Session} (start : Related first second) (steps : List Step) :
    List.Forall₂ (fun one other => Agree one.1 other.1 ∧ Related one.2 other.2)
      (first.performs steps) (second.performs steps) := by
  induction steps generalizing first second with
  | nil => exact .nil
  | cons it others ih =>
    have both := step first second it start
    exact .cons both (ih both.2)

end Session

end Entailment
