import Entailment.Proofs.Session.Lines
import Entailment.Proofs.Statement.Writable

/-!
# Sessions that can be reached

Lines and programs fill the tables of a session.  Whatever texts these are, and whether they fail or
not, each entry of the tables of values, descriptions and arguments is one that a line can make.

Main statement: `Session.Reachable.savable`.
-/

namespace Entailment

open Token (isAtomName isIdentifier)

namespace Session

/-- The sessions that lines and programs lead to from one without entries. -/
inductive Reachable : Session → Prop where
  | fresh (limit : Option Nat) : Reachable { limit }
  | enter {session : Session} (text : String) : Reachable session →
      Reachable (session.enter text).2
  | run {session : Session} (source : String) : Reachable session →
      Reachable (session.run source).2

/-- Each value, description and argument could have come from a line. -/
structure Savable (session : Session) : Prop where
  values : ∀ name value, session.values[name]? = some value → isAtomName name = true
  descriptions : ∀ name text, session.descriptions[name]? = some text →
    isAtomName name = true ∧ '"' ∉ text.toList
  arguments : ∀ id argument, session.arguments[id]? = some argument →
    isIdentifier id = true ∧ argument.Writable

namespace Savable

variable {session : Session} {statement : Statement}

theorem fresh (limit : Option Nat) : Savable { limit } where
  values _ _ h := by simp at h
  descriptions _ _ h := by simp at h
  arguments _ _ h := by simp at h

theorem record (h : session.Savable) (writable : statement.Writable) {outcome : Outcome}
    (produced : session.outcome statement = .ok outcome) : (session.record outcome).Savable := by
  cases statement with
  | print text =>
    cases produced
    exact h
  | assign name value =>
    cases produced
    exact ⟨Dictionary.forall_insert h.values writable, h.descriptions, h.arguments⟩
  | describe name text =>
    cases produced
    exact ⟨h.values, Dictionary.forall_insert h.descriptions writable, h.arguments⟩
  | declare id argument =>
    cases produced
    exact ⟨h.values, h.descriptions, Dictionary.forall_insert h.arguments writable⟩
  | ask query id =>
    obtain ⟨argument, result, -, -, -, rfl⟩ := outcome_ask_eq_ok_iff.1 produced
    -- an answer goes into another table
    cases query <;> exact ⟨h.values, h.descriptions, h.arguments⟩

theorem execute (h : session.Savable) (writable : statement.Writable) :
    (session.execute statement).2.Savable := by
  unfold Session.execute
  split
  · next outcome produced => exact h.record writable produced
  · exact h

theorem enter (h : session.Savable) (text : String) : (session.enter text).2.Savable := by
  unfold Session.enter
  split
  · exact h
  · next line read =>
    unfold executeLine
    split
    · exact h
    · exact h
    · next statement spelled => exact h.execute (Line.writable_of_statement? read spelled)

theorem run (h : session.Savable) (source : String) : (session.run source).2.Savable :=
  run_preserves (fun _ text start => start.enter text) source h

end Savable

/-- Whatever texts were entered and run, each value, description and argument could have come from a
line. -/
theorem Reachable.savable {session : Session} (h : Reachable session) : session.Savable := by
  induction h with
  | fresh limit => exact .fresh limit
  | enter text _ ih => exact ih.enter text
  | run source _ ih => exact ih.run source

end Session

end Entailment
