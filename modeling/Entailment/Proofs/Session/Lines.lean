import Mathlib.Data.List.ReduceOption
import Entailment.Session.Run

/-!
# Programs line by line

A program is read to its end before its first line is executed, and its empty lines are dropped.
Where every line can be read this makes no difference to entering the lines one after the other: the
outcomes, the failure that stops the program and the session behind it are the same.

Main statement: `Session.run_agrees_with_enter`.
-/

namespace Entailment

/-- The failure of a text that cannot be read as a line. -/
def Line.failure? (text : String) : Option Failure :=
  match Line.ofText text with
  | .ok _ => none
  | .error failure => some failure

theorem Line.program_of_failure {source : String} {failure : Failure}
    (h : (Text.lines source).findSome? Line.failure? = some failure) :
    Line.program source = .error failure := by
  have stops : (Text.lines source).mapM Line.ofText = .error failure := by
    generalize Text.lines source = texts at h
    induction texts with
    | nil => cases h
    | cons text texts ih =>
      rw [List.findSome?_cons] at h
      rw [List.mapM_cons]
      unfold Line.failure? at h
      cases read : Line.ofText text with
      | error first =>
        rw [read] at h
        cases h
        rfl
      | ok line =>
        rw [read] at h
        rw [ih h]
        rfl
  rw [Line.program, stops]
  rfl

theorem Line.mapM_ofText_cons_eq_ok_iff {text : String} {texts : List String} {lines : List Line} :
    (text :: texts).mapM Line.ofText = .ok lines ↔
      ∃ line rest, Line.ofText text = .ok line ∧ texts.mapM Line.ofText = .ok rest ∧
        lines = line :: rest := by
  rw [List.mapM_cons, bind_eq_ok_iff]
  constructor
  · rintro ⟨line, read, h⟩
    obtain ⟨rest, others, ⟨⟩⟩ := bind_eq_ok_iff.1 h
    exact ⟨line, rest, read, others, rfl⟩
  · rintro ⟨line, rest, read, others, rfl⟩
    exact ⟨line, read, bind_eq_ok_iff.2 ⟨rest, others, rfl⟩⟩

theorem Line.mapM_ofText_of_readable {texts : List String}
    (h : texts.findSome? Line.failure? = none) : ∃ lines, texts.mapM Line.ofText = .ok lines := by
  induction texts with
  | nil => exact ⟨[], rfl⟩
  | cons text texts ih =>
    rw [List.findSome?_cons] at h
    unfold Line.failure? at h
    cases read : Line.ofText text with
    | error failure =>
      rw [read] at h
      cases h
    | ok line =>
      rw [read] at h
      obtain ⟨lines, others⟩ := ih h
      exact ⟨line :: lines, Line.mapM_ofText_cons_eq_ok_iff.2 ⟨line, lines, read, others, rfl⟩⟩

namespace Session

/-- Entering texts in order succeeds with each of them: what came of it, text by text, and the
session behind the last. -/
inductive Entered : Session → List String → List (Option Outcome) → Session → Prop where
  | nil (session : Session) : Entered session [] [] session
  | cons {session between after : Session} {text : String} {texts : List String}
      {outcome : Option Outcome} {outcomes : List (Option Outcome)} :
      session.enter text = (.ok outcome, between) → Entered between texts outcomes after →
      Entered session (text :: texts) (outcome :: outcomes) after

/-- What entering texts in order comes to: the outcomes of all of them, or the failure of the first
that fails, in the session that those before it have led to. -/
def ComesTo (session : Session) (texts : List String) :
    Except Failure (List Outcome) → Session → Prop
  | .ok outcomes, after =>
    ∃ each, session.Entered texts each after ∧ outcomes = each.reduceOption
  | .error failure, after =>
    ∃ before text behind each between, texts = before ++ text :: behind ∧
      session.Entered before each between ∧ between.enter text = (.error failure, after)

variable {session between after : Session} {text : String} {texts : List String}

theorem ComesTo.stop {failure : Failure} (h : session.enter text = (.error failure, after)) :
    session.ComesTo (text :: texts) (.error failure) after :=
  ⟨[], text, texts, [], session, rfl, .nil session, h⟩

theorem ComesTo.next {outcome : Option Outcome} {result : Except Failure (List Outcome)}
    (h : session.enter text = (.ok outcome, between)) (rest : between.ComesTo texts result after) :
    session.ComesTo (text :: texts) (result.map (outcome.toList ++ ·)) after := by
  cases result with
  | ok outcomes =>
    obtain ⟨each, entered, rfl⟩ := rest
    refine ⟨outcome :: each, .cons h entered, ?_⟩
    cases outcome <;> rfl
  | error failure =>
    obtain ⟨before, last, behind, each, reached, rfl, entered, fails⟩ := rest
    exact ⟨text :: before, last, behind, outcome :: each, reached, rfl, .cons h entered, fails⟩

theorem enter_of_ofText (session : Session) {line : Line} (h : Line.ofText text = .ok line) :
    session.enter text = session.executeLine line := by
  rw [enter, h]

theorem executeLine_of_empty {line : Line} (h : line.lexemes.isEmpty = true) :
    session.executeLine line = (.ok none, session) := by
  rcases line with ⟨text, lexemes⟩
  obtain rfl : lexemes = [] := List.isEmpty_iff.1 h
  rfl

theorem map_none_append (result : Except Failure (List Outcome)) :
    result.map ((none : Option Outcome).toList ++ ·) = result := by
  cases result <;> rfl

/-- Executing the lines of texts that can all be read, the empty ones left out. -/
theorem executeLines_comesTo {lines : List Line} (h : texts.mapM Line.ofText = .ok lines) :
    session.ComesTo texts
      (session.executeLines (lines.filter fun line => !line.lexemes.isEmpty)).1
      (session.executeLines (lines.filter fun line => !line.lexemes.isEmpty)).2 := by
  induction texts generalizing session lines with
  | nil =>
    cases h
    exact ⟨[], .nil session, rfl⟩
  | cons text texts ih =>
    obtain ⟨line, rest, read, others, rfl⟩ := Line.mapM_ofText_cons_eq_ok_iff.1 h
    have entered := enter_of_ofText session read
    cases empty : line.lexemes.isEmpty with
    | true =>
      -- an empty line changes nothing and has no outcome, so it may be left out
      rw [executeLine_of_empty empty] at entered
      have same := ComesTo.next entered (ih others)
      rw [map_none_append] at same
      rw [List.filter_cons_of_neg (by simp [empty])]
      exact same
    | false =>
      rw [List.filter_cons_of_pos (by simp [empty]), executeLines]
      rcases executed : session.executeLine line with ⟨failure | outcome, between⟩
      · exact .stop (entered.trans executed)
      · exact .next (entered.trans executed) (ih others)

theorem run_of_failure {source : String} {failure : Failure}
    (h : (Text.lines source).findSome? Line.failure? = some failure) :
    session.run source = (.error failure, session) := by
  rw [run, Line.program_of_failure h]

theorem run_comesTo {source : String}
    (h : (Text.lines source).findSome? Line.failure? = none) :
    session.ComesTo (Text.lines source) (session.run source).1 (session.run source).2 := by
  obtain ⟨lines, read⟩ := Line.mapM_ofText_of_readable h
  have program : Line.program source =
      .ok (lines.filter fun line => !line.lexemes.isEmpty) := by
    rw [Line.program, read]
    rfl
  rw [run, program]
  exact executeLines_comesTo read

/-! ## What every line preserves -/

section

variable {P : Session → Prop} (step : ∀ session text, P session → P (session.enter text).2)

include step

theorem Entered.preserves {outcomes : List (Option Outcome)}
    (h : session.Entered texts outcomes after) (start : P session) : P after := by
  induction h with
  | nil => exact start
  | @cons session between after text texts outcome outcomes entered _ ih =>
    have next := step session text start
    rw [entered] at next
    exact ih next

theorem ComesTo.preserves {result : Except Failure (List Outcome)}
    (h : session.ComesTo texts result after) (start : P session) : P after := by
  cases result with
  | ok outcomes =>
    obtain ⟨each, entered, -⟩ := h
    exact entered.preserves step start
  | error failure =>
    obtain ⟨before, text, behind, each, between, -, entered, fails⟩ := h
    have last := step between text (entered.preserves step start)
    rwa [fails] at last

/-- What entering a line preserves is preserved by a program, whether it fails or not. -/
theorem run_preserves (source : String) (start : P session) : P (session.run source).2 := by
  cases h : (Text.lines source).findSome? Line.failure? with
  | some failure =>
    rw [run_of_failure h]
    exact start
  | none => exact (run_comesTo h).preserves step start

end

/-- A program with a line that cannot be read fails as the first of these does and changes nothing.
Any other program comes to what entering its lines in order comes to. -/
theorem run_agrees_with_enter (session : Session) (source : String) :
    match (Text.lines source).findSome? Line.failure? with
    | some failure => session.run source = (.error failure, session)
    | none => session.ComesTo (Text.lines source) (session.run source).1 (session.run source).2 := by
  cases h : (Text.lines source).findSome? Line.failure? with
  | some failure => exact run_of_failure h
  | none => exact run_comesTo h

end Session

end Entailment
