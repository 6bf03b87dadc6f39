import Entailment.Line.Reader

/-!
# Reading that succeeds

For each action, what it has read when it succeeds and where it leaves the reader.  A composite
action is taken apart with `Read.run_bind_eq_ok_iff`.
-/

namespace Entailment

namespace Read

variable {α β : Type} {line : String} {pending : List Lexeme} {behind : Reader}

theorem run_bind_eq_ok_iff {action : Read α} {next : α → Read β} {reader : Reader} {value : β} :
    (action >>= next).run reader = (.ok value, behind) ↔
      ∃ first between, action.run reader = (.ok first, between) ∧
        (next first).run between = (.ok value, behind) := by
  rw [run_bind]
  rcases action.run reader with ⟨failure | first, between⟩
  · simp
  · constructor
    · exact fun h => ⟨first, between, rfl, h⟩
    · rintro ⟨_, _, ⟨⟩, h⟩
      exact h

theorem run_any_eq_ok_iff {lexeme : Lexeme} :
    any.run ⟨line, pending⟩ = (.ok lexeme, behind) ↔
      ∃ rest, pending = lexeme :: rest ∧ behind = ⟨line, rest⟩ := by
  rw [run_any]
  cases pending with
  | nil => simp
  | cons head tail =>
    simp only [Prod.mk.injEq, Except.ok.injEq, List.cons.injEq]
    constructor
    · rintro ⟨rfl, rfl⟩
      exact ⟨tail, ⟨rfl, rfl⟩, rfl⟩
    · rintro ⟨_, ⟨rfl, rfl⟩, rfl⟩
      exact ⟨rfl, rfl⟩

theorem run_expect_eq_ok_iff {token : Token} {lexeme : Lexeme} :
    (expect token).run ⟨line, pending⟩ = (.ok lexeme, behind) ↔
      lexeme.token = token ∧ ∃ rest, pending = lexeme :: rest ∧ behind = ⟨line, rest⟩ := by
  rw [expect, run_bind_eq_ok_iff]
  constructor
  · rintro ⟨first, between, read, h⟩
    obtain ⟨rest, rfl, rfl⟩ := run_any_eq_ok_iff.1 read
    split at h
    · next expected =>
      cases h
      exact ⟨expected, rest, rfl, rfl⟩
    · cases h
  · rintro ⟨expected, rest, rfl, rfl⟩
    refine ⟨lexeme, ⟨line, rest⟩, rfl, ?_⟩
    rw [if_pos expected]
    rfl

theorem run_identifier_eq_ok_iff {name : String} :
    identifier.run ⟨line, pending⟩ = (.ok name, behind) ↔
      ∃ lexeme rest, lexeme.token = .identifier name ∧ pending = lexeme :: rest ∧
        behind = ⟨line, rest⟩ := by
  rw [identifier, run_bind_eq_ok_iff]
  constructor
  · rintro ⟨lexeme, between, read, h⟩
    obtain ⟨rest, rfl, rfl⟩ := run_any_eq_ok_iff.1 read
    split at h
    · next found =>
      cases h
      exact ⟨lexeme, rest, found, rfl, rfl⟩
    · cases h
  · rintro ⟨lexeme, rest, found, rfl, rfl⟩
    refine ⟨lexeme, ⟨line, rest⟩, rfl, ?_⟩
    rw [found]
    rfl

theorem run_finish_eq_ok_iff :
    finish.run ⟨line, pending⟩ = (.ok (), behind) ↔ pending = [] ∧ behind = ⟨line, []⟩ := by
  rw [run_finish]
  cases pending with
  | nil => simp [eq_comm]
  | cons head tail => simp

end Read

end Entailment
