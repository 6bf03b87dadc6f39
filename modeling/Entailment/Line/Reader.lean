import Entailment.Line

/-!
# Reading the lexemes of a line

A reader stands in front of the lexemes of a line that are still to be read.  A `Read` action moves
it forward; when it fails, the reader stays behind what was consumed until then.

## Main statements

The `run_` lemmas say what each action gives and where it leaves the reader.
-/

namespace Entailment

/-- A place between the lexemes of a line. -/
structure Reader where
  line : String
  pending : List Lexeme
  deriving DecidableEq

def Reader.ofLine (line : Line) : Reader := ⟨line.text, line.lexemes⟩

/-- An action that reads something, or fails, and moves the reader. -/
abbrev Read := ExceptT Failure (StateM Reader)

namespace Read

variable {α β : Type}

/-- What an action gives at a reader, and the reader behind it. -/
def run (action : Read α) (reader : Reader) : Except Failure α × Reader :=
  StateT.run (ExceptT.run action) reader

/-- The action that reads a line as `step` says, from the pending lexemes to those left over. -/
def ofStep (step : String → List Lexeme → Except Failure α × List Lexeme) : Read α :=
  .mk <| modifyGet fun reader =>
    let (result, pending) := step reader.line reader.pending
    (result, { reader with pending })

/-- The next lexeme, left where it is. -/
def peek : Read (Option Lexeme) := do
  return (← get).pending.head?

def next? : Read (Option Lexeme) :=
  ofStep fun _ pending => (.ok pending.head?, pending.tail)

def reject (lexeme : Lexeme) : Read α := do
  throw (lexeme.unexpected (← get).line)

/-- Takes the next lexeme, whatever it is. -/
def any : Read Lexeme := do
  match ← next? with
  | some lexeme => return lexeme
  | none => throw (.exhausted (← get).line)

def expect (token : Token) : Read Lexeme := do
  let lexeme ← any
  if lexeme.token = token then return lexeme else reject lexeme

def identifier : Read String := do
  let lexeme ← any
  match lexeme.token with
  | .identifier name => return name
  | _ => reject lexeme

/-- Nothing may be left. -/
def finish : Read Unit := do
  match ← peek with
  | some lexeme => reject lexeme
  | none => return ()

/-! ## What the actions do -/

@[simp]
theorem run_pure (value : α) (reader : Reader) :
    (pure value : Read α).run reader = (.ok value, reader) := rfl

@[simp]
theorem run_bind (action : Read α) (next : α → Read β) (reader : Reader) :
    (action >>= next).run reader =
      match action.run reader with
      | (.ok value, reader) => (next value).run reader
      | (.error failure, reader) => (.error failure, reader) := by
  simp only [run, ExceptT.run_bind, StateT.run_bind]
  rcases StateT.run (ExceptT.run action) reader with ⟨_ | _, _⟩ <;> rfl

@[simp]
theorem run_ofStep (step : String → List Lexeme → Except Failure α × List Lexeme)
    (reader : Reader) :
    (ofStep step).run reader =
      ((step reader.line reader.pending).1,
        { reader with pending := (step reader.line reader.pending).2 }) := rfl

@[simp]
theorem run_peek (reader : Reader) : peek.run reader = (.ok reader.pending.head?, reader) := rfl

@[simp]
theorem run_next? (reader : Reader) :
    next?.run reader =
      (.ok reader.pending.head?, { reader with pending := reader.pending.tail }) := rfl

@[simp]
theorem run_any (reader : Reader) :
    any.run reader =
      match reader.pending with
      | [] => (.error (.exhausted reader.line), reader)
      | lexeme :: rest => (.ok lexeme, { reader with pending := rest }) := by
  rcases reader with ⟨line, _ | ⟨lexeme, rest⟩⟩ <;> rfl

@[simp]
theorem run_expect (token : Token) (reader : Reader) :
    (expect token).run reader =
      match reader.pending with
      | [] => (.error (.exhausted reader.line), reader)
      | lexeme :: rest =>
        (if lexeme.token = token then .ok lexeme else .error (lexeme.unexpected reader.line),
          { reader with pending := rest }) := by
  rcases reader with ⟨line, _ | ⟨lexeme, rest⟩⟩
  · rfl
  · simp only [expect, run_bind, run_any]
    split <;> rfl

@[simp]
theorem run_identifier (reader : Reader) :
    identifier.run reader =
      match reader.pending with
      | [] => (.error (.exhausted reader.line), reader)
      | lexeme :: rest =>
        (match lexeme.token with
          | .identifier name => .ok name
          | _ => .error (lexeme.unexpected reader.line),
          { reader with pending := rest }) := by
  rcases reader with ⟨line, _ | ⟨lexeme, rest⟩⟩
  · rfl
  · simp only [identifier, run_bind, run_any]
    split <;> rfl

@[simp]
theorem run_finish (reader : Reader) :
    finish.run reader =
      match reader.pending with
      | [] => (.ok (), reader)
      | lexeme :: _ => (.error (lexeme.unexpected reader.line), reader) := by
  rcases reader with ⟨line, _ | ⟨lexeme, rest⟩⟩ <;> rfl

end Read

end Entailment
