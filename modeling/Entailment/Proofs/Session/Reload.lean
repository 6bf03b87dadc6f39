import Entailment.Proofs.Session.Reachable

/-!
# Saving and reloading

The values, descriptions and arguments of a session are saved as one line for each entry.  Entering
these lines in a session without entries gives the three tables again, in whatever order the lines
are entered: an entry is written under its own name, and no two lines have one name and one table.

Main statement: `Session.reload_of_reachable`.
-/

namespace Entailment

namespace Statement

def assigned? : Statement → Option (String × Bool)
  | assign name value => some (name, value)
  | _ => none

def described? : Statement → Option (String × String)
  | describe name text => some (name, text)
  | _ => none

def declared? : Statement → Option (String × Argument)
  | declare id argument => some (id, argument)
  | _ => none

/-- Whether a statement gives, describes or declares something. -/
def Defines : Statement → Prop
  | assign _ _ | describe _ _ | declare _ _ => True
  | ask _ _ | print _ => False

end Statement

namespace Session

/-- The statements that make the entries of the tables of values, descriptions and arguments. -/
def entries (session : Session) : List Statement :=
  session.values.toList.map (fun (name, value) => .assign name value) ++
    session.descriptions.toList.map (fun (name, text) => .describe name text) ++
    session.arguments.toList.map (fun (id, argument) => .declare id argument)

variable {session : Session}

theorem forall_mem_entries {P : Statement → Prop}
    (values : ∀ name value, session.values[name]? = some value → P (.assign name value))
    (descriptions : ∀ name text, session.descriptions[name]? = some text → P (.describe name text))
    (arguments : ∀ id argument, session.arguments[id]? = some argument →
      P (.declare id argument)) : ∀ statement ∈ session.entries, P statement := by
  intro statement mem
  rcases List.mem_append.1 mem with mem | mem
  · rcases List.mem_append.1 mem with mem | mem
    · obtain ⟨⟨name, value⟩, found, rfl⟩ := List.mem_map.1 mem
      exact values name value (Std.ExtTreeMap.mem_toList_iff_getElem?_eq_some.1 found)
    · obtain ⟨⟨name, text⟩, found, rfl⟩ := List.mem_map.1 mem
      exact descriptions name text (Std.ExtTreeMap.mem_toList_iff_getElem?_eq_some.1 found)
  · obtain ⟨⟨id, argument⟩, found, rfl⟩ := List.mem_map.1 mem
    exact arguments id argument (Std.ExtTreeMap.mem_toList_iff_getElem?_eq_some.1 found)

theorem defines_of_mem_entries : ∀ statement ∈ session.entries, statement.Defines :=
  forall_mem_entries (fun _ _ _ => trivial) (fun _ _ _ => trivial) fun _ _ _ => trivial

theorem Savable.writable_of_mem_entries (h : session.Savable) :
    ∀ statement ∈ session.entries, statement.Writable :=
  forall_mem_entries h.values h.descriptions h.arguments

/-! ## Entering definitions -/

/-- The session with what statements define written into its tables, in order. -/
def define (session : Session) (statements : List Statement) : Session :=
  { session with
    values := session.values.insertMany (statements.filterMap Statement.assigned?)
    descriptions := session.descriptions.insertMany (statements.filterMap Statement.described?)
    arguments := session.arguments.insertMany (statements.filterMap Statement.declared?) }

theorem define_nil : session.define [] = session := by
  simp [define, Std.ExtTreeMap.insertMany_nil]

theorem define_cons (statement : Statement) (statements : List Statement) :
    session.define (statement :: statements) = (session.define [statement]).define statements := by
  rw [← List.singleton_append]
  simp only [define, List.filterMap_append, Std.ExtTreeMap.insertMany_append]

theorem execute_of_defines (session : Session) {statement : Statement} (h : statement.Defines) :
    ∃ outcome, session.execute statement = (.ok outcome, session.define [statement]) := by
  cases statement with
  | assign name value => exact ⟨.assigned name value, rfl⟩
  | describe name text => exact ⟨.described name text, rfl⟩
  | declare id argument => exact ⟨.declared id argument, rfl⟩
  | ask query id => cases h
  | print text => cases h

theorem enter_render (session : Session) {statement : Statement}
    (writable : statement.Writable) (defines : statement.Defines) :
    ∃ outcome, session.enter statement.render = (.ok outcome, session.define [statement]) := by
  obtain ⟨line, read, spelled⟩ := Statement.exists_line_render writable
  obtain ⟨outcome, executed⟩ := execute_of_defines session defines
  refine ⟨some outcome, ?_⟩
  rw [enter_of_ofText session read, executeLine, spelled]
  dsimp only
  rw [executed]
  rfl

/-- Definitions in their written form can be entered in order, each without failure. -/
theorem entered_render (session : Session) {statements : List Statement}
    (writable : ∀ statement ∈ statements, statement.Writable)
    (defines : ∀ statement ∈ statements, statement.Defines) :
    ∃ outcomes, session.Entered (statements.map Statement.render) outcomes
      (session.define statements) := by
  induction statements generalizing session with
  | nil =>
    rw [define_nil]
    exact ⟨[], .nil session⟩
  | cons statement others ih =>
    obtain ⟨outcome, entered⟩ := enter_render session (writable statement List.mem_cons_self)
      (defines statement List.mem_cons_self)
    obtain ⟨outcomes, behind⟩ := ih (session.define [statement])
      (fun other mem => writable other (List.mem_cons_of_mem _ mem))
      (fun other mem => defines other (List.mem_cons_of_mem _ mem))
    rw [define_cons]
    exact ⟨outcome :: outcomes, .cons entered behind⟩

/-! ## Reloading -/

/-- In whatever order the entries of a session are defined, its three tables come out. -/
theorem define_of_perm {statements : List Statement} (h : statements.Perm session.entries)
    (limit : Option Nat) :
    define { limit } statements =
      { limit
        values := session.values
        descriptions := session.descriptions
        arguments := session.arguments } := by
  have values : session.entries.filterMap Statement.assigned? = session.values.toList := by
    simp [entries, List.filterMap_append, List.filterMap_map, Function.comp_def, Statement.assigned?]
  have descriptions :
      session.entries.filterMap Statement.described? = session.descriptions.toList := by
    simp [entries, List.filterMap_append, List.filterMap_map, Function.comp_def,
      Statement.described?]
  have arguments : session.entries.filterMap Statement.declared? = session.arguments.toList := by
    simp [entries, List.filterMap_append, List.filterMap_map, Function.comp_def, Statement.declared?]
  have first := Dictionary.insertMany_of_perm (values ▸ h.filterMap Statement.assigned?)
  have second := Dictionary.insertMany_of_perm (descriptions ▸ h.filterMap Statement.described?)
  have third := Dictionary.insertMany_of_perm (arguments ▸ h.filterMap Statement.declared?)
  simp only [define, first, second, third]

/-- A session that lines and programs have led to can be saved and reloaded.  Its names, texts and
arguments are of the form that lines give them.  The lines that write its entries are entered in a
session without entries, in any order and each without failure, and give its three tables again. -/
theorem reload_of_reachable (session : Session) (h : Reachable session) :
    session.Savable ∧
    ∀ (limit : Option Nat) (statements : List Statement), statements.Perm session.entries →
      ∃ outcomes, Entered { limit } (statements.map Statement.render) outcomes
        { limit
          values := session.values
          descriptions := session.descriptions
          arguments := session.arguments } := by
  have savable := h.savable
  refine ⟨savable, fun limit statements order => ?_⟩
  rw [← define_of_perm order limit]
  apply entered_render { limit }
  · intro statement mem
    exact savable.writable_of_mem_entries statement (order.mem_iff.1 mem)
  · intro statement mem
    exact defines_of_mem_entries statement (order.mem_iff.1 mem)

/-- A program that stops at its third line, then a line, then one that cannot be executed. -/
def interrupted : Session :=
  let program := "argument a := P, !R therefore Q\nP := true\nvaluate b\nQ := true"
  (enter (enter (run {} program).2 "Q is \"it rains\"").2 "validate c").2

/-- The entries that were made in spite of the failures are reloaded, here from the last to the
first. -/
theorem reload_of_reachable_interrupted :
    Reachable interrupted ∧
    interrupted.entries = [.assign "P" true, .describe "Q" "it rains",
      .declare "a" ⟨[.atom "P", .negation (.atom "R")], some (.atom "Q")⟩] ∧
    interrupted.Savable ∧
    ∃ outcomes, Entered { limit := some 2 }
      ["argument a := P, ¬R ∴ Q", "Q is \"it rains\"", "P := true"] outcomes
      { limit := some 2
        values := interrupted.values
        descriptions := interrupted.descriptions
        arguments := interrupted.arguments } := by
  have reached : Reachable interrupted :=
    (((Reachable.fresh none).run _).enter _).enter _
  have entries : interrupted.entries = [.assign "P" true, .describe "Q" "it rains",
      .declare "a" ⟨[.atom "P", .negation (.atom "R")], some (.atom "Q")⟩] := by
    decide +kernel
  obtain ⟨savable, reload⟩ := reload_of_reachable interrupted reached
  rw [entries] at reload
  exact ⟨reached, entries, savable, reload (some 2) _ (List.reverse_perm _)⟩

end Session

end Entailment
