import Mathlib.Algebra.Group.Nat.Defs
import Mathlib.Data.List.Nodup
import Entailment.TruthTable
import Entailment.Proofs.Formula.Conditions
import Entailment.Proofs.Formula.Meaning

/-!
# Rows of a truth table

The rows that a table has still to give, as a list, and what the list is complete for.

* `TruthTable.rows_eq`: reading a row takes the head off the list, so the walk of `all` is a walk
  over the list (`all_eq_allM`).
* `TruthTable.digits_number`: an assignment has the values of the row with its number.
* `TruthTable.exists_row`: each assignment agrees with a row on the columns.
* `TruthTable.columnNames_eq_names`: the columns of a table over formulas are their atoms.
* `TruthTable.all_ofFormulas`: a test that is decided by the values of the atoms holds in every row
  just if it holds under every assignment to all names.
* `TruthTable.all_ofFormulas_eq`: the result of the walk, the refusal of a wide table included.
-/

namespace Entailment

theorem allM_eq_ok {ε α : Type} {items : List α} {test : α → Except ε Bool}
    {verdict : α → Bool} (h : ∀ item ∈ items, test item = .ok (verdict item)) :
    items.allM test = .ok (items.all verdict) := by
  induction items with
  | nil => rfl
  | cons item items ih =>
    rw [List.forall_mem_cons] at h
    rw [List.allM_cons, h.1, ih h.2, List.all_cons]
    cases verdict item <;> rfl

namespace TruthTable

/-! ## The list of rows -/

/-- The assignment of the row with the given number. -/
def rowAt (columns : List String) (number : Nat) : Valuation := .ofList (digits columns number)

theorem mem_rowAt {columns : List String} {number : Nat} {name : String} :
    name ∈ rowAt columns number ↔ name ∈ columns := by
  rw [rowAt, Std.ExtTreeMap.mem_ofList, digits_names]
  exact List.contains_iff_mem

/-- No row behind the last one is next. -/
def InRange (table : TruthTable) : Prop := table.next ≤ table.size

theorem InRange.next_lt {table : TruthTable} (ok : table.InRange)
    (unread : table.next ≠ table.size) : table.next.toNat < table.size.toNat :=
  Nat.lt_of_le_of_ne (UInt64.le_iff_toNat_le.1 ok) fun same => unread (UInt64.toNat_inj.1 same)

/-- The rows still unread, in order. -/
def rows (table : TruthTable) : List Valuation :=
  (List.range' table.next.toNat (table.size.toNat - table.next.toNat)).map (rowAt table.columns)

theorem mem_of_mem_rows {table : TruthTable} {row : Valuation} (h : row ∈ table.rows)
    {name : String} : name ∈ row ↔ name ∈ table.columns := by
  obtain ⟨number, -, rfl⟩ := List.mem_map.1 h
  exact mem_rowAt

theorem rows_of_finished {table : TruthTable} (last : table.next = table.size) :
    table.rows = [] := by
  rw [rows, last, Nat.sub_self]
  rfl

/-- The table whose next row was read goes on with the others. -/
theorem rows_of_unread {table : TruthTable} (ok : table.InRange)
    (unread : table.next ≠ table.size) :
    InRange { table with next := table.next + 1 } ∧
      table.rows = table.row :: rows { table with next := table.next + 1 } := by
  have less := ok.next_lt unread
  have small := table.size.toNat_lt
  have following : (table.next + 1).toNat = table.next.toNat + 1 := by
    rw [UInt64.toNat_add, UInt64.toNat_one]
    omega
  constructor
  · show table.next + 1 ≤ table.size
    rw [UInt64.le_iff_toNat_le, following]
    exact less
  · have others : table.size.toNat - table.next.toNat =
        table.size.toNat - (table.next + 1).toNat + 1 := by omega
    show (List.range' table.next.toNat (table.size.toNat - table.next.toNat)).map _ =
      table.row :: (List.range' (table.next + 1).toNat _).map _
    rw [others, List.range'_succ, following]
    rfl

theorem inRange_of_next? {table rest : TruthTable} {row : Valuation} (ok : table.InRange)
    (h : table.next? = some (row, rest)) : rest.InRange := by
  obtain ⟨unread, rfl⟩ := next_of_next? h
  exact (rows_of_unread ok unread).1

/-- Reading a row takes it off the front of the list. -/
theorem rows_eq {table : TruthTable} (ok : table.InRange) :
    table.rows = match table.next? with
      | none => []
      | some (row, rest) => row :: rest.rows := by
  unfold next?
  by_cases last : table.next = table.size
  · rw [if_pos last, rows_of_finished last]
  · rw [if_neg last, (rows_of_unread ok last).2]

/-- A walk through the table is a walk over the list. -/
theorem all_eq_allM {table : TruthTable} (ok : table.InRange)
    (test : Valuation → Except Failure Bool) : table.all test = table.rows.allM test := by
  fun_induction all test table with
  | case1 table finished =>
    rw [rows_eq ok, finished]
    rfl
  | case2 table row rest found _ ih =>
    rw [rows_eq ok, found, List.allM_cons, ih (inRange_of_next? ok found)]

/-! ## Every assignment has its row -/

theorem digits_congr {names : List String} {a b : Nat}
    (same : ∀ j < names.length, a.testBit j = b.testBit j) : digits names a = digits names b := by
  induction names with
  | nil => rfl
  | cons name names ih =>
    rw [digits, digits, same names.length (Nat.lt_succ_self _),
      ih fun j hj => same j (Nat.lt_succ_of_lt hj)]

/-- The number of the row in which the names have the values that an assignment gives them. -/
def number (assignment : String → Bool) : List String → Nat
  | [] => 0
  | name :: names => (assignment name).toNat * 2 ^ names.length + number assignment names

theorem number_lt (assignment : String → Bool) (names : List String) :
    number assignment names < 2 ^ names.length := by
  induction names with
  | nil => exact Nat.one_pos
  | cons name names ih =>
    rw [number, List.length_cons, Nat.pow_succ]
    cases assignment name with
    | false =>
      rw [Bool.toNat_false, Nat.zero_mul]
      omega
    | true =>
      rw [Bool.toNat_true, Nat.one_mul]
      omega

theorem digits_number (assignment : String → Bool) (names : List String) :
    digits names (number assignment names) = names.map fun name => (name, assignment name) := by
  induction names with
  | nil => rfl
  | cons name names ih =>
    have unset : (number assignment names).testBit names.length = false :=
      Nat.testBit_lt_two_pow (number_lt assignment names)
    rw [number, digits, List.map_cons]
    cases assignment name with
    | false => rw [Bool.toNat_false, Nat.zero_mul, Nat.zero_add, unset, ih]
    | true =>
      -- the first name is the most significant digit, and the others do not see it
      rw [Bool.toNat_true, Nat.one_mul, Nat.testBit_two_pow_add_eq, unset, ← ih]
      rw [digits_congr fun j hj => Nat.testBit_two_pow_add_gt hj (number assignment names)]
      rfl

/-- A row gives a name the digit that belongs to it. -/
theorem getElem?_rowAt {columns : List String} (nodup : columns.Nodup) {number : Nat} {name : String}
    {digit : Bool} (h : (name, digit) ∈ digits columns number) :
    (rowAt columns number)[name]? = some digit := by
  refine Std.ExtTreeMap.getElem?_ofList_of_mem Std.compare_self ?_ h
  have distinct : ((digits columns number).map Prod.fst).Nodup := by
    rw [digits_names]
    exact nodup
  refine (List.pairwise_map.1 distinct).imp fun different same => ?_
  exact different (Std.compare_eq_iff_eq.1 same)

/-- An assignment agrees with the row that has its number. -/
theorem getElem?_rowAt_number {columns : List String} (nodup : columns.Nodup)
    (assignment : String → Bool) {name : String} (column : name ∈ columns) :
    (rowAt columns (number assignment columns))[name]? = some (assignment name) := by
  apply getElem?_rowAt nodup
  rw [digits_number]
  exact List.mem_map_of_mem (f := fun name => (name, assignment name)) column

section
variable {columns : List String} (nonempty : columns ≠ []) (few : columns.length ≤ maxVariables)

include nonempty few

theorem rows_fresh :
    rows { columns } = (List.range (2 ^ columns.length)).map (rowAt columns) := by
  have size : (TruthTable.size { columns }).toNat = 2 ^ columns.length := by
    rw [toNat_size few, if_neg nonempty, Nat.shiftLeft_eq, Nat.one_mul]
  rw [rows, size, List.range_eq_range']
  rfl

theorem exists_row (nodup : columns.Nodup) (assignment : String → Bool) :
    ∃ row ∈ rows { columns }, ∀ name ∈ columns, row[name]? = some (assignment name) := by
  refine ⟨rowAt columns (number assignment columns), ?_, fun name column => ?_⟩
  · rw [rows_fresh nonempty few]
    exact List.mem_map_of_mem (List.mem_range.2 (number_lt assignment columns))
  · exact getElem?_rowAt_number nodup assignment column

/-- A test that only the values of the columns decide is made for all assignments. -/
theorem all_eq_ok (nodup : columns.Nodup) {test : Valuation → Except Failure Bool}
    {verdict : (String → Bool) → Bool}
    (decided : ∀ row assignment, (∀ name ∈ columns, row[name]? = some (assignment name)) →
      test row = .ok (verdict assignment)) :
    ∃ answer, all test { columns } = .ok answer ∧
      (answer = true ↔ ∀ assignment, verdict assignment = true) := by
  have fresh : InRange { columns } := UInt64.zero_le
  have onRow : ∀ row ∈ rows { columns }, test row = .ok (verdict row.assignment) := by
    intro row h
    apply decided
    intro name column
    exact Valuation.getElem?_eq_assignment ((mem_of_mem_rows h).2 column)
  refine ⟨(rows { columns }).all fun row => verdict row.assignment,
    by rw [all_eq_allM fresh, allM_eq_ok onRow], ?_⟩
  rw [List.all_eq_true]
  constructor
  · intro holds assignment
    obtain ⟨row, h, agree⟩ := exists_row nonempty few nodup assignment
    have same := (onRow row h).symm.trans (decided row assignment agree)
    rw [← Except.ok.inj same]
    exact holds row h
  · intro holds row _
    exact holds _

end

/-! ## Tables over formulas -/

theorem ofNames_eq_ok_iff {names : Names} {table : TruthTable} :
    ofNames names = .ok table ↔ names.size ≤ maxVariables ∧ table = { columns := names.toList } := by
  unfold ofNames
  split
  · next many => simp [Nat.not_le_of_lt many]
  · next few => simp [Nat.not_lt.1 few, eq_comm]

/-- The names of the table over several formulas. -/
def columnNames (formulas : List Formula) : Names :=
  Names.union (formulas.map Formula.conditionNames)

theorem ofFormulas_eq_ofNames (formulas : List Formula) :
    ofFormulas formulas = ofNames (columnNames formulas) := rfl

/-- The conditions of formulas have the names of the formulas. -/
theorem columnNames_eq_names (formulas : List Formula) :
    columnNames formulas = Names.union (formulas.map Formula.names) := by
  have same : Formula.conditionNames = Formula.names := funext Formula.conditionNames_eq_names
  rw [columnNames, same]

theorem mem_columnNames {formulas : List Formula} {name : String} :
    name ∈ columnNames formulas ↔ ∃ formula ∈ formulas, name ∈ formula.occurrences := by
  rw [columnNames_eq_names, Formula.mem_union_names, Formula.mem_mentioned]

theorem size_columnNames (formulas : List Formula) :
    (columnNames formulas).size = (Formula.mentioned formulas).card := by
  rw [columnNames_eq_names, Formula.size_union_names]

theorem ofFormulas_eq (formulas : List Formula) :
    ofFormulas formulas =
      if (Formula.mentioned formulas).card > maxVariables then
        .error (.tooManyVariables (Formula.mentioned formulas).card maxVariables)
      else .ok { columns := (columnNames formulas).toList } := by
  rw [ofFormulas_eq_ofNames, ofNames, size_columnNames]

/-- A test that only the values of the atoms decide is made for all assignments. -/
theorem all_ofFormulas {formulas : List Formula} (nonempty : formulas ≠ [])
    (few : (Formula.mentioned formulas).card ≤ maxVariables)
    {test : Valuation → Except Failure Bool} {verdict : (String → Bool) → Bool}
    (decided : ∀ row assignment,
      (∀ formula ∈ formulas, ∀ name ∈ formula.occurrences,
        row[name]? = some (assignment name)) → test row = .ok (verdict assignment)) :
    ∃ answer, (ofFormulas formulas >>= all test) = .ok answer ∧
      (answer = true ↔ ∀ assignment, verdict assignment = true) := by
  have inColumns : ∀ formula ∈ formulas, ∀ name ∈ formula.occurrences,
      name ∈ (columnNames formulas).toList := by
    intro formula hf name hn
    rw [Std.ExtTreeSet.mem_toList, mem_columnNames]
    exact ⟨formula, hf, hn⟩
  rw [ofFormulas_eq, if_neg (Nat.not_lt.2 few)]
  refine all_eq_ok ?_ ?_ (Names.nodup_toList _) fun row assignment agree => ?_
  · obtain ⟨formula, hf⟩ := List.exists_mem_of_ne_nil _ nonempty
    obtain ⟨name, hn⟩ := List.exists_mem_of_ne_nil _ formula.occurrences_ne_nil
    exact List.ne_nil_of_mem (inColumns formula hf name hn)
  · rw [Std.ExtTreeSet.length_toList, size_columnNames]
    exact few
  · exact decided row assignment fun formula hf name hn => agree name (inColumns formula hf name hn)

open scoped Classical in
/-- What such a walk comes to is known from the atoms and from the test alone. -/
theorem all_ofFormulas_eq {formulas : List Formula} (nonempty : formulas ≠ [])
    {test : Valuation → Except Failure Bool} {verdict : (String → Bool) → Bool}
    (decided : ∀ row assignment,
      (∀ formula ∈ formulas, ∀ name ∈ formula.occurrences,
        row[name]? = some (assignment name)) → test row = .ok (verdict assignment)) :
    (ofFormulas formulas >>= all test) =
      if (Formula.mentioned formulas).card ≤ maxVariables then
        .ok (decide (∀ assignment, verdict assignment = true))
      else .error (.tooManyVariables (Formula.mentioned formulas).card maxVariables) := by
  by_cases few : (Formula.mentioned formulas).card ≤ maxVariables
  · obtain ⟨answer, found, sound⟩ := all_ofFormulas nonempty few decided
    rw [if_pos few, found, ← sound, Bool.decide_eq_true]
  · rw [if_neg few, ofFormulas_eq, if_pos (Nat.lt_of_not_le few)]
    rfl

end TruthTable

end Entailment
