import Mathlib.Data.List.Nodup
import Entailment.Proofs.TruthTable.Rows

/-!
# Enumeration of the assignments

A truth table goes through the binary numbers.  The row with number `k` gives the names, in
code-point order, the digits of `k` from the most significant one down, so that a row and its number
determine each other, and the assignments to the names are met once each.

* `TruthTable.walk_eq_rows`: what is read off a table row by row.
* `TruthTable.number_rowAt` and `TruthTable.rowAt_number`: a row has its number, and an assignment is
  the row with its number.

Main statement: `TruthTable.ofNames_enumerates`.
-/

namespace Entailment

theorem Names.sorted_toList (names : Names) : names.toList.Pairwise (· < ·) :=
  names.ordered_toList.imp fun before => compareOfLessAndEq_eq_lt.1 before

namespace TruthTable

/-- The rows that a table gives, one after the other, until none is left. -/
def walk (table : TruthTable) : List Valuation :=
  match h : table.next? with
  | none => []
  | some (row, rest) =>
    have := remaining_lt h
    row :: rest.walk
termination_by table.remaining.toNat

theorem walk_eq_rows {table : TruthTable} (ok : table.InRange) : table.walk = table.rows := by
  fun_induction walk table with
  | case1 table finished =>
    rw [rows_eq ok, finished]
  | case2 table row rest found _ ih =>
    rw [rows_eq ok, found, ih (inRange_of_next? ok found)]

/-! ## The digits of a row -/

theorem digits_eq_mapIdx (names : List String) (number : Nat) :
    digits names number =
      names.mapIdx fun j name => (name, number.testBit (names.length - 1 - j)) := by
  induction names with
  | nil => rfl
  | cons name names ih =>
    rw [digits, List.mapIdx_cons, ih]
    have first : (name :: names).length - 1 - 0 = names.length := by simp
    have others : ∀ j, (name :: names).length - 1 - (j + 1) = names.length - 1 - j := by
      intro j
      rw [List.length_cons]
      omega
    simp only [first, others]

theorem mem_digits {names : List String} (number : Nat) {j : Nat} (h : j < names.length) :
    (names[j], number.testBit (names.length - 1 - j)) ∈ digits names number := by
  rw [digits_eq_mapIdx]
  refine List.mem_iff_getElem.2 ⟨j, by rw [List.length_mapIdx]; exact h, ?_⟩
  rw [List.getElem_mapIdx]

/-- Only the last digits of a number are seen by an assignment that has them. -/
theorem number_of_digits {names : List String} {assignment : String → Bool} {k : Nat}
    (agree : ∀ entry ∈ digits names k, assignment entry.1 = entry.2) :
    number assignment names = k % 2 ^ names.length := by
  induction names with
  | nil => rw [number, List.length_nil, Nat.pow_zero, Nat.mod_one]
  | cons name names ih =>
    rw [digits, List.forall_mem_cons] at agree
    rw [number, agree.1, ih agree.2, List.length_cons, Nat.mod_pow_succ, Nat.toNat_testBit]
    rw [Nat.add_comm, Nat.mul_comm]

section
variable {columns : List String} (nodup : columns.Nodup)

include nodup

/-- A row that there is has its number. -/
theorem number_rowAt {k : Nat} (small : k < 2 ^ columns.length) :
    number (rowAt columns k).assignment columns = k := by
  have agree : ∀ entry ∈ digits columns k, (rowAt columns k).assignment entry.1 = entry.2 := by
    intro entry mem
    rw [Valuation.assignment, getElem?_rowAt nodup mem, Option.getD_some]
  rw [number_of_digits agree, Nat.mod_eq_of_lt small]

/-- Values for the columns, and for nothing else, are those of the row with their number. -/
theorem rowAt_number {values : Valuation} (binds : ∀ name, name ∈ values ↔ name ∈ columns) :
    rowAt columns (number values.assignment columns) = values := by
  apply Std.ExtTreeMap.ext_getElem?
  intro name
  by_cases column : name ∈ columns
  · rw [Valuation.getElem?_eq_assignment ((binds name).2 column)]
    exact getElem?_rowAt_number nodup values.assignment column
  · have unbound : name ∉ values := fun bound => column ((binds name).1 bound)
    have missing : name ∉ rowAt columns (number values.assignment columns) := fun bound =>
      column (mem_rowAt.1 bound)
    rw [Std.ExtTreeMap.getElem?_eq_none unbound, Std.ExtTreeMap.getElem?_eq_none missing]

end

/-! ## All rows -/

/-- The rows run through the values for the columns as the binary numbers do. -/
structure Enumerates (columns : List String) (rows : List Valuation) : Prop where
  /-- There are as many rows as numbers with a digit for each column, and none without columns. -/
  count : rows.length = if columns = [] then 0 else 2 ^ columns.length
  /-- A row has values for the columns and for nothing else. -/
  binds : ∀ row ∈ rows, ∀ name, name ∈ row ↔ name ∈ columns
  /-- The first column has the most significant digit of the number of the row. -/
  digit : ∀ (k : Fin rows.length) (j : Fin columns.length),
    rows[k][columns[j]]? = some ((k : Nat).testBit (columns.length - 1 - j))
  /-- All values for the columns stand in one row. -/
  unique : columns ≠ [] → ∀ values : Valuation, (∀ name, name ∈ values ↔ name ∈ columns) →
    ∃! k : Fin rows.length, rows[k] = values
  /-- Read as binary numbers the rows are the numbers in their order. -/
  ordered : ∀ k : Fin rows.length, number rows[k].assignment columns = k

theorem Enumerates.empty : Enumerates [] [] where
  count := rfl
  binds _ mem := by cases mem
  digit k := k.elim0
  unique some := absurd rfl some
  ordered k := k.elim0

theorem enumerates_of_numbered {columns : List String} {rows : List Valuation}
    (nonempty : columns ≠ []) (nodup : columns.Nodup) (count : rows.length = 2 ^ columns.length)
    (numbered : ∀ k : Fin rows.length, rows[k] = rowAt columns k) : Enumerates columns rows where
  count := by rw [count, if_neg nonempty]
  binds row mem name := by
    obtain ⟨k, listed, rfl⟩ := List.getElem_of_mem mem
    have here : rows[k] = rowAt columns k := numbered ⟨k, listed⟩
    rw [here]
    exact mem_rowAt
  digit k j := by
    rw [numbered k]
    exact getElem?_rowAt nodup (mem_digits k j.isLt)
  unique _ values binds := by
    have listed : number values.assignment columns < rows.length := by
      rw [count]
      exact number_lt values.assignment columns
    refine ⟨⟨number values.assignment columns, listed⟩, ?_, ?_⟩
    · exact (numbered _).trans (rowAt_number nodup binds)
    · rintro k rfl
      apply Fin.ext
      dsimp only
      rw [numbered k, number_rowAt nodup (count ▸ k.isLt)]
  ordered k := by
    rw [numbered k]
    exact number_rowAt nodup (count ▸ k.isLt)

theorem enumerates_fresh {columns : List String} (few : columns.length ≤ maxVariables)
    (nodup : columns.Nodup) : Enumerates columns (rows { columns }) := by
  by_cases empty : columns = []
  · subst empty
    exact .empty
  · rw [rows_fresh empty few]
    refine enumerates_of_numbered empty nodup ?_ fun k => ?_
    · rw [List.length_map, List.length_range]
    · rw [Fin.getElem_fin, List.getElem_map, List.getElem_range]

/-- Up to 63 names have a table.  Its columns are the names in code-point order, and reading it row
by row goes once through all values for them, in the order of the binary numbers.  For more names
there is no table. -/
theorem ofNames_enumerates (names : Names) :
    if names.size ≤ 63 then
      ∃ table, ofNames names = .ok table ∧ table.columns.length = names.size ∧
        table.columns.Pairwise (· < ·) ∧ (∀ name, name ∈ table.columns ↔ name ∈ names) ∧
        Enumerates table.columns table.walk
    else ofNames names = .error (.tooManyVariables names.size 63) := by
  split
  · next few =>
    have fresh : InRange { columns := names.toList } := UInt64.zero_le
    have within : names.toList.length ≤ maxVariables := by
      rw [Std.ExtTreeSet.length_toList]
      exact few
    refine ⟨{ columns := names.toList }, ofNames_eq_ok_iff.2 ⟨few, rfl⟩,
      Std.ExtTreeSet.length_toList, names.sorted_toList, fun name => Std.ExtTreeSet.mem_toList, ?_⟩
    rw [walk_eq_rows fresh]
    exact enumerates_fresh within (Names.nodup_toList names)
  · next many => exact if_pos (Nat.lt_of_not_le many)

/-- Three names, so eight rows; the sixth one gives the first and the last name in code-point order
the value true. -/
example : ((ofNames (.ofList ["Q", "P2", "P10"])).map fun table =>
    (table.columns, (rowAt table.columns 5).toList)) =
      .ok (["P10", "P2", "Q"], [("P10", true), ("P2", false), ("Q", true)]) := by
  decide +kernel

end TruthTable

end Entailment
