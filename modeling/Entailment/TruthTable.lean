import Entailment.Failure
import Entailment.Formula.Condition

/-!
# Truth tables

A truth table walks through the assignments of truth values to a set of names.  Its rows are
numbered by 64-bit words: row `k` gives the names, in code-point order, the binary digits of `k`
from the most significant one down, and a `1` is true.  A table without names has no rows.

## Main statements

* `TruthTable.toNat_size`: up to 63 names the number of rows is a power of two, no word overflows.
* `TruthTable.remaining_lt`: reading a row leaves one row less, so every walk ends.
-/

namespace Entailment

/-- A table and the number of its next row. -/
structure TruthTable where
  columns : List String
  next : UInt64 := 0
  deriving DecidableEq

namespace TruthTable

/-- With more names the rows could no longer be numbered by 64-bit words. -/
def maxVariables : Nat := 63

/-- The table over a set of names, before its first row. -/
def ofNames (names : Names) : Except Failure TruthTable :=
  if names.size > maxVariables then .error (.tooManyVariables names.size maxVariables)
  else .ok { columns := names.toList }

/-- The table over the names that the conditions of several formulas value. -/
def ofFormulas (formulas : List Formula) : Except Failure TruthTable :=
  ofNames (Names.union (formulas.map Formula.conditionNames))

def size (table : TruthTable) : UInt64 :=
  if table.columns.isEmpty then 0 else 1 <<< UInt64.ofNat table.columns.length

def remaining (table : TruthTable) : UInt64 := table.size - table.next

/-- The names with the last binary digits of a number, as many as there are names. -/
def digits : List String → Nat → List (String × Bool)
  | [], _ => []
  | name :: names, number => (name, number.testBit names.length) :: digits names number

def row (table : TruthTable) : Valuation :=
  .ofList (digits table.columns table.next.toNat)

/-- Reads a row, if one is left. -/
def next? (table : TruthTable) : Option (Valuation × TruthTable) :=
  if table.next = table.size then none
  else some (table.row, { table with next := table.next + 1 })

/-! ## Counting the rows -/

theorem digits_names (names : List String) (number : Nat) :
    (digits names number).map Prod.fst = names := by
  induction names with
  | nil => rfl
  | cons name names ih => simp [digits, ih]

/-- Up to 63 names the number of rows is a power of two, and no word overflows. -/
theorem toNat_size {table : TruthTable} (few : table.columns.length ≤ maxVariables) :
    table.size.toNat = if table.columns = [] then 0 else 1 <<< table.columns.length := by
  unfold maxVariables at few
  by_cases empty : table.columns = []
  · simp [size, empty]
  · have small : 2 ^ table.columns.length < 2 ^ 64 :=
      Nat.pow_lt_pow_right (by decide) (by omega)
    have shift : (UInt64.ofNat table.columns.length).toNat % 64 = table.columns.length := by
      rw [UInt64.toNat_ofNat']
      omega
    have word : table.size = 1 <<< UInt64.ofNat table.columns.length := by simp [size, empty]
    rw [if_neg empty, word, UInt64.toNat_shiftLeft, shift, Nat.shiftLeft_eq, UInt64.toNat_one,
      Nat.one_mul, Nat.mod_eq_of_lt small, Nat.shiftLeft_eq, Nat.one_mul]

theorem next_of_next? {table rest : TruthTable} {row : Valuation}
    (h : table.next? = some (row, rest)) :
    table.next ≠ table.size ∧ rest = { table with next := table.next + 1 } := by
  unfold next? at h
  split at h
  · cases h
  · next unread =>
    simp only [Option.some.injEq, Prod.mk.injEq] at h
    exact ⟨unread, h.2.symm⟩

theorem remaining_lt {table rest : TruthTable} {row : Valuation}
    (h : table.next? = some (row, rest)) : rest.remaining.toNat < table.remaining.toNat := by
  obtain ⟨unread, rfl⟩ := next_of_next? h
  have unread : table.next.toNat ≠ table.size.toNat := fun same =>
    unread (UInt64.toNat_inj.1 same)
  have := table.size.toNat_lt
  have := table.next.toNat_lt
  simp only [remaining, size, UInt64.toNat_sub, UInt64.toNat_add] at *
  simp only [UInt64.toNat_one]
  omega

/-! ## Walking through the rows -/

/-- Whether `test` holds in every row still unread, the walk stopping at the first where it does
not. -/
def all (test : Valuation → Except Failure Bool) (table : TruthTable) : Except Failure Bool :=
  match h : table.next? with
  | none => .ok true
  | some (row, rest) =>
    have := remaining_lt h
    do if ← test row then rest.all test else return false
termination_by table.remaining.toNat

end TruthTable

end Entailment
