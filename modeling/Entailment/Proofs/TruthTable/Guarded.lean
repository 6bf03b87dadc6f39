import Entailment.Proofs.TruthTable.Enumeration

/-!
# Guarded rows

Rows are numbered by words, and not every operation on words has a result that is a word.  Here each
of them stands behind a guard, and where the guard refuses it a fault says so.  No guard of a table
refuses anything, whichever row is next.

* `TruthTable.guardedDigit_eq`: subtracting places and shifting by them stays within a word.
* `TruthTable.guardedNext?_eq`: reading a row meets no fault, nor does counting the rows left
  (`guardedRemaining_eq`).
* `TruthTable.Reached.inRange`: this applies to every table that reading rows leads to.
-/

namespace Entailment

/-- What would break off the execution of a statement without a result. -/
inductive Fault where
  /-- An operation on words whose result is no word. -/
  | outOfRange
  /-- A row of a truth table that has no value for an atom. -/
  | incompleteRow
  /-- The first premise of an argument without premises. -/
  | noPremise
  deriving DecidableEq

/-! ## Operations on words -/

namespace Word

def add (first second : UInt64) : Except Fault UInt64 :=
  if first.toNat + second.toNat < 2 ^ 64 then .ok (first + second) else .error .outOfRange

def sub (first second : UInt64) : Except Fault UInt64 :=
  if second ≤ first then .ok (first - second) else .error .outOfRange

def shiftLeft (word amount : UInt64) : Except Fault UInt64 :=
  if amount < 64 then .ok (word <<< amount) else .error .outOfRange

def shiftRight (word amount : UInt64) : Except Fault UInt64 :=
  if amount < 64 then .ok (word >>> amount) else .error .outOfRange

theorem toNat_ofNat_of_lt {number : Nat} (small : number < 64) :
    (UInt64.ofNat number).toNat = number :=
  UInt64.toNat_ofNat_of_lt' (Nat.lt_trans small (by decide))

theorem ofNat_lt {number : Nat} (small : number < 64) : UInt64.ofNat number < 64 := by
  rw [UInt64.lt_iff_toNat_lt, toNat_ofNat_of_lt small]
  exact small

theorem sub_ofNat {first second : Nat} (small : first < 64) (below : second ≤ first) :
    sub (.ofNat first) (.ofNat second) = .ok (.ofNat (first - second)) := by
  have smaller : second < 64 := Nat.lt_of_le_of_lt below small
  have guard : UInt64.ofNat second ≤ UInt64.ofNat first := by
    rw [UInt64.le_iff_toNat_le, toNat_ofNat_of_lt small, toNat_ofNat_of_lt smaller]
    exact below
  have difference : UInt64.ofNat first - UInt64.ofNat second = UInt64.ofNat (first - second) := by
    apply UInt64.toNat_inj.1
    rw [UInt64.toNat_sub_of_le _ _ guard, toNat_ofNat_of_lt small, toNat_ofNat_of_lt smaller,
      toNat_ofNat_of_lt (by omega)]
  rw [sub, if_pos guard, difference]

/-- The last digit of a shifted word. -/
theorem shiftRight_and_one (word : UInt64) {place : Nat} (small : place < 64) :
    ((word >>> UInt64.ofNat place) &&& 1 == 1) = word.toNat.testBit place := by
  have shifted : ((word >>> UInt64.ofNat place) &&& 1).toNat = word.toNat / 2 ^ place % 2 := by
    rw [UInt64.toNat_and, UInt64.toNat_shiftRight, toNat_ofNat_of_lt small, Nat.mod_eq_of_lt small,
      Nat.shiftRight_eq_div_pow, UInt64.toNat_one, Nat.and_one_is_mod]
  rw [Nat.testBit_eq_decide_div_mod_eq, ← shifted, Bool.eq_iff_iff, beq_iff_eq, decide_eq_true_iff,
    ← UInt64.toNat_inj, UInt64.toNat_one]

end Word

theorem mapM_eq_ok {ε α β : Type} {items : List α} {action : α → Except ε β} {result : α → β}
    (h : ∀ item ∈ items, action item = .ok (result item)) :
    items.mapM action = .ok (items.map result) := by
  induction items with
  | nil => rfl
  | cons item items ih =>
    rw [List.forall_mem_cons] at h
    rw [List.mapM_cons, h.1, ih h.2]
    rfl

namespace TruthTable

/-! ## Reading a row -/

def guardedSize (table : TruthTable) : Except Fault UInt64 :=
  if table.columns.isEmpty then .ok 0 else Word.shiftLeft 1 (.ofNat table.columns.length)

def guardedRemaining (table : TruthTable) : Except Fault UInt64 := do
  Word.sub (← table.guardedSize) table.next

/-- The digit of a row that belongs to the column with the given index. -/
def guardedDigit (row width index : UInt64) : Except Fault Bool := do
  let last ← Word.sub width 1
  let place ← Word.sub last index
  let shifted ← Word.shiftRight row place
  return shifted &&& 1 == 1

def guardedRow (table : TruthTable) : Except Fault Valuation := do
  let width := UInt64.ofNat table.columns.length
  let entries ← table.columns.zipIdx.mapM fun (name, index) =>
    (name, ·) <$> guardedDigit table.next width (.ofNat index)
  return .ofList entries

def guardedNext? (table : TruthTable) : Except Fault (Option (Valuation × TruthTable)) := do
  if table.next = (← table.guardedSize) then return none
  let row ← table.guardedRow
  let next ← Word.add table.next 1
  return some (row, { table with next })

theorem eq_size_of_guardedSize {table : TruthTable} {size : UInt64}
    (h : table.guardedSize = .ok size) : size = table.size := by
  unfold guardedSize Word.shiftLeft at h
  unfold TruthTable.size
  by_cases empty : table.columns.isEmpty = true
  · rw [if_pos empty] at h ⊢
    exact (Except.ok.inj h).symm
  · rw [if_neg empty] at h ⊢
    split at h
    · exact (Except.ok.inj h).symm
    · cases h

theorem guardedDigit_eq (row : UInt64) {width index : Nat} (few : width < 64)
    (inside : index < width) :
    guardedDigit row (.ofNat width) (.ofNat index) = .ok (row.toNat.testBit (width - 1 - index)) := by
  have some : 1 ≤ width := Nat.one_le_of_lt inside
  have last : Word.sub (.ofNat width) 1 = .ok (.ofNat (width - 1)) := Word.sub_ofNat few some
  have place : Word.sub (.ofNat (width - 1)) (.ofNat index) = .ok (.ofNat (width - 1 - index)) :=
    Word.sub_ofNat (by omega) (by omega)
  have small : width - 1 - index < 64 := by omega
  have shifted : Word.shiftRight row (.ofNat (width - 1 - index)) =
      .ok (row >>> .ofNat (width - 1 - index)) := if_pos (Word.ofNat_lt small)
  rw [← Word.shiftRight_and_one row small]
  simp only [guardedDigit, last, place, shifted, bind, Except.bind, pure, Except.pure]

section
variable {table : TruthTable} (few : table.columns.length ≤ maxVariables)

include few

theorem guardedSize_eq : table.guardedSize = .ok table.size := by
  have within : UInt64.ofNat table.columns.length < 64 := Word.ofNat_lt (Nat.lt_succ_of_le few)
  unfold guardedSize size
  split
  · rfl
  · rw [Word.shiftLeft, if_pos within]

theorem guardedRow_eq : table.guardedRow = .ok table.row := by
  have digit : ∀ entry ∈ table.columns.zipIdx,
      ((entry.1, ·) <$> guardedDigit table.next (.ofNat table.columns.length) (.ofNat entry.2)) =
        .ok (entry.1, table.next.toNat.testBit (table.columns.length - 1 - entry.2)) := by
    intro entry listed
    rw [guardedDigit_eq _ (Nat.lt_succ_of_le few) (List.snd_lt_of_mem_zipIdx listed)]
    rfl
  rw [guardedRow, mapM_eq_ok digit, row, digits_eq_mapIdx, List.mapIdx_eq_zipIdx_map]
  rfl

variable (ok : table.InRange)

include ok

theorem guardedRemaining_eq : table.guardedRemaining = .ok table.remaining := by
  rw [guardedRemaining, guardedSize_eq few]
  exact if_pos ok

/-- Reading a row of a table of up to 63 columns meets no fault. -/
theorem guardedNext?_eq : table.guardedNext? = .ok table.next? := by
  rw [guardedNext?, guardedSize_eq few, guardedRow_eq few]
  unfold next?
  by_cases last : table.next = table.size
  · simp [last, bind, Except.bind, pure, Except.pure]
  · have following : Word.add table.next 1 = .ok (table.next + 1) :=
      if_pos (Nat.lt_of_le_of_lt (ok.next_lt last) table.size.toNat_lt)
    simp [last, following, bind, Except.bind, pure, Except.pure]

end

/-- A table with a column more could not even be counted. -/
example : guardedSize { columns := List.replicate 64 "P" } = .error .outOfRange := by
  decide +kernel

/-! ## Walking through the rows -/

theorem next?_of_guardedNext? {table rest : TruthTable} {row : Valuation}
    (h : table.guardedNext? = .ok (some (row, rest))) : table.next? = some (table.row, rest) := by
  obtain ⟨size, counted, h⟩ := bind_eq_ok_iff.1 h
  obtain rfl := eq_size_of_guardedSize counted
  unfold next?
  by_cases last : table.next = table.size
  · rw [if_pos last] at h
    cases h
  · rw [if_neg last] at h ⊢
    obtain ⟨_, -, h⟩ := bind_eq_ok_iff.1 h
    obtain ⟨next, added, ⟨⟩⟩ := bind_eq_ok_iff.1 h
    unfold Word.add at added
    split at added
    · rw [Except.ok.inj added]
    · cases added

theorem remaining_lt_of_guardedNext? {table rest : TruthTable} {row : Valuation}
    (h : table.guardedNext? = .ok (some (row, rest))) :
    rest.remaining.toNat < table.remaining.toNat :=
  remaining_lt (next?_of_guardedNext? h)

def guardedAll (test : Valuation → Except Fault Bool) (table : TruthTable) : Except Fault Bool :=
  match h : table.guardedNext? with
  | .error fault => .error fault
  | .ok none => .ok true
  | .ok (some (row, rest)) =>
    have := remaining_lt_of_guardedNext? h
    do if ← test row then rest.guardedAll test else return false
termination_by table.remaining.toNat

/-- Only the test can meet a fault on a walk through a table. -/
theorem guardedAll_eq_allM {table : TruthTable} (few : table.columns.length ≤ maxVariables)
    (ok : table.InRange) (test : Valuation → Except Fault Bool) :
    table.guardedAll test = table.rows.allM test := by
  fun_induction guardedAll test table with
  | case1 table fault met =>
    rw [guardedNext?_eq few ok] at met
    cases met
  | case2 table finished =>
    rw [guardedNext?_eq few ok, Except.ok.injEq] at finished
    rw [rows_eq ok, finished]
    rfl
  | case3 table row rest found _ ih =>
    rw [guardedNext?_eq few ok, Except.ok.injEq] at found
    have same : rest.columns = table.columns := by rw [(next_of_next? found).2]
    rw [rows_eq ok, found, List.allM_cons, ih (same ▸ few) (inRange_of_next? ok found)]

/-- The tables that reading rows of the table over some names leads to. -/
inductive Reached (names : Names) : TruthTable → Prop where
  | fresh {table : TruthTable} : ofNames names = .ok table → Reached names table
  | next {table rest : TruthTable} {row : Valuation} : Reached names table →
      table.next? = some (row, rest) → Reached names rest

theorem few_of_ofNames {names : Names} {table : TruthTable} (h : ofNames names = .ok table) :
    table.columns.length ≤ maxVariables := by
  obtain ⟨few, rfl⟩ := ofNames_eq_ok_iff.1 h
  rw [Std.ExtTreeSet.length_toList]
  exact few

theorem inRange_of_ofNames {names : Names} {table : TruthTable} (h : ofNames names = .ok table) :
    table.InRange := by
  obtain ⟨-, rfl⟩ := ofNames_eq_ok_iff.1 h
  exact UInt64.zero_le

/-- Reading a row keeps the columns, and the next row in range. -/
theorem Reached.inRange {names : Names} {table : TruthTable} (h : Reached names table) :
    table.columns.length ≤ maxVariables ∧ table.InRange := by
  induction h with
  | fresh built => exact ⟨few_of_ofNames built, inRange_of_ofNames built⟩
  | next _ found ih =>
    refine ⟨?_, inRange_of_next? ih.2 found⟩
    rw [(next_of_next? found).2]
    exact ih.1

end TruthTable

end Entailment
