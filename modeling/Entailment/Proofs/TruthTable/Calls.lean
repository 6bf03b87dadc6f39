import Entailment.Proofs.TruthTable.Guarded

/-!
# Calls of a table

A table is asked for its next row and for the number of rows it has left, in any order and any
number of times.  It counts its rows by words, and the number that it tells is at every point the
number of rows that it still gives; behind the last row it stays as it is.

* `TruthTable.guardedCall_eq`: no call of a table that others led to meets a fault.
* `TruthTable.toNat_remaining`: the word for the rows left is their number.
* `TruthTable.rows_after` and `TruthTable.rows_replies`: the rows that calls take off the front of
  those unread are the rows that they give.

Main statement: `TruthTable.calls_keep_count`.
-/

namespace Entailment

namespace TruthTable

/-! ## Calls and replies -/

inductive Call where
  /-- Its next row. -/
  | next
  /-- The least and the greatest number of rows it may have left. -/
  | sizeHint
  deriving DecidableEq

inductive Reply where
  | row (values : Valuation)
  /-- No row is left. -/
  | finished
  | hint (least : UInt64) (greatest : Option UInt64)

def Reply.row? : Reply → Option Valuation
  | .row values => some values
  | _ => none

/-- The reply to a call, and the table behind it. -/
def call (table : TruthTable) : Call → Reply × TruthTable
  | .next =>
    match table.next? with
    | none => (.finished, table)
    | some (row, rest) => (.row row, rest)
  | .sizeHint => (.hint table.remaining (some table.remaining), table)

/-- The same with guards for the operations on words. -/
def guardedCall (table : TruthTable) : Call → Except Fault (Reply × TruthTable)
  | .next => do
    match ← table.guardedNext? with
    | none => return (.finished, table)
    | some (row, rest) => return (.row row, rest)
  | .sizeHint => do
    let left ← table.guardedRemaining
    return (.hint left (some left), table)

def after (table : TruthTable) : List Call → TruthTable
  | [] => table
  | first :: others => (table.call first).2.after others

def replies (table : TruthTable) : List Call → List Reply
  | [] => []
  | first :: others => (table.call first).1 :: (table.call first).2.replies others

theorem guardedCall_eq {table : TruthTable} (few : table.columns.length ≤ maxVariables)
    (ok : table.InRange) (call : Call) : table.guardedCall call = .ok (table.call call) := by
  cases call with
  | next =>
    rw [guardedCall, TruthTable.call, guardedNext?_eq few ok]
    cases table.next? <;> rfl
  | sizeHint =>
    rw [guardedCall, guardedRemaining_eq few ok]
    rfl

/-! ## One call -/

theorem Reached.call {names : Names} {table : TruthTable} (h : Reached names table) (call : Call) :
    Reached names (table.call call).2 := by
  cases call with
  | next =>
    rw [TruthTable.call]
    cases found : table.next? with
    | none => exact h
    | some read => exact h.next found
  | sizeHint => exact h

section
variable {table : TruthTable} (ok : table.InRange)

include ok

/-- The word for the number of rows left did not wrap. -/
theorem toNat_remaining : table.remaining.toNat = table.rows.length := by
  rw [remaining, UInt64.toNat_sub_of_le _ _ ok, rows, List.length_map, List.length_range']

theorem call_next_of_rows_nil (none : table.rows = []) : table.call .next = (.finished, table) := by
  rw [rows_eq ok] at none
  rw [call]
  cases found : table.next? with
  | none => rfl
  | some read =>
    rw [found] at none
    cases none

theorem call_next_of_rows_cons {row : Valuation} {others : List Valuation}
    (some : table.rows = row :: others) :
    (table.call .next).1 = .row row ∧ (table.call .next).2.rows = others := by
  rw [rows_eq ok] at some
  rw [call]
  cases found : table.next? with
  | none =>
    rw [found] at some
    cases some
  | some read =>
    rw [found] at some
    cases some
    exact ⟨rfl, rfl⟩

end

/-! ## Several calls -/

section
variable {names : Names} {table : TruthTable} (h : Reached names table)

include h

theorem Reached.after (calls : List Call) : Reached names (table.after calls) := by
  induction calls generalizing table with
  | nil => exact h
  | cons first others ih => exact ih (h.call first)

/-- Asking for a row takes one off, as long as there is one, and asking for their number takes
none. -/
theorem rows_after (calls : List Call) :
    (table.after calls).rows = table.rows.drop (calls.count .next) := by
  induction calls generalizing table with
  | nil => rfl
  | cons first others ih =>
    rw [TruthTable.after, ih (h.call first)]
    cases first with
    | sizeHint =>
      rw [List.count_cons_of_ne (by decide)]
      rfl
    | next =>
      rw [List.count_cons_self]
      cases unread : table.rows with
      | nil => rw [call_next_of_rows_nil h.inRange.2 unread, unread, List.drop_nil, List.drop_nil]
      | cons row behind =>
        rw [(call_next_of_rows_cons h.inRange.2 unread).2, List.drop_succ_cons]

/-- The rows that are taken off are those in the replies. -/
theorem rows_replies (calls : List Call) :
    (table.replies calls).filterMap Reply.row? = table.rows.take (calls.count .next) := by
  induction calls generalizing table with
  | nil => rfl
  | cons first others ih =>
    rw [replies, List.filterMap_cons, ih (h.call first)]
    cases first with
    | sizeHint =>
      rw [List.count_cons_of_ne (by decide)]
      rfl
    | next =>
      rw [List.count_cons_self]
      cases unread : table.rows with
      | nil =>
        rw [call_next_of_rows_nil h.inRange.2 unread, unread, List.take_nil, List.take_nil]
        rfl
      | cons row behind =>
        obtain ⟨given, left⟩ := call_next_of_rows_cons h.inRange.2 unread
        rw [given, left, List.take_succ_cons]
        rfl

end

/-! ## Main result -/

theorem length_rows_of_ofNames {names : Names} {table : TruthTable}
    (built : ofNames names = .ok table) :
    table.rows.length = if names.size = 0 then 0 else 2 ^ names.size := by
  obtain ⟨few, rfl⟩ := ofNames_eq_ok_iff.1 built
  have within : names.toList.length ≤ maxVariables := by
    rw [Std.ExtTreeSet.length_toList]
    exact few
  rw [(enumerates_fresh within names.nodup_toList).count]
  simp only [← List.length_eq_zero_iff, Std.ExtTreeSet.length_toList]

/-- Whatever calls were made of a table over `n` names, `2 ^ n` rows less those asked for are left,
and none where there are no names.  No operation on words wraps; the hint is this number twice, and
takes nothing from it; just as many of the calls that follow for a row are given one, and the others
leave the table as it is. -/
theorem calls_keep_count (names : Names) (few : names.size ≤ 63) :
    ∃ table, ofNames names = .ok table ∧ ∀ calls : List Call,
      let left := if names.size = 0 then 0 else 2 ^ names.size - calls.count .next
      let reached := table.after calls
      (∀ call, reached.guardedCall call = .ok (reached.call call)) ∧
      (∃ word : UInt64, word.toNat = left ∧
        reached.call .sizeHint = (.hint word (some word), reached)) ∧
      ∀ further : List Call,
        ((reached.replies further).filterMap Reply.row?).length = min left (further.count .next) ∧
        (left ≤ further.count .next →
          (reached.after further).call .next = (.finished, reached.after further)) := by
  have built : ofNames names = .ok { columns := names.toList } := ofNames_eq_ok_iff.2 ⟨few, rfl⟩
  refine ⟨_, built, fun calls => ?_⟩
  intro left reached
  have h : Reached names reached := (Reached.fresh built).after calls
  obtain ⟨within, ok⟩ := h.inRange
  have count : reached.rows.length = left := by
    rw [rows_after (.fresh built), List.length_drop, length_rows_of_ofNames built]
    show _ = if names.size = 0 then 0 else 2 ^ names.size - calls.count .next
    split
    · exact Nat.zero_sub _
    · rfl
  refine ⟨guardedCall_eq within ok, ⟨_, ?_, rfl⟩, fun further => ⟨?_, fun all => ?_⟩⟩
  · rw [toNat_remaining ok, count]
  · rw [rows_replies h, List.length_take, count, Nat.min_comm]
  · apply call_next_of_rows_nil (h.after further).inRange.2
    rw [rows_after h, List.drop_of_length_le (count ▸ all)]

/-- The widest table has `2 ^ 63` rows, two less when two were read. -/
theorem calls_keep_count_widest :
    let names : Names := .ofList ((List.range 63).map fun k => "P" ++ toString k)
    names.size = 63 ∧ ∃ table word, ofNames names = .ok table ∧ word.toNat = 2 ^ 63 - 2 ∧
      ((table.after [.next, .sizeHint, .next]).call .sizeHint).1 = .hint word (some word) := by
  intro names
  have size : names.size = 63 := by decide +kernel
  obtain ⟨table, built, counted⟩ := calls_keep_count names (Nat.le_of_eq size)
  obtain ⟨-, ⟨word, left, hint⟩, -⟩ := counted [.next, .sizeHint, .next]
  refine ⟨size, table, word, built, ?_, congrArg Prod.fst hint⟩
  rw [left, size]
  rfl

end TruthTable

end Entailment
