import Mathlib.Data.List.Count
import Mathlib.Tactic.Ring
import Entailment.Proofs.Formula.Conditions

/-!
# Leaves of the conditions

Flattened, the conditions of a formula are the ways of giving a truth value to each occurrence of an
atom, whether or not occurrences of one atom are given the same value.  With `n` occurrences there
are `2 ^ n` ways, and the conditions of truth and those of falsehood divide them up.

* `Formula.leaves_injective`: a condition is known from its leaves.
* `Formula.exists_condition`: every way of valuing the occurrences is the leaves of a condition.
* `Formula.length_allConditions`: the number of conditions.

Main statement: `Formula.conditions_divide_valuings`.
-/

namespace Entailment

theorem Condition.length_pairs (lefts rights : List Condition) :
    (pairs lefts rights).length = lefts.length * rights.length := by
  simp [pairs, List.length_flatMap]

namespace Formula

theorem length_leaves {formula : Formula} {value : Bool} {condition : Condition}
    (listed : condition ∈ formula.conditions value) :
    condition.leaves.length = formula.occurrences.length := by
  rw [← leaves_of_mem_conditions listed, List.length_map]

/-- Conditions of one formula have the same shape, so they differ in a leaf. -/
theorem leaves_injective {formula : Formula} {a b : Bool} {c d : Condition}
    (hc : c ∈ formula.conditions a) (hd : d ∈ formula.conditions b)
    (same : c.leaves = d.leaves) : c = d := by
  induction formula generalizing a b c d with
  | atom name =>
    rw [conditions, List.mem_singleton] at hc hd
    subst hc hd
    simpa [Condition.leaves] using same
  | negation body ih => exact ih hc hd same
  | binary connective left right ihl ihr =>
    obtain ⟨_, _, -, l, hl, r, hr, rfl⟩ := mem_conditions_binary.1 hc
    obtain ⟨_, _, -, l', hl', r', hr', rfl⟩ := mem_conditions_binary.1 hd
    have long : l.leaves.length = l'.leaves.length := by
      rw [length_leaves hl, length_leaves hl']
    obtain ⟨lefts, rights⟩ := List.append_inj same long
    rw [ihl hl hl' lefts, ihr hr hr' rights]

theorem nodup_leaves (formula : Formula) (value : Bool) :
    ((formula.conditions value).map Condition.leaves).Nodup :=
  (formula.nodup_conditions value).map_on fun _ hc _ hd same => leaves_injective hc hd same

/-- However the occurrences are valued, a condition asks for just these values. -/
theorem exists_condition (formula : Formula) {digits : List Bool}
    (long : digits.length = formula.occurrences.length) :
    ∃ value, ∃ condition ∈ formula.conditions value,
      condition.leaves = formula.occurrences.zip digits := by
  induction formula generalizing digits with
  | atom name =>
    obtain ⟨digit, rfl⟩ := List.length_eq_one_iff.1 long
    exact ⟨digit, _, List.mem_singleton_self _, rfl⟩
  | negation body ih =>
    obtain ⟨value, condition, listed, asked⟩ := ih long
    refine ⟨!value, condition, ?_, asked⟩
    rw [conditions, Bool.not_not]
    exact listed
  | binary connective left right ihl ihr =>
    rw [occurrences, List.length_append] at long
    have front : (digits.take left.occurrences.length).length = left.occurrences.length := by
      rw [List.length_take]
      omega
    have behind : (digits.drop left.occurrences.length).length = right.occurrences.length := by
      rw [List.length_drop]
      omega
    obtain ⟨a, l, hl, lefts⟩ := ihl front
    obtain ⟨b, r, hr, rights⟩ := ihr behind
    refine ⟨connective.apply a b, .both l r, ?_, ?_⟩
    · exact mem_conditions_binary.2 ⟨a, b, rfl, l, hl, r, hr, rfl⟩
    -- the values are cut where the occurrences of the left side end
    · rw [Condition.leaves, lefts, rights, occurrences, ← List.zip_append front.symm,
        List.take_append_drop]

/-- The sides of a connective are valued in all four ways, each for one value of the whole. -/
theorem length_conditions_add (formula : Formula) :
    (formula.conditions true).length + (formula.conditions false).length =
      2 ^ formula.occurrences.length := by
  induction formula with
  | atom name => rfl
  | negation body ih =>
    rw [Nat.add_comm]
    exact ih
  | binary connective left right ihl ihr =>
    rw [occurrences, List.length_append, Nat.pow_add, ← ihl, ← ihr]
    cases connective <;>
      simp only [conditions, Connective.cases, List.flatMap_cons, List.flatMap_nil,
        List.append_nil, List.length_append, Condition.length_pairs] <;>
      ring

theorem length_allConditions (formula : Formula) :
    formula.allConditions.length = 2 ^ formula.occurrences.length := by
  rw [allConditions, List.length_append, length_conditions_add]

/-! ## Main result -/

/-- Every condition of a formula has a leaf for each occurrence of an atom, in the same order.
Neither list of conditions is empty, and together they have no condition twice, and `2 ^ n` of them
for `n` occurrences.  Thus each way of giving a truth value to every occurrence is found once, and
in one of the lists only. -/
theorem conditions_divide_valuings (formula : Formula) :
    (∀ value, ∀ condition ∈ formula.conditions value,
      condition.leaves.map Prod.fst = formula.occurrences) ∧
    (∀ value, formula.conditions value ≠ []) ∧
    (formula.conditions true ++ formula.conditions false).Nodup ∧
    (formula.conditions true ++ formula.conditions false).length =
      2 ^ formula.occurrences.length ∧
    ∀ digits : List Bool, digits.length = formula.occurrences.length →
      ∃ value,
        ((formula.conditions value).map Condition.leaves).count
          (formula.occurrences.zip digits) = 1 ∧
        ((formula.conditions !value).map Condition.leaves).count
          (formula.occurrences.zip digits) = 0 := by
  refine ⟨fun _ _ => leaves_of_mem_conditions, formula.conditions_ne_nil,
    formula.nodup_allConditions, formula.length_allConditions, fun digits long => ?_⟩
  obtain ⟨value, condition, listed, asked⟩ := formula.exists_condition long
  refine ⟨value, ?_, ?_⟩
  · rw [← asked]
    exact List.count_eq_one_of_mem (formula.nodup_leaves value) (List.mem_map_of_mem listed)
  · rw [List.count_eq_zero, ← asked]
    intro mem
    obtain ⟨other, listed', same⟩ := List.mem_map.1 mem
    rw [leaves_injective listed' listed same] at listed'
    exact Bool.not_ne_self value (eq_of_mem_conditions listed' listed)

/-- Of the eight ways of valuing three occurrences five make the disjunction true, though some of
them value `P` in two ways. -/
example :
    let formula : Formula :=
      .binary .disjunction (.binary .conjunction (.atom "P") (.atom "Q")) (.negation (.atom "P"))
    (formula.conditions true).length = 5 ∧
      [("P", true), ("Q", true), ("P", true)] ∈
        (formula.conditions true).map Condition.leaves := by
  decide +kernel

end Formula

end Entailment
