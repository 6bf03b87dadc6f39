import Mathlib.Data.List.Nodup
import Entailment.Formula.Condition
import Entailment.Formula.Valuation

/-!
# Conditions partition the assignments

The conditions under which a formula is true, and those under which it is false, split the
assignments between them: an assignment meets exactly one condition, and that one stands in the
list of the truth value the formula takes.

* `Formula.eq_of_mem_conditions`: no condition is listed for both truth values.
* `Formula.nodup_conditions`: no condition is listed twice for one of them.
* `Formula.eq_conditionOf_of_met`: the only condition that an assignment can meet is the one that
  asks every occurrence for the value it has.
* `Formula.mem_conditionNames`: the conditions of truth mention every atom, also when they
  contradict themselves.
-/

namespace Entailment

namespace Connective

theorem cases_ne_nil (connective : Connective) (value : Bool) : connective.cases value ≠ [] := by
  cases connective <;> cases value <;> decide

end Connective

namespace Condition

theorem pairs_ne_nil {lefts rights : List Condition} (hl : lefts ≠ []) (hr : rights ≠ []) :
    pairs lefts rights ≠ [] := by
  obtain ⟨l, hl⟩ := List.exists_mem_of_ne_nil _ hl
  obtain ⟨r, hr⟩ := List.exists_mem_of_ne_nil _ hr
  exact List.ne_nil_of_mem (mem_pairs.2 ⟨l, hl, r, hr, rfl⟩)

theorem nodup_pairs {lefts rights : List Condition} (hl : lefts.Nodup) (hr : rights.Nodup) :
    (pairs lefts rights).Nodup := by
  unfold pairs
  rw [List.nodup_flatMap]
  constructor
  · intro left _
    exact hr.map fun a b same => by cases same; rfl
  · refine hl.imp fun {a b} different => ?_
    apply List.disjoint_left.2
    intro c ha hb
    obtain ⟨r, _, rfl⟩ := List.mem_map.1 ha
    obtain ⟨r', _, same⟩ := List.mem_map.1 hb
    cases same
    exact different rfl

end Condition

/-- The assignment that values stand for, false where there is none. -/
def Valuation.assignment (values : Valuation) (name : String) : Bool := values[name]?.getD false

theorem Valuation.getElem?_eq_assignment {values : Valuation} {name : String} (h : name ∈ values) :
    values[name]? = some (values.assignment name) := by
  obtain ⟨value, found⟩ := Option.isSome_iff_exists.1 (Std.ExtTreeMap.isSome_getElem?_iff_mem.2 h)
  rw [Valuation.assignment, found, Option.getD_some]

namespace Formula

/-! ## The lists of conditions -/

theorem conditions_ne_nil (formula : Formula) (value : Bool) : formula.conditions value ≠ [] := by
  induction formula generalizing value with
  | atom name => exact List.cons_ne_nil _ _
  | negation body ih => exact ih !value
  | binary connective left right ihl ihr =>
    obtain ⟨sides, h⟩ := List.exists_mem_of_ne_nil _ (connective.cases_ne_nil value)
    have both := Condition.pairs_ne_nil (ihl sides.1) (ihr sides.2)
    obtain ⟨condition, hc⟩ := List.exists_mem_of_ne_nil _ both
    exact List.ne_nil_of_mem (List.mem_flatMap.2 ⟨sides, h, hc⟩)

/-- A condition decides the value: it is not listed both for truth and for falsehood. -/
theorem eq_of_mem_conditions {formula : Formula} {a b : Bool} {condition : Condition}
    (ha : condition ∈ formula.conditions a) (hb : condition ∈ formula.conditions b) : a = b := by
  induction formula generalizing a b condition with
  | atom name =>
    rw [conditions, List.mem_singleton] at ha hb
    subst ha
    cases hb
    rfl
  | negation body ih => exact Bool.not_inj (ih ha hb)
  | binary connective left right ihl ihr =>
    obtain ⟨x, y, rfl, l, hl, r, hr, rfl⟩ := mem_conditions_binary.1 ha
    obtain ⟨x', y', rfl, l', hl', r', hr', same⟩ := mem_conditions_binary.1 hb
    cases same
    rw [ihl hl hl', ihr hr hr']

theorem nodup_conditions (formula : Formula) (value : Bool) :
    (formula.conditions value).Nodup := by
  induction formula generalizing value with
  | atom name => exact List.nodup_singleton _
  | negation body ih => exact ih !value
  | binary connective left right ihl ihr =>
    rw [conditions, List.nodup_flatMap]
    constructor
    · intro sides _
      exact Condition.nodup_pairs (ihl sides.1) (ihr sides.2)
    · refine (connective.nodup_cases value).imp fun {a b} different => ?_
      apply List.disjoint_left.2
      intro c ha hb
      obtain ⟨l, hl, r, hr, rfl⟩ := Condition.mem_pairs.1 ha
      obtain ⟨l', hl', r', hr', same⟩ := Condition.mem_pairs.1 hb
      cases same
      exact different (Prod.ext (eq_of_mem_conditions hl hl') (eq_of_mem_conditions hr hr'))

/-- The conditions of truth, and behind them those of falsehood. -/
def allConditions (formula : Formula) : List Condition :=
  formula.conditions true ++ formula.conditions false

theorem mem_allConditions {formula : Formula} {condition : Condition} :
    condition ∈ formula.allConditions ↔ ∃ value, condition ∈ formula.conditions value := by
  rw [allConditions, List.mem_append, Bool.exists_bool, or_comm]

theorem nodup_allConditions (formula : Formula) : formula.allConditions.Nodup := by
  refine List.nodup_append.2 ⟨nodup_conditions _ _, nodup_conditions _ _, ?_⟩
  rintro a ha b hb rfl
  cases eq_of_mem_conditions ha hb

/-! ## The condition of an assignment -/

/-- Values that agree with an assignment on the atoms give the truth under the assignment. -/
theorem value_eq_truth {formula : Formula} {values : Valuation} {assignment : String → Bool}
    (agree : ∀ name ∈ formula.occurrences, values[name]? = some (assignment name)) :
    formula.value values = .ok (formula.truth assignment) := by
  have bound : formula.firstUnbound? values = none :=
    List.find?_eq_none.2 fun name h => by simp [agree name h]
  rw [value_eq, bound]
  refine congrArg Except.ok (truth_congr fun name h => ?_)
  rw [agree name h, Option.getD_some]

/-- The condition that asks every occurrence for the value an assignment gives it. -/
def conditionOf (assignment : String → Bool) : Formula → Condition
  | atom name => .single name (assignment name)
  | negation body => body.conditionOf assignment
  | binary _ left right => .both (left.conditionOf assignment) (right.conditionOf assignment)

/-- The condition of an assignment is listed for the value of the formula. -/
theorem conditionOf_mem (assignment : String → Bool) (formula : Formula) :
    formula.conditionOf assignment ∈ formula.conditions (formula.truth assignment) := by
  induction formula with
  | atom name => exact List.mem_singleton_self _
  | negation body ih =>
    rw [conditions, truth, Bool.not_not]
    exact ih
  | binary connective left right ihl ihr =>
    exact mem_conditions_binary.2 ⟨_, _, rfl, _, ihl, _, ihr, rfl⟩

theorem met_conditionOf {formula : Formula} {values : Valuation} {assignment : String → Bool}
    (agree : ∀ name ∈ formula.occurrences, values[name]? = some (assignment name)) :
    (formula.conditionOf assignment).Met values := by
  induction formula with
  | atom name => simpa [Condition.Met, conditionOf, Condition.leaves, occurrences] using agree
  | negation body ih => exact ih agree
  | binary connective left right ihl ihr =>
    rw [conditionOf, Condition.met_both]
    rw [occurrences, List.forall_mem_append] at agree
    exact ⟨ihl agree.1, ihr agree.2⟩

/-- No other condition of the formula is met. -/
theorem eq_conditionOf_of_met {formula : Formula} {values : Valuation}
    {assignment : String → Bool} {value : Bool} {condition : Condition}
    (agree : ∀ name ∈ formula.occurrences, values[name]? = some (assignment name))
    (listed : condition ∈ formula.conditions value) (met : condition.Met values) :
    condition = formula.conditionOf assignment := by
  induction formula generalizing value condition with
  | atom name =>
    rw [conditions, List.mem_singleton] at listed
    subst listed
    have asked := met _ (List.mem_singleton_self _)
    rw [agree name (List.mem_singleton_self _), Option.some.injEq] at asked
    rw [conditionOf, asked]
  | negation body ih => exact ih agree listed met
  | binary connective left right ihl ihr =>
    obtain ⟨x, y, -, l, hl, r, hr, rfl⟩ := mem_conditions_binary.1 listed
    rw [Condition.met_both] at met
    rw [occurrences, List.forall_mem_append] at agree
    rw [conditionOf, ihl agree.1 hl met.1, ihr agree.2 hr met.2]

/-! ## Main results -/

/-- The conditions of truth mention the atoms of the formula and no other name. -/
theorem mem_conditionNames {formula : Formula} {name : String} :
    name ∈ formula.conditionNames ↔ name ∈ formula.occurrences := by
  rw [conditionNames, Names.mem_ofList, List.mem_flatMap]
  constructor
  · rintro ⟨condition, listed, h⟩
    rwa [leaves_of_mem_conditions listed] at h
  · intro h
    obtain ⟨condition, listed⟩ := List.exists_mem_of_ne_nil _ (formula.conditions_ne_nil true)
    exact ⟨condition, listed, by rwa [leaves_of_mem_conditions listed]⟩

theorem conditionNames_eq_names (formula : Formula) : formula.conditionNames = formula.names :=
  Std.ExtTreeSet.ext_mem fun _ => mem_conditionNames.trans mem_names.symm

/-- A condition listed for a value has its place in the part of `allConditions` for that value. -/
theorem exists_place {formula : Formula} {value : Bool} {condition : Condition}
    (listed : condition ∈ formula.conditions value) :
    ∃ i : Fin formula.allConditions.length, formula.allConditions[i] = condition ∧
      (value = true → i < (formula.conditions true).length) ∧
      (value = false → (formula.conditions true).length ≤ i) := by
  obtain ⟨i, hi, here⟩ := List.getElem_of_mem listed
  cases value with
  | true =>
    have inside : i < formula.allConditions.length := by
      rw [allConditions, List.length_append]
      omega
    refine ⟨⟨i, inside⟩, ?_, fun _ => hi, nofun⟩
    exact (List.getElem_append_left hi).trans here
  | false =>
    have inside : (formula.conditions true).length + i < formula.allConditions.length := by
      rw [allConditions, List.length_append]
      omega
    refine ⟨⟨_, inside⟩, ?_, nofun, fun _ => Nat.le_add_right _ _⟩
    refine (List.getElem_append_right (Nat.le_add_right _ _)).trans ?_
    simpa only [Nat.add_sub_cancel_left] using here

/-- Where every atom has a value, exactly one entry of the conditions of truth and falsehood is
met, and it stands among those of the value that the formula takes. -/
theorem exists_unique_met_condition (formula : Formula) (values : Valuation)
    (bound : ∀ name ∈ formula.occurrences, name ∈ values) :
    ∃ verdict, formula.value values = .ok verdict ∧
      ∃ i : Fin formula.allConditions.length,
        (∀ j : Fin formula.allConditions.length,
          formula.allConditions[j].Met values ↔ j = i) ∧
        (verdict = true → i < (formula.conditions true).length) ∧
        (verdict = false → (formula.conditions true).length ≤ i) := by
  have agree : ∀ name ∈ formula.occurrences, values[name]? = some (values.assignment name) :=
    fun name h => Valuation.getElem?_eq_assignment (bound name h)
  obtain ⟨i, here, side⟩ := exists_place (conditionOf_mem values.assignment formula)
  refine ⟨formula.truth values.assignment, value_eq_truth agree, i, fun j => ?_, side⟩
  -- every entry that is met is the condition of the assignment, and that stands in one place
  constructor
  · intro met
    obtain ⟨value, listed⟩ := mem_allConditions.1 (List.getElem_mem j.isLt)
    have there := eq_conditionOf_of_met agree listed met
    exact Fin.ext (((nodup_allConditions formula).getElem_inj_iff).1 (there.trans here.symm))
  · rintro rfl
    rw [here]
    exact met_conditionOf agree

/-- `(P → ¬P)` has four conditions, two of which contradict themselves. -/
theorem exists_unique_met_condition_repeated :
    let formula : Formula := .binary .conditional (.atom "P") (.negation (.atom "P"))
    let values : Valuation := .ofList [("P", true), ("Q", false)]
    (∀ name ∈ formula.occurrences, name ∈ values) ∧
    ∃ verdict, formula.value values = .ok verdict ∧
      ∃ i : Fin formula.allConditions.length,
        (∀ j : Fin formula.allConditions.length,
          formula.allConditions[j].Met values ↔ j = i) ∧
        (verdict = true → i < (formula.conditions true).length) ∧
        (verdict = false → (formula.conditions true).length ≤ i) := by
  intro formula values
  have bound : ∀ name ∈ formula.occurrences, name ∈ values := by
    intro name h
    simp only [formula, occurrences, List.cons_append, List.nil_append, List.mem_cons,
      List.not_mem_nil, or_false, or_self] at h
    simp [values, h]
  exact ⟨bound, exists_unique_met_condition formula values bound⟩

end Formula

end Entailment
