import Entailment.Proofs.Formula.Conditions
import Entailment.Proofs.Formula.Meaning

/-!
# Values of formulas

Values for some of the names decide a formula once they decide each of its atoms, and they decide it
classically.  Where an atom has no value, the leftmost such occurrence is what valuing the formula
comes to: no side of a connective is passed over, whatever the other side is worth.

* `Valuation.given_eq_error_iff` and `Valuation.given_eq_ok_iff`: what an answer that needs values for
  some names comes to.
* `Formula.value_eq_given`: valuing a formula is to give its truth, and needs values for its atoms.
* `Formula.value_congr` and `Formula.value_of_extends`: other values for the other names change
  nothing, nor do values for more names once there is a value.

Main statement: `Formula.value_classical_or_leftmost`.
-/

namespace Entailment

namespace Valuation

/-! ## The first name without a value -/

/-- The first of several names to which `values` gives nothing. -/
def firstUnbound? (values : Valuation) (names : List String) : Option String :=
  names.find? fun name => values[name]?.isNone

/-- The names in front of `name` have values, and `name` has none. -/
def FirstUnbound (values : Valuation) (names : List String) (name : String) : Prop :=
  ∃ before behind, names = before ++ name :: behind ∧
    (∀ earlier ∈ before, earlier ∈ values) ∧ name ∉ values

/-- An answer that needs a value for each of the names: the first that has none is missed. -/
def given (values : Valuation) (names : List String) (answer : Bool) : Except Failure Bool :=
  match values.firstUnbound? names with
  | some name => .error (.unbound name)
  | none => .ok answer

/-- All values are kept, and there may be more of them. -/
def Extends (values more : Valuation) : Prop :=
  ∀ (name : String) (value : Bool), values[name]? = some value → more[name]? = some value

variable {values : Valuation} {names : List String} {name : String}

theorem isNone_getElem?_iff : values[name]?.isNone = true ↔ name ∉ values := by
  rw [← Std.ExtTreeMap.isSome_getElem?_iff_mem, Bool.not_eq_true, Option.isSome_eq_false_iff]

theorem firstUnbound?_eq_some_iff :
    values.firstUnbound? names = some name ↔ values.FirstUnbound names name := by
  have bound : ∀ other, (!values[other]?.isNone) = true ↔ other ∈ values := by
    intro other
    rw [Bool.not_eq_true', ← Bool.not_eq_true, isNone_getElem?_iff, not_not]
  simp only [firstUnbound?, List.find?_eq_some_iff_append, isNone_getElem?_iff, bound]
  constructor
  · rintro ⟨unbound, before, behind, cut, earlier⟩
    exact ⟨before, behind, cut, earlier, unbound⟩
  · rintro ⟨before, behind, cut, earlier, unbound⟩
    exact ⟨unbound, before, behind, cut, earlier⟩

theorem FirstUnbound.mem (h : values.FirstUnbound names name) : name ∈ names := by
  obtain ⟨before, behind, rfl, -, -⟩ := h
  exact List.mem_append_right _ List.mem_cons_self

theorem FirstUnbound.notMem (h : values.FirstUnbound names name) : name ∉ values := by
  obtain ⟨_, _, -, -, unbound⟩ := h
  exact unbound

theorem firstUnbound?_eq_none_iff :
    values.firstUnbound? names = none ↔ ∀ name ∈ names, name ∈ values := by
  simp only [firstUnbound?, List.find?_eq_none, isNone_getElem?_iff, not_not]

theorem given_of_complete {answer : Bool} (complete : ∀ name ∈ names, name ∈ values) :
    values.given names answer = .ok answer := by
  rw [given, firstUnbound?_eq_none_iff.2 complete]

theorem given_eq_error_iff {answer : Bool} {failure : Failure} :
    values.given names answer = .error failure ↔
      ∃ name, failure = .unbound name ∧ values.FirstUnbound names name := by
  simp only [given, ← firstUnbound?_eq_some_iff]
  cases values.firstUnbound? names with
  | some name => simp [eq_comm]
  | none => simp

theorem given_eq_ok_iff {answer found : Bool} :
    values.given names answer = .ok found ↔ (∀ name ∈ names, name ∈ values) ∧ answer = found := by
  rw [given, ← firstUnbound?_eq_none_iff]
  cases values.firstUnbound? names with
  | some name => simp
  | none => simp

/-- What follows an answer matters only where the names that it needs have values. -/
theorem given_bind {front behind : List String} {answer result : Bool}
    {next : Bool → Except Failure Bool}
    (same : (∀ name ∈ front, name ∈ values) → next answer = values.given behind result) :
    (values.given front answer >>= next) = values.given (front ++ behind) result := by
  have cut : values.firstUnbound? (front ++ behind) =
      (values.firstUnbound? front).or (values.firstUnbound? behind) := List.find?_append
  rw [given, given, cut]
  cases first : values.firstUnbound? front with
  | some name => rfl
  | none =>
    rw [Option.none_or]
    exact same (firstUnbound?_eq_none_iff.1 first)

end Valuation

namespace Formula

/-- The atoms of the formula have values, and these make it true or false as `verdict` says. -/
def Takes (values : Valuation) (formula : Formula) (verdict : Bool) : Prop :=
  (∀ name ∈ formula.occurrences, name ∈ values) ∧
    (verdict = true ↔ formula.Holds values.assignment)

instance (assignment : String → Bool) (formula : Formula) : Decidable (formula.Holds assignment) :=
  decidable_of_iff _ truth_eq_true_iff

instance (values : Valuation) (formula : Formula) (verdict : Bool) :
    Decidable (formula.Takes values verdict) :=
  inferInstanceAs (Decidable (_ ∧ _))

section
variable {formula : Formula} {values : Valuation}
  (complete : ∀ name ∈ formula.occurrences, name ∈ values)

include complete

theorem takes_true_iff : formula.Takes values true ↔ formula.Holds values.assignment := by
  rw [Takes, and_iff_right complete, eq_self, true_iff]

theorem takes_false_iff : formula.Takes values false ↔ ¬ formula.Holds values.assignment := by
  rw [Takes, and_iff_right complete, Bool.false_eq_true, false_iff]

end

variable {formula : Formula} {values : Valuation}

/-! ## What valuing comes to -/

/-- Valuing a formula comes to its truth, given that its atoms have values. -/
theorem value_eq_given (formula : Formula) (values : Valuation) :
    formula.value values = values.given formula.occurrences (formula.truth values.assignment) :=
  value_eq values formula

theorem value_of_complete (complete : ∀ name ∈ formula.occurrences, name ∈ values) :
    formula.value values = .ok (formula.truth values.assignment) := by
  rw [value_eq_given, Valuation.given_of_complete complete]

theorem value_eq_error_iff {failure : Failure} :
    formula.value values = .error failure ↔
      ∃ name, failure = .unbound name ∧ values.FirstUnbound formula.occurrences name := by
  rw [value_eq_given, Valuation.given_eq_error_iff]

theorem value_eq_ok_iff {verdict : Bool} :
    formula.value values = .ok verdict ↔ formula.Takes values verdict := by
  rw [value_eq_given, Valuation.given_eq_ok_iff, Takes, ← truth_eq_true_iff, ← Bool.eq_iff_iff,
    eq_comm]

/-! ## Other values -/

/-- Only the values of the atoms matter, and whether they have any. -/
theorem value_congr {other : Valuation}
    (agree : ∀ name ∈ formula.occurrences, other[name]? = values[name]?) :
    formula.value other = formula.value values := by
  induction formula with
  | atom name => rw [value, value, agree name (List.mem_singleton_self _)]
  | negation body ih => rw [value, value, ih agree]
  | binary connective left right ihl ihr =>
    rw [occurrences, List.forall_mem_append] at agree
    rw [value, value, ihl agree.1, ihr agree.2]

/-- A value that was found is kept when more names get values. -/
theorem value_of_extends {more : Valuation} {verdict : Bool} (extended : values.Extends more)
    (found : formula.value values = .ok verdict) : formula.value more = .ok verdict := by
  rw [← found]
  apply value_congr
  intro name occurs
  have bound := Valuation.getElem?_eq_assignment ((value_eq_ok_iff.1 found).1 name occurs)
  rw [bound, extended name _ bound]

/-! ## Main result -/

/-- Valuing a formula fails just if an atom has no value, and then for the leftmost occurrence of
such an atom.  Otherwise it comes to the classical truth value.  Names that do not occur have no
part in it. -/
theorem value_classical_or_leftmost (formula : Formula) (values : Valuation) :
    (∀ failure, formula.value values = .error failure ↔
      ∃ name, failure = .unbound name ∧ values.FirstUnbound formula.occurrences name) ∧
    (∀ verdict, formula.value values = .ok verdict ↔
      (∀ name ∈ formula.occurrences, name ∈ values) ∧
        (verdict = true ↔ formula.Holds values.assignment)) ∧
    ∀ other : Valuation, (∀ name ∈ formula.occurrences, other[name]? = values[name]?) →
      formula.value other = formula.value values :=
  ⟨fun _ => value_eq_error_iff, fun _ => value_eq_ok_iff, fun _ => value_congr⟩

/-- The right side would make the disjunction true, and still the left one is missed. -/
example : (binary .disjunction (.negation (.atom "R")) (.atom "P")).value (.ofList [("P", true)]) =
    .error (.unbound "R") := by
  decide +kernel

end Formula

end Entailment
