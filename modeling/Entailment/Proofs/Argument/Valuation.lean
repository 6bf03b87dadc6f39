import Entailment.Argument.Verdict
import Entailment.Proofs.Formula.Valuation

/-!
# Arguments under values for some names

An argument is true when its premises and its conclusion are.  The premises are visited in order up
to the first that is false, and then the conclusion is visited whatever they came to; the first atom
without a value that is come to on this way is missed.  So the order of the premises matters only
for whether an atom is missed, and for which.

* `Argument.allM_value_eq_given`: what visiting the premises comes to.
* `Argument.value_eq_given`: what valuing the argument comes to.
* `Argument.value_of_extends`: values for more names change no answer.
* `Argument.value_of_perm`: nor does another order of the premises.

Main statement: `Argument.value_in_visiting_order`.
-/

namespace Entailment

/-- A test that gives all the answers of another gives them for a list as well. -/
theorem allM_eq_ok_of_imp {ε α : Type} {items : List α} {test other : α → Except ε Bool}
    {answer : Bool} (kept : ∀ item verdict, test item = .ok verdict → other item = .ok verdict)
    (found : items.allM test = .ok answer) : items.allM other = .ok answer := by
  induction items with
  | nil => exact found
  | cons item items ih =>
    rw [List.allM_cons] at found ⊢
    obtain ⟨verdict, first, others⟩ := bind_eq_ok_iff.1 found
    rw [kept item verdict first]
    cases verdict with
    | false => exact others
    | true => exact ih others

namespace Argument

open Formula (Takes takes_true_iff takes_false_iff)

variable {values : Valuation}

/-! ## Visiting the premises -/

/-- The premises up to the first that is false, which is still visited. -/
def visited (values : Valuation) : List Formula → List Formula
  | [] => []
  | premise :: others =>
    premise :: if premise.Takes values false then [] else visited values others

/-- The atoms of the premises that are visited, and then of the conclusion. -/
def visitedNames (values : Valuation) (premises : List Formula) (conclusion : Formula) :
    List String :=
  (visited values premises ++ [conclusion]).flatMap Formula.occurrences

/-- Visiting the premises is to say whether all are true, and needs values for the atoms of those
that are visited. -/
theorem allM_value_eq_given (values : Valuation) (premises : List Formula) :
    (premises.allM fun premise => premise.value values) =
      values.given ((visited values premises).flatMap Formula.occurrences)
        (decide (∀ premise ∈ premises, premise.Takes values true)) := by
  induction premises with
  | nil => rfl
  | cons premise others ih =>
    rw [List.allM_cons, Formula.value_eq_given, visited, List.flatMap_cons]
    apply Valuation.given_bind
    -- from here on the premise is true or false, and false it is the last that is visited
    intro complete
    by_cases holds : premise.Holds values.assignment
    · have taken := (takes_true_iff complete).2 holds
      have unrefuted : ¬ premise.Takes values false := fun refuted =>
        (takes_false_iff complete).1 refuted holds
      rw [Formula.truth_eq_true_iff.2 holds, if_neg unrefuted]
      simp only [List.forall_mem_cons, taken, true_and]
      exact ih
    · have refuted := (takes_false_iff complete).2 holds
      have untrue : ¬ ∀ other ∈ premise :: others, other.Takes values true := fun all =>
        holds ((takes_true_iff complete).1 (all premise List.mem_cons_self))
      rw [← Formula.truth_eq_true_iff, Bool.not_eq_true] at holds
      rw [holds, if_pos refuted, decide_eq_false untrue]
      rfl

/-! ## Valuing the argument -/

theorem value_of_none {argument : Argument} (h : argument.conclusion = none) :
    argument.value values = .error (.unsupported .value) := by
  rw [value, h]
  rfl

section
variable {argument : Argument} {conclusion : Formula} (h : argument.conclusion = some conclusion)

include h

/-- Valuing an argument is to say whether all its formulas are true. -/
theorem value_eq_given :
    argument.value values =
      values.given (visitedNames values argument.premises conclusion)
        (decide (∀ formula ∈ argument.formulas, formula.Takes values true)) := by
  rw [value, h]
  show ((argument.premises.allM fun premise => premise.value values) >>= fun premisesHold =>
    conclusion.value values >>= fun conclusionHolds => pure (conclusionHolds && premisesHold)) = _
  rw [allM_value_eq_given, visitedNames, List.flatMap_append, List.flatMap_singleton]
  apply Valuation.given_bind
  intro _
  conv_rhs => rw [← List.append_nil conclusion.occurrences]
  rw [Formula.value_eq_given]
  apply Valuation.given_bind
  intro complete
  have both : (∀ formula ∈ argument.formulas, formula.Takes values true) ↔
      conclusion.truth values.assignment = true ∧
        ∀ premise ∈ argument.premises, premise.Takes values true := by
    rw [formulas, h, Option.toList_some, List.forall_mem_append, List.forall_mem_singleton,
      takes_true_iff complete, Formula.truth_eq_true_iff, and_comm]
  rw [decide_eq_decide.2 both, Bool.decide_and, Bool.decide_eq_true]
  rfl

theorem value_eq_error_iff {failure : Failure} :
    argument.value values = .error failure ↔ ∃ name, failure = .unbound name ∧
      values.FirstUnbound (visitedNames values argument.premises conclusion) name := by
  rw [value_eq_given h, Valuation.given_eq_error_iff]

theorem value_eq_ok_iff {answer : Bool} :
    argument.value values = .ok answer ↔
      (∀ name ∈ visitedNames values argument.premises conclusion, name ∈ values) ∧
        (answer = true ↔ ∀ formula ∈ argument.formulas, formula.Takes values true) := by
  rw [value_eq_given h, Valuation.given_eq_ok_iff, @eq_comm _ _ answer, Bool.eq_iff_iff,
    decide_eq_true_iff]

theorem value_ok_or_unbound (values : Valuation) :
    (∃ answer, argument.value values = .ok answer) ∨
      ∃ name, argument.value values = .error (.unbound name) := by
  cases result : argument.value values with
  | ok answer => exact .inl ⟨answer, rfl⟩
  | error failure =>
    obtain ⟨name, rfl, -⟩ := (value_eq_error_iff h).1 result
    exact .inr ⟨name, rfl⟩

end

/-! ## Values for more names -/

/-- An answer that was found is kept when more names get values. -/
theorem value_of_extends {argument : Argument} {more : Valuation} {answer : Bool}
    (extended : values.Extends more) (found : argument.value values = .ok answer) :
    argument.value more = .ok answer := by
  cases h : argument.conclusion with
  | none =>
    rw [value_of_none h] at found
    cases found
  | some conclusion =>
    rw [value, h] at found ⊢
    obtain ⟨premisesHold, visiting, behind⟩ := bind_eq_ok_iff.1 found
    obtain ⟨conclusionHolds, concluding, answered⟩ := bind_eq_ok_iff.1 behind
    refine bind_eq_ok_iff.2 ⟨premisesHold, ?_, bind_eq_ok_iff.2 ⟨conclusionHolds, ?_, answered⟩⟩
    · exact allM_eq_ok_of_imp (fun premise verdict => Formula.value_of_extends extended) visiting
    · exact Formula.value_of_extends extended concluding

/-! ## Other orders of the premises -/

theorem mem_of_mem_visited {premises : List Formula} {premise : Formula}
    (visits : premise ∈ visited values premises) : premise ∈ premises := by
  induction premises with
  | nil => exact visits
  | cons first others ih =>
    rw [visited, List.mem_cons] at visits
    apply List.mem_cons.2
    refine visits.imp_right fun behind => ?_
    split at behind
    · cases behind
    · exact ih behind

/-- No atom is missed that the argument does not have. -/
theorem exists_mem_of_value_eq_unbound {argument : Argument} {name : String}
    (missed : argument.value values = .error (.unbound name)) :
    ∃ formula ∈ argument.formulas, name ∈ formula.occurrences ∧ name ∉ values := by
  cases h : argument.conclusion with
  | none =>
    rw [value_of_none h] at missed
    cases missed
  | some conclusion =>
    obtain ⟨_, ⟨⟩, first⟩ := (value_eq_error_iff h).1 missed
    obtain ⟨formula, visits, occurs⟩ := List.mem_flatMap.1 first.mem
    refine ⟨formula, ?_, occurs, first.notMem⟩
    rw [formulas, h, Option.toList_some, List.mem_append]
    exact (List.mem_append.1 visits).imp_left mem_of_mem_visited

def withPremises (argument : Argument) (premises : List Formula) : Argument :=
  { argument with premises }

section
variable {argument : Argument} {premises : List Formula} (perm : premises.Perm argument.premises)

include perm

theorem mem_formulas_of_perm {formula : Formula} :
    formula ∈ (argument.withPremises premises).formulas ↔ formula ∈ argument.formulas :=
  (perm.append_right argument.conclusion.toList).mem_iff

/-- Two orders of the premises have no different answers. -/
theorem eq_of_perm {a b : Bool} (one : (argument.withPremises premises).value values = .ok a)
    (two : argument.value values = .ok b) : a = b := by
  cases h : argument.conclusion with
  | none =>
    rw [value_of_none h] at two
    cases two
  | some conclusion =>
    have h' : (argument.withPremises premises).conclusion = some conclusion := h
    have ha := ((value_eq_ok_iff h').1 one).2
    have hb := ((value_eq_ok_iff h).1 two).2
    simp only [mem_formulas_of_perm perm] at ha
    exact Bool.eq_iff_iff.2 (ha.trans hb.symm)

/-- Only for an atom that is missed can two orders of the premises make a difference. -/
theorem value_of_perm (values : Valuation) :
    (argument.withPremises premises).value values = argument.value values ∨
      (∃ name, (argument.withPremises premises).value values = .error (.unbound name)) ∨
      ∃ name, argument.value values = .error (.unbound name) := by
  have same : (argument.withPremises premises).conclusion = argument.conclusion := rfl
  cases h : argument.conclusion with
  | none =>
    left
    rw [value_of_none h, value_of_none (same.trans h)]
  | some conclusion =>
    rcases value_ok_or_unbound (same.trans h) values with ⟨a, one⟩ | missed
    · rcases value_ok_or_unbound h values with ⟨b, two⟩ | missed
      · left
        rw [one, two, eq_of_perm perm one two]
      · exact .inr (.inr missed)
    · exact .inr (.inl missed)

/-- They make none where every atom has a value. -/
theorem value_of_perm_of_complete
    (complete : ∀ formula ∈ argument.formulas, ∀ name ∈ formula.occurrences, name ∈ values) :
    (argument.withPremises premises).value values = argument.value values := by
  rcases value_of_perm perm values with same | ⟨name, missed⟩ | ⟨name, missed⟩
  · exact same
  · obtain ⟨formula, listed, occurs, unbound⟩ := exists_mem_of_value_eq_unbound missed
    exact absurd (complete formula ((mem_formulas_of_perm perm).1 listed) name occurs) unbound
  · obtain ⟨formula, listed, occurs, unbound⟩ := exists_mem_of_value_eq_unbound missed
    exact absurd (complete formula listed name occurs) unbound

end

/-! ## Main result -/

/-- An argument without conclusion is refused.  Otherwise the premises are visited up to the first
false one, and then the conclusion: the first atom come to that has no value is missed, and if there
is none the answer is whether all formulas of the argument are true.  Values for more names keep an
answer.  With its premises in another order an argument has the same value, or an atom is missed in
one of the two orders; where every atom has a value none is. -/
theorem value_in_visiting_order (argument : Argument) (values : Valuation) :
    (match argument.conclusion with
      | none => argument.value values = .error (.unsupported .value)
      | some conclusion =>
        let names := visitedNames values argument.premises conclusion
        (∀ failure, argument.value values = .error failure ↔
          ∃ name, failure = .unbound name ∧ values.FirstUnbound names name) ∧
        ∀ answer, argument.value values = .ok answer ↔
          (∀ name ∈ names, name ∈ values) ∧
            (answer = true ↔ ∀ formula ∈ argument.formulas, formula.Takes values true)) ∧
    (∀ (more : Valuation) (answer : Bool), values.Extends more →
      argument.value values = .ok answer → argument.value more = .ok answer) ∧
    ∀ premises, premises.Perm argument.premises →
      let reordered := argument.withPremises premises
      (reordered.value values = argument.value values ∨
        (∃ name, reordered.value values = .error (.unbound name)) ∨
        ∃ name, argument.value values = .error (.unbound name)) ∧
      ((∀ formula ∈ argument.formulas, ∀ name ∈ formula.occurrences, name ∈ values) →
        reordered.value values = argument.value values) := by
  refine ⟨?_, fun _ _ => value_of_extends, fun premises perm =>
    ⟨value_of_perm perm values, value_of_perm_of_complete perm⟩⟩
  cases h : argument.conclusion with
  | none => exact value_of_none h
  | some conclusion => exact ⟨fun _ => value_eq_error_iff h, fun _ => value_eq_ok_iff h⟩

/-- The first premise is false, so that the second is not visited and `R` not missed there.  The
other way round it is. -/
example :
    let values : Valuation := .ofList [("P", false), ("Q", true)]
    let one : Argument := ⟨[.atom "P", .atom "R"], some (.atom "Q")⟩
    let two : Argument := ⟨[.atom "R", .atom "P"], some (.atom "Q")⟩
    one.value values = .ok false ∧ two.value values = .error (.unbound "R") := by
  decide +kernel

end Argument

end Entailment
