import Entailment.Proofs.Session.Steps

/-!
# The limit on atoms

A session with a tighter limit refuses more questions, and that is all.  Whatever steps two sessions
take that differ only in their limits, the tighter one gives the same result as the other at every
step, or the refusal of its own limit.  Their tables differ at most in the answers that the tighter
one has refused.

Main statement: `Session.performs_of_tighter`.
-/

namespace Entailment

namespace Session

/-- The first limit admits no more than the second.  Where there is no limit, everything is
admitted. -/
def Tighter : Option Nat → Option Nat → Prop
  | _, none => True
  | none, some _ => False
  | some bound, some wider => bound ≤ wider

/-- The limit is there and is exceeded, and the result says so. -/
def Refused {α : Type} (limit : Option Nat) (result : Except Failure α) : Prop :=
  ∃ bound count, limit = some bound ∧ count > bound ∧
    result = .error (.tooManyVariables count bound)

/-- What the tables of a session with the given limit have in common with those of a session with a
wider limit: all but the answers that were enumerated, and of these only some may be missing. -/
structure Narrows (limit : Option Nat) (narrow wide : Session) : Prop where
  limited : narrow.limit = limit
  tighter : Tighter limit wide.limit
  values : narrow.values = wide.values
  descriptions : narrow.descriptions = wide.descriptions
  arguments : narrow.arguments = wide.arguments
  valuations : narrow.valuations = wide.valuations
  assertions : ∀ id ∈ narrow.assertions, id ∈ wide.assertions
  validations : ∀ id ∈ narrow.validations, id ∈ wide.validations

/-! ## Checking the limit -/

theorem checkLimit_of_none {session : Session} (h : session.limit = none)
    (formulas : List Formula) : session.checkLimit formulas = .ok () := by
  rw [checkLimit, h]

theorem checkLimit_of_some {session : Session} {bound : Nat} (h : session.limit = some bound)
    (formulas : List Formula) :
    session.checkLimit formulas =
      if (Names.union (formulas.map Formula.names)).size > bound then
        .error (.tooManyVariables (Names.union (formulas.map Formula.names)).size bound)
      else .ok () := by
  rw [checkLimit, h]

theorem checkLimit_nil (session : Session) : session.checkLimit [] = .ok () := by
  cases h : session.limit with
  | none => exact checkLimit_of_none h []
  | some bound =>
    rw [checkLimit_of_some h, if_neg]
    exact Nat.not_lt_zero bound

theorem checkLimit_eq_ok_or_refused (session : Session) (formulas : List Formula) :
    session.checkLimit formulas = .ok () ∨ Refused session.limit (session.checkLimit formulas) := by
  cases h : session.limit with
  | none => exact .inl (checkLimit_of_none h formulas)
  | some bound =>
    rw [checkLimit_of_some h]
    split
    · next exceeded => exact .inr ⟨bound, _, rfl, exceeded, rfl⟩
    · exact .inl rfl

/-- What a tighter limit admits is admitted. -/
theorem checkLimit_of_tighter {narrow wide : Session} {formulas : List Formula}
    (tighter : Tighter narrow.limit wide.limit) (admitted : narrow.checkLimit formulas = .ok ()) :
    wide.checkLimit formulas = .ok () := by
  cases hwide : wide.limit with
  | none => exact checkLimit_of_none hwide formulas
  | some wider =>
    cases hnarrow : narrow.limit with
    | none =>
      rw [hwide, hnarrow] at tighter
      exact absurd tighter id
    | some bound =>
      rw [hwide, hnarrow] at tighter
      rw [checkLimit_of_some hnarrow] at admitted
      rw [checkLimit_of_some hwide]
      split at admitted
      · cases admitted
      · next within => rw [if_neg (Nat.not_lt.2 (Nat.le_trans (Nat.not_lt.1 within) tighter))]

/-! ## One step -/

namespace Narrows

variable {limit : Option Nat} {narrow wide : Session}

/-- A statement has the same outcome in both sessions, or asks for an enumeration that is refused. -/
theorem outcome (h : Narrows limit narrow wide) (statement : Statement) :
    narrow.outcome statement = wide.outcome statement ∨
      (Refused limit (narrow.outcome statement) ∧
        ∃ query id, statement = .ask query id ∧ query ≠ .value) := by
  cases statement with
  | print text => exact .inl rfl
  | assign name value => exact .inl rfl
  | describe name text => exact .inl rfl
  | declare id argument => exact .inl rfl
  | ask query id =>
    have sameArgument : narrow.declared id = wide.declared id := by
      rw [declared, declared, h.arguments]
    rw [Session.outcome, Session.outcome, sameArgument, h.values]
    cases wide.declared id with
    | error failure => exact .inl rfl
    | ok argument =>
      have tighter := h.tighter
      rw [← h.limited] at tighter ⊢
      rcases checkLimit_eq_ok_or_refused narrow (argument.enumerated query) with
        admitted | refused
      · left
        simp only [bind, Except.bind, admitted, checkLimit_of_tighter tighter admitted]
      · right
        obtain ⟨bound, count, limited, exceeded, failed⟩ := refused
        refine ⟨⟨bound, count, limited, exceeded, ?_⟩, query, id, rfl, ?_⟩
        · simp only [bind, Except.bind, failed]
        · rintro rfl
          rw [Argument.enumerated, checkLimit_nil] at failed
          cases failed

theorem record (h : Narrows limit narrow wide) (outcome : Outcome) :
    Narrows limit (narrow.record outcome) (wide.record outcome) := by
  cases outcome with
  | printed text => exact h
  | assigned name value => exact { h with values := congrArg (·.insert name value) h.values }
  | described name text =>
    exact { h with descriptions := congrArg (·.insert name text) h.descriptions }
  | declared id argument =>
    exact { h with arguments := congrArg (·.insert id argument) h.arguments }
  | answered query id argument result =>
    cases query with
    | tautology => exact { h with assertions := Dictionary.mem_insert_of_mem_insert h.assertions }
    | validity => exact { h with validations := Dictionary.mem_insert_of_mem_insert h.validations }
    | value => exact { h with valuations := congrArg (·.insert id result) h.valuations }

/-- An enumerated answer that only the wider session has is one more entry there. -/
theorem record_answered (h : Narrows limit narrow wide) {query : Query}
    (enumerated : query ≠ .value) (id : String) (argument : Argument) (result : Bool) :
    Narrows limit narrow (wide.record (.answered query id argument result)) := by
  cases query with
  | tautology =>
    exact { h with assertions := fun other found =>
      Std.ExtTreeMap.mem_insert.2 (.inr (h.assertions other found)) }
  | validity =>
    exact { h with validations := fun other found =>
      Std.ExtTreeMap.mem_insert.2 (.inr (h.validations other found)) }
  | value => exact absurd rfl enumerated

theorem execute (h : Narrows limit narrow wide) (statement : Statement) :
    ((narrow.execute statement).1 = (wide.execute statement).1 ∨
        Refused limit (narrow.execute statement).1) ∧
      Narrows limit (narrow.execute statement).2 (wide.execute statement).2 := by
  unfold Session.execute
  rcases h.outcome statement with same | ⟨refused, query, id, rfl, enumerated⟩
  · rw [same]
    cases wide.outcome statement with
    | error failure => exact ⟨.inl rfl, h⟩
    | ok outcome => exact ⟨.inl rfl, h.record outcome⟩
  · obtain ⟨bound, count, limited, exceeded, failed⟩ := refused
    rw [failed]
    refine ⟨.inr ⟨bound, count, limited, exceeded, rfl⟩, ?_⟩
    cases answered : wide.outcome (.ask query id) with
    | error failure => exact h
    | ok outcome =>
      obtain ⟨argument, result, -, -, -, rfl⟩ := outcome_ask_eq_ok_iff.1 answered
      exact h.record_answered enumerated id argument result

theorem perform (h : Narrows limit narrow wide) (step : Step) :
    ((narrow.perform step).1 = (wide.perform step).1 ∨ Refused limit (narrow.perform step).1) ∧
      Narrows limit (narrow.perform step).2 (wide.perform step).2 := by
  rw [perform_eq, perform_eq]
  cases step.statement? with
  | error failure => exact ⟨.inl rfl, h⟩
  | ok said =>
    cases said with
    | none => exact ⟨.inl rfl, h⟩
    | some statement =>
      obtain ⟨result, after⟩ := h.execute statement
      refine ⟨?_, after⟩
      rcases result with same | ⟨bound, count, limited, exceeded, failed⟩
      · left
        exact congrArg (Except.map some) same
      · right
        exact ⟨bound, count, limited, exceeded, congrArg (Except.map some) failed⟩

end Narrows

/-! ## A run -/

/-- Two sessions that differ only in their limits take the same steps.  At every step the one with
the tighter limit has the result that the other has, or its limit is exceeded and refuses; behind
every step the tables are the same, apart from enumerated answers that it does not have. -/
theorem performs_of_tighter (session : Session) {limit limit' : Option Nat}
    (tighter : Tighter limit limit') (steps : List Step) :
    List.Forall₂
      (fun narrow wide =>
        (narrow.1 = wide.1 ∨ Refused limit narrow.1) ∧ Narrows limit narrow.2 wide.2)
      (performs { session with limit } steps) (performs { session with limit := limit' } steps) := by
  have start : Narrows limit { session with limit } { session with limit := limit' } :=
    ⟨rfl, tighter, rfl, rfl, rfl, rfl, fun _ found => found, fun _ found => found⟩
  exact performs_related (fun result other => result = other ∨ Refused limit result)
    (Narrows limit) (fun _ _ step h => h.perform step) start steps

/-- Under a limit of one atom the validity of `a` is refused, which without a limit is answered.
Before and after that both sessions say the same. -/
theorem performs_of_tighter_one_atom :
    let steps : List Step := [.text "argument a := P ∴ (P ∨ Q)", .text "validate a",
      .statement (.ask .tautology "a")]
    let argument : Argument :=
      ⟨[.atom "P"], some (.binary .disjunction (.atom "P") (.atom "Q"))⟩
    Tighter (some 1) none ∧
    (performs { limit := some 1 } steps).map Prod.fst =
      [.ok (some (.declared "a" argument)), .error (.tooManyVariables 2 1),
        .error (.unsupported .tautology)] ∧
    (performs {} steps).map Prod.fst =
      [.ok (some (.declared "a" argument)), .ok (some (.answered .validity "a" argument true)),
        .error (.unsupported .tautology)] ∧
    List.Forall₂
      (fun narrow wide =>
        (narrow.1 = wide.1 ∨ Refused (some 1) narrow.1) ∧ Narrows (some 1) narrow.2 wide.2)
      (performs { limit := some 1 } steps) (performs {} steps) := by
  intro steps argument
  have tighter : Tighter (some 1) none := trivial
  refine ⟨tighter, ?_, ?_, performs_of_tighter {} tighter steps⟩
  · decide +kernel
  · decide +kernel

end Session

end Entailment
