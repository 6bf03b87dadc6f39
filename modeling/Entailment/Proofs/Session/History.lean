import Mathlib.Data.List.Induction
import Entailment.Proofs.Session.Entries

/-!
# The history of a session

Statements are executed one after the other from a session without entries, whatever becomes of each.
What the session then holds is what the history says: for a value, a description or an argument the
last statement that gave it, and for an answer the last question that was answered.

* `Session.find?_ofHistory_eq_some_iff`: an entry is what was last written into its slot.

Main statement: `Session.ofHistory_holds_last`.
-/

namespace Entailment

/-! ## What a history gives last -/

/-- The last that statements have given is `value`.  What one of them gives may depend on those
before it. -/
def GivenLast {α : Type} (gives : List Statement → Statement → Option α)
    (history : List Statement) (value : α) : Prop :=
  ∃ before statement behind, history = before ++ statement :: behind ∧
    gives before statement = some value ∧
    ∀ between later rest, behind = between ++ later :: rest →
      gives (before ++ statement :: between) later = none

section

variable {α : Type} {gives : List Statement → Statement → Option α} {history : List Statement}
  {statement : Statement} {value : α}

theorem not_givenLast_nil : ¬ GivenLast gives [] value := by
  rintro ⟨before, statement, behind, split, -⟩
  cases before <;> cases split

/-- A history with one more statement is split at that one, or within the history. -/
theorem concat_eq_split_iff {before behind : List Statement} {last : Statement} :
    history ++ [last] = before ++ statement :: behind ↔
      behind = [] ∧ history = before ∧ last = statement ∨
        ∃ others, behind = others ++ [last] ∧ history = before ++ statement :: others := by
  constructor
  · intro split
    rcases List.eq_nil_or_concat' behind with rfl | ⟨others, final, rfl⟩
    · obtain ⟨same, single⟩ := List.append_inj' split rfl
      exact .inl ⟨rfl, same, List.head_eq_of_cons_eq single⟩
    · rw [← List.cons_append, ← List.append_assoc] at split
      obtain ⟨same, single⟩ := List.append_inj' split rfl
      cases single
      exact .inr ⟨others, rfl, same⟩
  · rintro (⟨rfl, rfl, rfl⟩ | ⟨others, rfl, rfl⟩)
    · rfl
    · rw [List.append_assoc, List.cons_append]

theorem givenLast_concat :
    GivenLast gives (history ++ [statement]) value ↔
      gives history statement = some value ∨
        gives history statement = none ∧ GivenLast gives history value := by
  constructor
  · rintro ⟨before, giver, behind, split, given, silent⟩
    rcases concat_eq_split_iff.1 split with ⟨rfl, rfl, rfl⟩ | ⟨others, rfl, rfl⟩
    · exact .inl given
    · refine .inr ⟨silent others statement [] rfl, before, giver, others, rfl, given, ?_⟩
      rintro between later rest rfl
      exact silent between later (rest ++ [statement]) (by rw [List.append_assoc, List.cons_append])
  · rintro (given | ⟨nothing, before, giver, behind, rfl, given, silent⟩)
    · refine ⟨history, statement, [], rfl, given, ?_⟩
      intro between later rest empty
      cases between <;> cases empty
    · refine ⟨before, giver, behind ++ [statement], by rw [List.append_assoc, List.cons_append],
        given, ?_⟩
      intro between later rest split
      rcases concat_eq_split_iff.1 split with ⟨-, rfl, rfl⟩ | ⟨others, -, rfl⟩
      · exact nothing
      · exact silent between later others rfl

/-- Something was given last if anything was given. -/
theorem exists_givenLast_iff :
    (∃ value, GivenLast gives history value) ↔
      ∃ before statement behind value, history = before ++ statement :: behind ∧
        gives before statement = some value := by
  constructor
  · rintro ⟨value, before, statement, behind, split, given, -⟩
    exact ⟨before, statement, behind, value, split, given⟩
  · rintro ⟨before, statement, behind, value, rfl, given⟩
    induction behind using List.reverseRecOn with
    | nil => exact ⟨value, givenLast_concat.2 (.inl given)⟩
    | append_singleton behind last ih =>
      obtain ⟨earlier, found⟩ := ih
      rw [← List.cons_append, ← List.append_assoc]
      cases new : gives (before ++ statement :: behind) last with
      | some later => exact ⟨later, givenLast_concat.2 (.inl new)⟩
      | none => exact ⟨earlier, givenLast_concat.2 (.inr ⟨new, found⟩)⟩

/-- What is overwritten with whatever is given holds what was given last. -/
theorem eq_some_iff_givenLast (held : List Statement → Option α) (start : held [] = none)
    (next : ∀ history statement,
      held (history ++ [statement]) = (gives history statement).or (held history)) :
    held history = some value ↔ GivenLast gives history value := by
  induction history using List.reverseRecOn with
  | nil => simp [start, not_givenLast_nil]
  | append_singleton history statement ih =>
    rw [next, givenLast_concat, ← ih]
    cases gives history statement <;> simp

end

/-- `value` is what the last statement of one form in a history says. -/
def LastSaid {α : Type} (form : α → Statement) (history : List Statement) (value : α) : Prop :=
  ∃ before behind, history = before ++ form value :: behind ∧ ∀ other, form other ∉ behind

namespace Session

/-! ## Executing a history -/

/-- The session that statements lead to from one without entries, going on where one fails. -/
def ofHistory (limit : Option Nat) (history : List Statement) : Session :=
  history.foldl (fun session statement => (session.execute statement).2) { limit }

/-- A statement behind others has an outcome. -/
def Succeeds (limit : Option Nat) (before : List Statement) (statement : Statement) : Prop :=
  ∃ outcome, ((ofHistory limit before).execute statement).1 = .ok outcome

/-- A statement has its last outcome in a history where `before` is what was executed. -/
def LastSucceeds (limit : Option Nat) (history : List Statement) (statement : Statement)
    (before : List Statement) : Prop :=
  ∃ behind, history = before ++ statement :: behind ∧ Succeeds limit before statement ∧
    ∀ between rest, behind = between ++ statement :: rest →
      ¬ Succeeds limit (before ++ statement :: between) statement

/-- What executing a statement writes in a slot. -/
def writes? (session : Session) (statement : Statement) (slot : Slot) : Option Datum :=
  match session.outcome statement with
  | .ok outcome => outcome.written? slot
  | .error _ => none

variable {session : Session} {statement : Statement} {limit : Option Nat}
  {history : List Statement}

theorem ofHistory_concat :
    ofHistory limit (history ++ [statement]) = ((ofHistory limit history).execute statement).2 := by
  simp [ofHistory, List.foldl_append]

theorem succeeds_iff {before : List Statement} :
    Succeeds limit before statement ↔
      ∃ outcome, (ofHistory limit before).outcome statement = .ok outcome := by
  unfold Succeeds execute
  cases (ofHistory limit before).outcome statement <;> rfl

theorem find?_execute (session : Session) (statement : Statement) (slot : Slot) :
    (session.execute statement).2.find? slot =
      (session.writes? statement slot).or (session.find? slot) := by
  unfold execute writes?
  cases session.outcome statement with
  | error failure => rfl
  | ok outcome => exact find?_record session outcome slot

theorem find?_fresh (slot : Slot) : find? { limit } slot = none := by
  cases slot with
  | answer query id => cases query <;> simp [find?, answers]
  | _ => simp [find?]

/-- An entry is what was last written into its slot. -/
theorem find?_ofHistory_eq_some_iff {slot : Slot} {datum : Datum} :
    (ofHistory limit history).find? slot = some datum ↔
      GivenLast (fun before statement => (ofHistory limit before).writes? statement slot) history
        datum := by
  apply eq_some_iff_givenLast fun history => (ofHistory limit history).find? slot
  · exact find?_fresh slot
  · intro history statement
    rw [ofHistory_concat]
    exact find?_execute _ _ _

/-- There is an entry if anything was written into its slot. -/
theorem exists_find?_ofHistory_iff {slot : Slot} :
    (∃ datum, (ofHistory limit history).find? slot = some datum) ↔
      ∃ before statement behind datum, history = before ++ statement :: behind ∧
        (ofHistory limit before).writes? statement slot = some datum := by
  simp only [find?_ofHistory_eq_some_iff]
  exact exists_givenLast_iff

theorem writes?_eq_some_iff {slot : Slot} {datum : Datum} :
    session.writes? statement slot = some datum ↔
      ∃ outcome, session.outcome statement = .ok outcome ∧ outcome.change? = some (slot, datum) := by
  unfold writes?
  cases session.outcome statement with
  | error failure => simp
  | ok outcome => simp [Outcome.written?_eq_some_iff]

/-! ## Values, descriptions and arguments -/

/-- Statements of one form, and no others, write in the slot, and they write what they say. -/
structure Keeps {α : Type} (slot : Slot) (form : α → Statement) (wrap : α → Datum) : Prop where
  exact : ∀ (session : Session) statement datum, session.writes? statement slot = some datum ↔
    ∃ value, statement = form value ∧ datum = wrap value
  injective : ∀ first second, wrap first = wrap second → first = second

theorem Keeps.of_change {α : Type} {slot : Slot} {form : α → Statement} {wrap : α → Datum}
    (made : α → Outcome)
    (outcomes : ∀ (session : Session) value, session.outcome (form value) = .ok (made value))
    (change : ∀ value, (made value).change? = some (slot, wrap value))
    (only : ∀ outcome datum, outcome.change? = some (slot, datum) →
      ∃ value, outcome = made value ∧ datum = wrap value)
    (injective : ∀ first second, wrap first = wrap second → first = second) :
    Keeps slot form wrap where
  exact session statement datum := by
    rw [writes?_eq_some_iff]
    constructor
    · rintro ⟨outcome, produced, changes⟩
      obtain ⟨value, rfl, same⟩ := only outcome datum changes
      have origin := statement_of_outcome (outcomes session value)
      exact ⟨value, (statement_of_outcome produced).symm.trans origin, same⟩
    · rintro ⟨value, rfl, rfl⟩
      exact ⟨made value, outcomes session value, change value⟩
  injective := injective

theorem keeps_value (name : String) : Keeps (.value name) (.assign name) .truth := by
  refine .of_change (.assigned name) (fun _ _ => rfl) (fun _ => rfl) ?_ fun _ _ => Datum.truth.inj
  intro outcome datum change
  cases outcome <;> cases change
  exact ⟨_, rfl, rfl⟩

theorem keeps_description (name : String) : Keeps (.description name) (.describe name) .text := by
  refine .of_change (.described name) (fun _ _ => rfl) (fun _ => rfl) ?_ fun _ _ => Datum.text.inj
  intro outcome datum change
  cases outcome <;> cases change
  exact ⟨_, rfl, rfl⟩

theorem keeps_argument (id : String) : Keeps (.argument id) (.declare id) .argument := by
  refine .of_change (.declared id) (fun _ _ => rfl) (fun _ => rfl) ?_
    fun _ _ => Datum.argument.inj
  intro outcome datum change
  cases outcome <;> cases change
  exact ⟨_, rfl, rfl⟩

section

variable {α : Type} {slot : Slot} {form : α → Statement} {wrap : α → Datum}

theorem Keeps.writes?_eq_none_iff (keeps : Keeps slot form wrap) (session : Session)
    (statement : Statement) :
    session.writes? statement slot = none ↔ ∀ value, statement ≠ form value := by
  rw [Option.eq_none_iff_forall_ne_some]
  constructor
  · intro nothing value same
    exact nothing _ ((keeps.exact session statement _).2 ⟨value, same, rfl⟩)
  · intro different datum written
    obtain ⟨value, same, -⟩ := (keeps.exact session statement datum).1 written
    exact different value same

/-- The entry is what the last of the statements says. -/
theorem Keeps.find?_eq_some_iff (keeps : Keeps slot form wrap) (limit : Option Nat)
    (history : List Statement) (value : α) :
    (ofHistory limit history).find? slot = some (wrap value) ↔ LastSaid form history value := by
  rw [find?_ofHistory_eq_some_iff]
  constructor
  · rintro ⟨before, statement, behind, split, written, quiet⟩
    obtain ⟨said, rfl, same⟩ := (keeps.exact _ _ _).1 written
    obtain rfl := keeps.injective _ _ same
    refine ⟨before, behind, split, fun other later => ?_⟩
    obtain ⟨between, rest, parts⟩ := List.append_of_mem later
    exact (keeps.writes?_eq_none_iff _ _).1 (quiet between _ rest parts) other rfl
  · rintro ⟨before, behind, split, last⟩
    refine ⟨before, form value, behind, split, (keeps.exact _ _ _).2 ⟨value, rfl, rfl⟩, ?_⟩
    rintro between later rest rfl
    refine (keeps.writes?_eq_none_iff _ _).2 fun other same => last other ?_
    rw [← same]
    exact List.mem_append_right _ List.mem_cons_self

/-- There is an entry if there is any of the statements. -/
theorem Keeps.exists_find?_iff (keeps : Keeps slot form wrap) (limit : Option Nat)
    (history : List Statement) :
    (∃ datum, (ofHistory limit history).find? slot = some datum) ↔ ∃ value, form value ∈ history := by
  rw [exists_find?_ofHistory_iff]
  constructor
  · rintro ⟨before, statement, behind, datum, rfl, written⟩
    obtain ⟨value, rfl, -⟩ := (keeps.exact _ _ _).1 written
    exact ⟨value, List.mem_append_right _ List.mem_cons_self⟩
  · rintro ⟨value, said⟩
    obtain ⟨before, behind, split⟩ := List.append_of_mem said
    exact ⟨before, form value, behind, wrap value, split, (keeps.exact _ _ _).2 ⟨value, rfl, rfl⟩⟩

end

/-- A table holds under each name what the last statement of a form says of it, and nothing if there
is none. -/
def HoldsLast {α : Type} (table : Dictionary α) (form : String → α → Statement)
    (history : List Statement) : Prop :=
  ∀ name,
    (∀ value, table[name]? = some value ↔ LastSaid (form name) history value) ∧
    (name ∈ table ↔ ∃ value, form name value ∈ history)

theorem holdsLast_of_keeps {α : Type} {table : Dictionary α} {form : String → α → Statement}
    {slot : String → Slot} {wrap : α → Datum} (keeps : ∀ name, Keeps (slot name) (form name) wrap)
    (seen : ∀ name, (ofHistory limit history).find? (slot name) = table[name]?.map wrap) :
    HoldsLast table form history := by
  intro name
  constructor
  · intro value
    rw [← (keeps name).find?_eq_some_iff limit history value, seen, Option.map_eq_some_iff]
    constructor
    · intro found
      exact ⟨value, found, rfl⟩
    · rintro ⟨other, found, same⟩
      rwa [← (keeps name).injective _ _ same]
  · rw [← (keeps name).exists_find?_iff limit history, seen,
      Std.ExtTreeMap.mem_iff_isSome_getElem?]
    cases table[name]? <;> simp

theorem holdsLast_values (limit : Option Nat) (history : List Statement) :
    HoldsLast (ofHistory limit history).values .assign history :=
  holdsLast_of_keeps keeps_value fun _ => rfl

theorem holdsLast_descriptions (limit : Option Nat) (history : List Statement) :
    HoldsLast (ofHistory limit history).descriptions .describe history :=
  holdsLast_of_keeps keeps_description fun _ => rfl

theorem holdsLast_arguments (limit : Option Nat) (history : List Statement) :
    HoldsLast (ofHistory limit history).arguments .declare history :=
  holdsLast_of_keeps keeps_argument fun _ => rfl

/-! ## Answers -/

section

variable {query : Query} {id : String}

theorem writes?_answer_eq_some_iff {datum : Datum} :
    session.writes? statement (.answer query id) = some datum ↔
      statement = .ask query id ∧ ∃ argument result,
        session.outcome (.ask query id) = .ok (.answered query id argument result) ∧
        datum = .truth result := by
  rw [writes?_eq_some_iff]
  constructor
  · rintro ⟨outcome, produced, change⟩
    obtain rfl := statement_of_outcome produced
    cases outcome <;> cases change
    exact ⟨rfl, _, _, produced, rfl⟩
  · rintro ⟨rfl, argument, result, produced, rfl⟩
    exact ⟨_, produced, rfl⟩

/-- A question that has an outcome is answered about the argument declared last. -/
theorem succeeds_ask_iff {before : List Statement} :
    Succeeds limit before (.ask query id) ↔ ∃ argument result,
      (ofHistory limit before).outcome (.ask query id) =
        .ok (.answered query id argument result) := by
  rw [succeeds_iff]
  constructor
  · rintro ⟨outcome, produced⟩
    obtain ⟨argument, result, -, -, -, rfl⟩ := outcome_ask_eq_ok_iff.1 produced
    exact ⟨argument, result, produced⟩
  · rintro ⟨argument, result, produced⟩
    exact ⟨_, produced⟩

theorem writes?_answer_eq_none_iff {before : List Statement} :
    (ofHistory limit before).writes? statement (.answer query id) = none ↔
      (statement = .ask query id → ¬ Succeeds limit before (.ask query id)) := by
  rw [Option.eq_none_iff_forall_ne_some]
  constructor
  · intro nothing asked answered
    obtain ⟨argument, result, produced⟩ := succeeds_ask_iff.1 answered
    exact nothing _ (writes?_answer_eq_some_iff.2 ⟨asked, argument, result, produced, rfl⟩)
  · intro fails datum written
    obtain ⟨asked, argument, result, produced, -⟩ := writes?_answer_eq_some_iff.1 written
    exact fails asked (succeeds_ask_iff.2 ⟨argument, result, produced⟩)

/-- The answer to a question in a session that a history leads to. -/
theorem outcome_ask_ofHistory_iff {before : List Statement} {argument : Argument} {result : Bool} :
    (ofHistory limit before).outcome (.ask query id) = .ok (.answered query id argument result) ↔
      Succeeds limit before (.ask query id) ∧ LastSaid (.declare id) before argument ∧
        argument.answer (ofHistory limit before).values query = .ok result := by
  rw [← ((holdsLast_arguments limit before) id).1 argument, ← declared_eq_ok_iff]
  constructor
  · intro produced
    refine ⟨succeeds_ask_iff.2 ⟨argument, result, produced⟩, ?_⟩
    obtain ⟨found, given, declared, -, answered, same⟩ := outcome_ask_eq_ok_iff.1 produced
    cases same
    exact ⟨declared, answered⟩
  · rintro ⟨answered, declared, result⟩
    obtain ⟨found, given, produced⟩ := succeeds_ask_iff.1 answered
    obtain ⟨other, value, declared', -, result', same⟩ := outcome_ask_eq_ok_iff.1 produced
    cases same
    cases declared.symm.trans declared'
    cases result.symm.trans result'
    exact produced

theorem find?_answer_eq_some_iff {result : Bool} :
    session.find? (.answer query id) = some (.truth result) ↔
      (session.answers query)[id]? = some result := by
  simp [find?]

/-- A recorded answer is that of the last time the question was answered. -/
theorem answers_ofHistory_iff {result : Bool} :
    ((ofHistory limit history).answers query)[id]? = some result ↔
      ∃ before argument, LastSucceeds limit history (.ask query id) before ∧
        LastSaid (.declare id) before argument ∧
        argument.answer (ofHistory limit before).values query = .ok result := by
  rw [← find?_answer_eq_some_iff, find?_ofHistory_eq_some_iff]
  constructor
  · rintro ⟨before, statement, behind, split, written, quiet⟩
    obtain ⟨rfl, argument, _, produced, same⟩ := writes?_answer_eq_some_iff.1 written
    cases same
    obtain ⟨answered, declared, result⟩ := outcome_ask_ofHistory_iff.1 produced
    refine ⟨before, argument, ⟨behind, split, answered, fun between rest parts => ?_⟩, declared,
      result⟩
    exact writes?_answer_eq_none_iff.1 (quiet between _ rest parts) rfl
  · rintro ⟨before, argument, ⟨behind, split, answered, quiet⟩, declared, result⟩
    have produced := outcome_ask_ofHistory_iff.2 ⟨answered, declared, result⟩
    refine ⟨before, .ask query id, behind, split,
      writes?_answer_eq_some_iff.2 ⟨rfl, argument, _, produced, rfl⟩, ?_⟩
    intro between later rest parts
    refine writes?_answer_eq_none_iff.2 ?_
    rintro rfl
    exact quiet between rest parts

/-- An answer is recorded just if the question was ever answered. -/
theorem mem_answers_ofHistory_iff :
    id ∈ (ofHistory limit history).answers query ↔
      ∃ before behind, history = before ++ .ask query id :: behind ∧
        Succeeds limit before (.ask query id) := by
  have recorded : id ∈ (ofHistory limit history).answers query ↔
      ∃ datum, (ofHistory limit history).find? (.answer query id) = some datum := by
    rw [find?, Std.ExtTreeMap.mem_iff_isSome_getElem?]
    cases ((ofHistory limit history).answers query)[id]? <;> simp
  rw [recorded, exists_find?_ofHistory_iff]
  constructor
  · rintro ⟨before, statement, behind, datum, split, written⟩
    obtain ⟨rfl, argument, result, produced, -⟩ := writes?_answer_eq_some_iff.1 written
    exact ⟨before, behind, split, succeeds_ask_iff.2 ⟨argument, result, produced⟩⟩
  · rintro ⟨before, behind, split, answered⟩
    obtain ⟨argument, result, produced⟩ := succeeds_ask_iff.1 answered
    exact ⟨before, _, behind, _, split,
      writes?_answer_eq_some_iff.2 ⟨rfl, argument, result, produced, rfl⟩⟩

theorem mem_arguments_of_mem_answers (query : Query)
    (recorded : id ∈ (ofHistory limit history).answers query) :
    id ∈ (ofHistory limit history).arguments := by
  obtain ⟨before, behind, rfl, answered⟩ := mem_answers_ofHistory_iff.1 recorded
  obtain ⟨argument, result, produced⟩ := succeeds_ask_iff.1 answered
  obtain ⟨-, ⟨earlier, later, rfl, -⟩, -⟩ := outcome_ask_ofHistory_iff.1 produced
  refine ((holdsLast_arguments limit _) id).2.2 ⟨argument, ?_⟩
  simp

end

/-- A table holds under each name the verdict of the last time that a statement of a form succeeded,
on the argument declared and under the values given by then, and nothing if none succeeded. -/
def HoldsVerdicts (limit : Option Nat) (table : Dictionary Bool) (form : String → Statement)
    (verdict : Valuation → Argument → Except Failure Bool) (history : List Statement) : Prop :=
  ∀ id,
    (∀ result, table[id]? = some result ↔
      ∃ before argument, LastSucceeds limit history (form id) before ∧
        LastSaid (.declare id) before argument ∧
        verdict (ofHistory limit before).values argument = .ok result) ∧
    (id ∈ table ↔
      ∃ before behind, history = before ++ form id :: behind ∧ Succeeds limit before (form id))

theorem holdsVerdicts_answers (limit : Option Nat) (history : List Statement) (query : Query) :
    HoldsVerdicts limit ((ofHistory limit history).answers query) (.ask query)
      (fun values argument => argument.answer values query) history :=
  fun _ => ⟨fun _ => answers_ofHistory_iff, mem_answers_ofHistory_iff⟩

/-- What a session holds behind a history of statements, whether they succeeded or not.  Values,
descriptions and arguments are those that were given last.  Each kind of question has its own table
and its own verdict: whether the argument is a tautology, whether it is valid, and whether it is
true under the values of the time.  An argument with a verdict is still declared. -/
theorem ofHistory_holds_last (limit : Option Nat) (history : List Statement) :
    let session := ofHistory limit history
    HoldsLast session.values .assign history ∧
    HoldsLast session.descriptions .describe history ∧
    HoldsLast session.arguments .declare history ∧
    HoldsVerdicts limit session.assertions (.ask .tautology)
      (fun _ argument => argument.isTautology) history ∧
    HoldsVerdicts limit session.validations (.ask .validity)
      (fun _ argument => argument.isValid) history ∧
    HoldsVerdicts limit session.valuations (.ask .value)
      (fun values argument => argument.value values) history ∧
    ∀ id, id ∈ session.assertions ∨ id ∈ session.validations ∨ id ∈ session.valuations →
      id ∈ session.arguments := by
  refine ⟨holdsLast_values limit history, holdsLast_descriptions limit history,
    holdsLast_arguments limit history, ?assertions, ?validations, ?valuations, ?declared⟩
  case assertions => exact holdsVerdicts_answers limit history .tautology
  case validations => exact holdsVerdicts_answers limit history .validity
  case valuations => exact holdsVerdicts_answers limit history .value
  intro id recorded
  rcases recorded with asserted | validated | valuated
  · exact mem_arguments_of_mem_answers .tautology asserted
  · exact mem_arguments_of_mem_answers .validity validated
  · exact mem_arguments_of_mem_answers .value valuated

end Session

end Entailment
