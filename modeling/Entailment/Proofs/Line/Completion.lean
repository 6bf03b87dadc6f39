import Entailment.Proofs.Line.Verdict

/-!
# Completing a line

Tokens that are in place may go on with others.  If a line cannot stop behind them there are some
that it can stop behind, unless a bracket is open where none can be closed any more: behind `is`, a
text or a truth value.

* `Placed.exists_finished`: tokens that are in place and not stuck go on to the end of a line.
* `Stuck.append`: what is in place behind tokens that are stuck leaves them stuck.
-/

namespace Entailment

namespace Token

/-- A bracket is open, and the last token is `is` or one that nothing may follow. -/
def Stuck (tokens : List Token) : Prop :=
  tokens.count rightParenthesis < tokens.count leftParenthesis ∧
    ∃ last, tokens.getLast? = some last ∧
      (last = is ∨ (∃ content, last = text content) ∨ ∃ value, last = truth value)

/-- Tokens that may stand behind a token, up to where a bracket may be closed if there is such a
place. -/
def sequel : Token → List Token
  | argument | query _ => [identifier "a", assign, atom "P"]
  | identifier _ => [assign, atom "P"]
  | atom _ | rightParenthesis => [connective .conjunction, atom "P"]
  | assign | not | connective _ | therefore | comma | leftParenthesis => [atom "P"]
  | is | print => [text ""]
  | text _ | truth _ => []

theorem isChain_sequel (token : Token) : (token :: token.sequel).IsChain Follows := by
  cases token <;>
    simp [sequel, Follows, kind, Kind.allows, Kind.followers, Kind.formulaStarts]

theorem lexable_of_mem_sequel {token next : Token} (mem : next ∈ token.sequel) :
    next.lexable = true := by
  have all : ∀ next ∈ token.sequel, next.lexable = true := by
    cases token <;> exact of_decide_eq_true rfl
  exact all next mem

variable {tokens more : List Token} {last next : Token}

/-! ## Tokens in place -/

theorem Placed.of_append (h : Placed (tokens ++ more)) : Placed tokens := by
  intro before token behind same
  apply h before token (behind ++ more)
  rw [same, List.append_assoc, List.cons_append]

theorem clashes_iff (hlast : tokens.getLast? = some last) :
    Clashes tokens next ↔ ¬ Follows last next := by
  unfold Clashes
  rw [hlast]

/-- What goes on from the last token is in place if it draws no conclusion and closes no bracket. -/
theorem Placed.append (h : Placed tokens) (hlast : tokens.getLast? = some last)
    (chain : (last :: more).IsChain Follows) (once : therefore ∉ more)
    (opened : rightParenthesis ∉ more) : Placed (tokens ++ more) := by
  induction more generalizing tokens last with
  | nil => rwa [List.append_nil]
  | cons next others ih =>
    rw [List.isChain_cons_cons] at chain
    rw [List.mem_cons, not_or] at once opened
    have placed : Placed (tokens ++ [next]) := by
      refine placed_concat.2 ⟨h, (clashes_iff hlast).not.2 (not_not.2 chain.1), ?_⟩
      rintro (⟨rfl, -⟩ | ⟨rfl, -⟩)
      · exact once.1 rfl
      · exact opened.1 rfl
    rw [← List.singleton_append, ← List.append_assoc]
    exact ih placed (List.getLast?_concat ..) chain.2 once.2 opened.2

/-! ## Closing brackets -/

theorem follows_rightParenthesis_iff :
    Follows last rightParenthesis ↔ last = rightParenthesis ∨ ∃ name, last = atom name := by
  cases last <;> simp [Follows, kind, Kind.allows, Kind.followers, Kind.formulaStarts]

theorem exists_last_close (hlast : tokens.getLast? = some last)
    (closes : Follows last rightParenthesis) (count : Nat) :
    ∃ final, (tokens ++ List.replicate count rightParenthesis).getLast? = some final ∧
      Follows final rightParenthesis := by
  cases count with
  | zero => exact ⟨last, by rwa [List.replicate_zero, List.append_nil], closes⟩
  | succ count =>
    refine ⟨rightParenthesis, ?_, follows_rightParenthesis_iff.2 (.inl rfl)⟩
    rw [List.replicate_succ', ← List.append_assoc, List.getLast?_concat]

theorem count_rightParenthesis_close (tokens : List Token) (count : Nat) :
    (tokens ++ List.replicate count rightParenthesis).count rightParenthesis =
      tokens.count rightParenthesis + count := by
  rw [List.count_append, List.count_replicate_self]

theorem count_leftParenthesis_close (tokens : List Token) (count : Nat) :
    (tokens ++ List.replicate count rightParenthesis).count leftParenthesis =
      tokens.count leftParenthesis := by
  have other : leftParenthesis ∉ List.replicate count rightParenthesis := fun mem =>
    nomatch List.eq_of_mem_replicate mem
  rw [List.count_append, List.count_eq_zero_of_not_mem other, Nat.add_zero]

/-- Brackets that are open can be closed where the first of them can. -/
theorem Placed.close (h : Placed tokens) (hlast : tokens.getLast? = some last)
    (closes : Follows last rightParenthesis) {count : Nat}
    (opened : tokens.count rightParenthesis + count ≤ tokens.count leftParenthesis) :
    Placed (tokens ++ List.replicate count rightParenthesis) := by
  induction count with
  | zero => rwa [List.replicate_zero, List.append_nil]
  | succ count ih =>
    obtain ⟨final, hfinal, follows⟩ := exists_last_close hlast closes count
    rw [List.replicate_succ', ← List.append_assoc, placed_concat]
    refine ⟨ih (Nat.le_of_succ_le opened), (clashes_iff hfinal).not.2 (not_not.2 follows), ?_⟩
    rintro (⟨⟨⟩, -⟩ | ⟨-, none⟩)
    rw [count_leftParenthesis_close, count_rightParenthesis_close] at none
    omega

/-- Only an open bracket keeps a line from stopping behind a token that demands no other. -/
theorem Unfinished.opened (h : Unfinished tokens) (hlast : tokens.getLast? = some last)
    (undemanding : last ∉ demanding) (several : ∀ name, last = atom name → 1 < tokens.length)
    (unnamed : ∀ id, last ≠ identifier id) :
    tokens.count rightParenthesis < tokens.count leftParenthesis := by
  rcases h with opened | ⟨other, demands, same⟩ | ⟨name, rfl⟩ | ⟨id, front, rfl⟩
  · exact opened
  · obtain rfl : last = other := Option.some.inj (hlast.symm.trans same)
    exact absurd demands undemanding
  · exact absurd (several name (Option.some.inj hlast).symm) (Nat.lt_irrefl 1)
  · simp at hlast
    exact absurd hlast.symm (unnamed id)

/-- Where a bracket can be closed, all of them can be, and the line may stop behind them. -/
theorem Placed.exists_closed (h : Placed tokens) (hlast : tokens.getLast? = some last)
    (closes : Follows last rightParenthesis) (several : 1 < tokens.length) :
    ∃ more, (∀ token ∈ more, token.lexable = true) ∧ Placed (tokens ++ more) ∧
      ¬ Unfinished (tokens ++ more) := by
  have below := h.count_le
  let missing := tokens.count leftParenthesis - tokens.count rightParenthesis
  have whole : tokens.count rightParenthesis + missing = tokens.count leftParenthesis := by
    omega
  obtain ⟨final, hfinal, follows⟩ := exists_last_close hlast closes missing
  refine ⟨List.replicate missing rightParenthesis, ?_, h.close hlast closes whole.le, ?_⟩
  · intro token mem
    rw [List.eq_of_mem_replicate mem]
    rfl
  · intro unfinished
    have opened := unfinished.opened hfinal ?_ ?_ ?_
    · rw [count_leftParenthesis_close, count_rightParenthesis_close, whole] at opened
      exact Nat.lt_irrefl _ opened
    · rcases follows_rightParenthesis_iff.1 follows with rfl | ⟨name, rfl⟩ <;> simp [demanding]
    · intro _ _
      rw [List.length_append]
      omega
    · rintro id rfl
      rcases follows_rightParenthesis_iff.1 follows with ⟨⟨⟩⟩ | ⟨name, ⟨⟩⟩

/-! ## The end of a line -/

theorem not_mem_sequel {token : Token} :
    therefore ∉ token.sequel ∧ rightParenthesis ∉ token.sequel := by
  cases token <;> simp [sequel]

theorem sequel_cases (token : Token) :
    (∃ front, token.sequel = front ++ [atom "P"]) ∨ token = is ∨ token = print ∨
      (∃ content, token = text content) ∨ ∃ value, token = truth value := by
  cases token with
  | argument | query _ => exact .inl ⟨[identifier "a", assign], rfl⟩
  | identifier _ => exact .inl ⟨[assign], rfl⟩
  | atom _ | rightParenthesis => exact .inl ⟨[connective .conjunction], rfl⟩
  | assign | not | connective _ | therefore | comma | leftParenthesis => exact .inl ⟨[], rfl⟩
  | _ => simp

theorem Placed.sequel (h : Placed tokens) (hlast : tokens.getLast? = some last) :
    Placed (tokens ++ last.sequel) :=
  h.append hlast (isChain_sequel last) not_mem_sequel.1 not_mem_sequel.2

/-- `print` opens a line and stands nowhere else. -/
theorem Placed.eq_of_print (h : Placed tokens) (hlast : tokens.getLast? = some print) :
    tokens = [print] := by
  obtain ⟨initial, rfl⟩ := List.getLast?_eq_some_iff.1 hlast
  have admitted := (placed_concat.1 h).2.1
  cases before : initial.getLast? with
  | none =>
    rw [List.getLast?_eq_none_iff.1 before]
    rfl
  | some other =>
    rw [clashes_iff before, not_not] at admitted
    cases other <;>
      simp [Follows, kind, Kind.allows, Kind.followers, Kind.formulaStarts] at admitted

theorem Unfinished.exists_last (h : Unfinished tokens) : ∃ last, tokens.getLast? = some last := by
  cases tokens with
  | nil => simp [Unfinished] at h
  | cons first others => exact ⟨_, List.getLast?_cons⟩

/-- Tokens that are in place and not stuck go on to the end of a line. -/
theorem Placed.exists_finished (h : Placed tokens) (unfinished : Unfinished tokens)
    (free : ¬ Stuck tokens) :
    ∃ more, (∀ token ∈ more, token.lexable = true) ∧ Placed (tokens ++ more) ∧
      ¬ Unfinished (tokens ++ more) := by
  obtain ⟨last, hlast⟩ := unfinished.exists_last
  have nonempty : tokens ≠ [] := by
    rintro rfl
    cases hlast
  -- `print`, texts and truth values demand nothing, so behind them a bracket must be open
  have bracket := unfinished.opened hlast
  rcases sequel_cases last with ⟨front, ends⟩ | rfl | rfl | ⟨content, rfl⟩ | ⟨value, rfl⟩
  · have placed := h.sequel hlast
    have atomic : (tokens ++ last.sequel).getLast? = some (atom "P") := by
      rw [ends, ← List.append_assoc, List.getLast?_concat]
    have several : 1 < (tokens ++ last.sequel).length := by
      have := List.length_pos_iff.2 nonempty
      rw [ends, List.length_append, List.length_append, List.length_singleton]
      omega
    obtain ⟨more, lexable, closed, stops⟩ := placed.exists_closed atomic
      (follows_rightParenthesis_iff.2 (.inr ⟨_, rfl⟩)) several
    rw [List.append_assoc] at closed stops
    refine ⟨last.sequel ++ more, ?_, closed, stops⟩
    intro token mem
    exact (List.mem_append.1 mem).elim lexable_of_mem_sequel (lexable token)
  · refine ⟨is.sequel, fun token => lexable_of_mem_sequel, h.sequel hlast, fun more => free ?_⟩
    have final : (tokens ++ is.sequel).getLast? = some (text "") := List.getLast?_concat ..
    have opened := more.opened final (by decide) (by simp) (by simp)
    exact ⟨by simpa [Token.sequel] using opened, is, hlast, .inl rfl⟩
  · obtain rfl := h.eq_of_print hlast
    cases bracket (by decide) (by simp) (by simp)
  · have opened := bracket (by simp [demanding]) (by simp) (by simp)
    exact absurd ⟨opened, _, hlast, .inr (.inl ⟨_, rfl⟩)⟩ free
  · have opened := bracket (by simp [demanding]) (by simp) (by simp)
    exact absurd ⟨opened, _, hlast, .inr (.inr ⟨_, rfl⟩)⟩ free

/-! ## Dead ends -/

theorem Placed.follows (h : Placed (tokens ++ next :: more)) (hlast : tokens.getLast? = some last) :
    Follows last next :=
  not_not.1 ((clashes_iff hlast).not.1 (h tokens next more rfl).1)

/-- Nothing that is in place behind tokens that are stuck closes a bracket. -/
theorem Stuck.concat (h : Stuck tokens) (placed : Placed (tokens ++ [next])) :
    Stuck (tokens ++ [next]) := by
  obtain ⟨opened, last, hlast, kinds⟩ := h
  have follows : Follows last next := placed.follows hlast
  rcases kinds with rfl | ⟨content, rfl⟩ | ⟨value, rfl⟩
  · obtain ⟨content, rfl⟩ : ∃ content, next = text content := by
      cases next <;> simp [Follows, kind, Kind.allows, Kind.followers] at follows ⊢
    refine ⟨?_, text content, List.getLast?_concat .., .inr (.inl ⟨content, rfl⟩)⟩
    simpa using opened
  · cases follows
  · cases follows

/-- What is in place behind tokens that are stuck leaves them stuck. -/
theorem Stuck.append (h : Stuck tokens) (placed : Placed (tokens ++ more)) :
    Stuck (tokens ++ more) := by
  -- from the end, since what is in place stays so without its last token
  induction more using List.reverseRecOn with
  | nil => rwa [List.append_nil]
  | append_singleton initial next ih =>
    rw [← List.append_assoc] at placed ⊢
    exact (ih placed.of_append).concat placed

theorem Stuck.unfinished (h : Stuck tokens) : Unfinished tokens := .inl h.1

end Token

end Entailment
