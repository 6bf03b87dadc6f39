import Entailment.Proofs.Formula.Grammar
import Entailment.Proofs.Line.Layout

/-!
# Formulas in a line

Of the tokens that a reader takes between two formulas, the layout of a line lets through the
connectives, a comma, `∴`, and `:=` behind an atom.  Words with these are segments of a line: they
open and close as a formula does, and leave as many brackets open as there were before them.

* `Formula.Word.segment`: such words are segments.
* `Formula.Word.lineWord_of_follows`: a word whose tokens may follow one another is such a word.
-/

namespace Entailment

namespace Token

/-- The tokens that a line can have between two formulas, of which the first is spelled `left`. -/
def Joins (left : List Token) : Token → Prop
  | connective _ | comma | therefore => True
  | assign => ∃ name, left.getLast? = some (atom name)
  | _ => False

theorem follows_of_joins {left : List Token} {last operator : Token}
    (hlast : left.getLast? = some last) (closes : last.Closes) (joined : Joins left operator) :
    Follows last operator := by
  cases operator
  case connective connective =>
    rcases closes with ⟨name, rfl⟩ | rfl <;> cases connective <;> rfl
  case comma => rcases closes with ⟨name, rfl⟩ | rfl <;> rfl
  case therefore => rcases closes with ⟨name, rfl⟩ | rfl <;> rfl
  case assign =>
    obtain ⟨name, hatom⟩ := joined
    rw [hlast] at hatom
    cases hatom
    rfl
  all_goals cases joined

theorem Opens.follows {left : List Token} {operator first : Token} (opens : first.Opens)
    (joined : Joins left operator) : Follows operator first := by
  cases operator
  case connective connective => rcases opens with ⟨name, rfl⟩ | rfl | rfl <;> rfl
  case comma => rcases opens with ⟨name, rfl⟩ | rfl | rfl <;> rfl
  case therefore => rcases opens with ⟨name, rfl⟩ | rfl | rfl <;> rfl
  case assign => rcases opens with ⟨name, rfl⟩ | rfl | rfl <;> rfl
  all_goals cases joined

/-- Only these tokens can follow the end of a formula and stand in front of another one. -/
theorem joins_of_follows {left : List Token} {last operator first : Token}
    (hlast : left.getLast? = some last) (closes : last.Closes) (opens : first.Opens)
    (behind : Follows last operator) (before : Follows operator first) : Joins left operator := by
  cases operator
  case connective connective => trivial
  case comma => trivial
  case therefore => trivial
  case assign =>
    rcases closes with ⟨name, rfl⟩ | rfl
    · exact ⟨name, hlast⟩
    · cases behind
  -- what else stands in front of a formula does not follow one
  all_goals rcases opens with ⟨name, rfl⟩ | rfl | rfl <;> cases before
  all_goals rcases closes with ⟨name, rfl⟩ | rfl <;> cases behind

theorem depthBehind_of_joins {left : List Token} {operator : Token} (joined : Joins left operator)
    (depth : Nat) : depthBehind depth operator = some depth := by
  cases operator
  case leftParenthesis => cases joined
  case rightParenthesis => cases joined
  all_goals rfl

/-- A stretch of a line that opens and closes as a formula does, with tokens that may follow one
another and brackets that match. -/
structure Segment (tokens : List Token) : Prop where
  opens : ∃ first, tokens.head? = some first ∧ first.Opens
  closes : ∃ last, tokens.getLast? = some last ∧ last.Closes
  follows : tokens.IsChain Follows
  balanced : ∀ depth, tokens.foldlM depthBehind depth = some depth

namespace Segment

theorem isChain_cons {before : Token} {tokens : List Token} (h : Segment tokens)
    (follows : ∀ first, first.Opens → Follows before first) :
    (before :: tokens).IsChain Follows := by
  obtain ⟨first, hfirst, opens⟩ := h.opens
  refine List.isChain_cons.2 ⟨fun token htoken => ?_, h.follows⟩
  rw [hfirst] at htoken
  cases htoken
  exact follows first opens

theorem atom (name : String) : Segment [.atom name] where
  opens := ⟨_, rfl, .inl ⟨name, rfl⟩⟩
  closes := ⟨_, rfl, .inl ⟨name, rfl⟩⟩
  follows := .singleton _
  balanced _ := rfl

theorem negated {tokens : List Token} (h : Segment tokens) : Segment (.not :: tokens) where
  opens := ⟨_, rfl, .inr (.inr rfl)⟩
  closes := by
    obtain ⟨last, hlast, closes⟩ := h.closes
    refine ⟨last, ?_, closes⟩
    rw [List.getLast?_cons, hlast]
    rfl
  follows := h.isChain_cons fun first opens => by
    rcases opens with ⟨name, rfl⟩ | rfl | rfl <;> rfl
  balanced := h.balanced

theorem joined {first second : List Token} {operator : Token} (hf : Segment first)
    (joins : Joins first operator) (hs : Segment second) :
    Segment (first ++ operator :: second) where
  opens := by
    obtain ⟨token, htoken, opens⟩ := hf.opens
    refine ⟨token, ?_, opens⟩
    rw [List.head?_append, htoken]
    rfl
  closes := by
    obtain ⟨token, htoken, closes⟩ := hs.closes
    refine ⟨token, ?_, closes⟩
    rw [List.getLast?_append, List.getLast?_cons, htoken]
    rfl
  follows := by
    have rest := hs.isChain_cons fun first opens => opens.follows joins
    refine List.isChain_append.2 ⟨hf.follows, rest, ?_⟩
    obtain ⟨last, hlast, closes⟩ := hf.closes
    rintro token htoken _ ⟨⟩
    rw [hlast] at htoken
    cases htoken
    exact follows_of_joins hlast closes joins
  balanced depth := by
    rw [List.foldlM_append, hf.balanced, Option.bind_eq_bind, Option.bind_some, List.foldlM_cons,
      depthBehind_of_joins joins]
    exact hs.balanced depth

theorem bracketed {tokens : List Token} (h : Segment tokens) :
    Segment (.leftParenthesis :: (tokens ++ [.rightParenthesis])) where
  opens := ⟨_, rfl, .inr (.inl rfl)⟩
  closes := by
    refine ⟨.rightParenthesis, ?_, .inr rfl⟩
    rw [← List.cons_append, List.getLast?_concat]
  follows := by
    rw [← List.cons_append]
    refine List.isChain_append.2 ⟨h.isChain_cons fun first opens => ?_, .singleton _, ?_⟩
    · rcases opens with ⟨name, rfl⟩ | rfl | rfl <;> rfl
    · obtain ⟨last, hlast, closes⟩ := h.closes
      rintro token htoken _ ⟨⟩
      rw [List.getLast?_cons, hlast] at htoken
      cases htoken
      rcases closes with ⟨name, rfl⟩ | rfl <;> rfl
  balanced depth := by
    show (tokens ++ [rightParenthesis]).foldlM depthBehind (depth + 1) = some depth
    rw [List.foldlM_append, h.balanced]
    rfl

end Segment

end Token

namespace Formula

/-- The words of the formulas that a line can hold. -/
abbrev LineWord : List Token → Formula → Prop := Word Token.Joins

theorem Word.segment {word : List Token} {formula : Formula} (h : LineWord word formula) :
    Token.Segment word := by
  induction h with
  | atom name => exact .atom name
  | negation _ ih => exact ih.negated
  | binary _ joins _ ihl ihr =>
    have inside := (ihl.joined joins ihr).bracketed
    rwa [List.append_assoc, List.cons_append] at inside

theorem Word.anyWord {word : List Token} {formula : Formula} (h : LineWord word formula) :
    AnyWord word formula :=
  h.mono fun _ _ _ => trivial

theorem Word.lineWord_of_follows {word : List Token} {formula : Formula}
    (h : AnyWord word formula) (follows : word.IsChain Token.Follows) :
    LineWord word formula := by
  induction h with
  | atom name => exact .atom name
  | negation _ ih => exact .negation (ih follows.tail)
  | @binary first second operator left right hl _ hr ihl ihr =>
    obtain ⟨hfirst, hrest, behind⟩ := List.isChain_append.1 follows.tail
    obtain ⟨before, hrest⟩ := List.isChain_cons.1 hrest
    obtain ⟨hsecond, -, -⟩ := List.isChain_append.1 hrest
    obtain ⟨last, hlast, closes⟩ := hl.closes
    obtain ⟨head, others, rfl, opens⟩ := hr.opens
    refine .binary (ihl hfirst) ?_ (ihr hsecond)
    exact Token.joins_of_follows hlast closes opens (behind _ hlast _ rfl) (before _ rfl)

end Formula

end Entailment
