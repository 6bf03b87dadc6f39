import Mathlib.Data.List.Infix
import Entailment.Proofs.Argument.Grammar
import Entailment.Proofs.Formula.LineGrammar

/-!
# Arguments in a line

Behind the `:=` of a declaration the layout of a line leaves one form of argument: formulas with
single commas between them, then possibly `∴` and one more formula.

Main statement: `Argument.lineWord_of_anyWord`.
-/

namespace Entailment

open Token (Follows depthBehind Segment)

namespace Formula

/-- Formulas with a comma between each two of them. -/
inductive ListWord : List Token → List Formula → Prop where
  | one {word : List Token} {formula : Formula} :
      LineWord word formula → ListWord word [formula]
  | more {word tokens : List Token} {formula : Formula} {formulas : List Formula} :
      LineWord word formula → ListWord tokens formulas →
      ListWord (word ++ .comma :: tokens) (formula :: formulas)

theorem ListWord.segment {tokens : List Token} {formulas : List Formula}
    (h : ListWord tokens formulas) : Segment tokens := by
  induction h with
  | one hword => exact hword.segment
  | more hword _ ih => exact hword.segment.joined trivial ih

theorem ListWord.anyPremises {tokens : List Token} {formulas : List Formula}
    (h : ListWord tokens formulas) : Argument.AnyPremises tokens formulas := by
  induction h with
  | @one word formula hword =>
    rw [← List.append_nil word]
    exact .premise hword.anyWord .nil
  | more hword _ ih => exact .premise hword.anyWord ih.comma

end Formula

namespace Argument

/-- The arguments that a line can hold. -/
inductive LineWord : List Token → Argument → Prop where
  | unconcluded {tokens : List Token} {premises : List Formula} :
      Formula.ListWord tokens premises → LineWord tokens ⟨premises, none⟩
  | concluded {tokens word : List Token} {premises : List Formula} {conclusion : Formula} :
      Formula.ListWord tokens premises → Formula.LineWord word conclusion →
      LineWord (tokens ++ .therefore :: word) ⟨premises, some conclusion⟩

theorem LineWord.segment {tokens : List Token} {argument : Argument}
    (h : LineWord tokens argument) : Segment tokens := by
  cases h with
  | unconcluded hpremises => exact hpremises.segment
  | concluded hpremises hword => exact hpremises.segment.joined trivial hword.segment

theorem LineWord.anyWord {tokens : List Token} {argument : Argument}
    (h : LineWord tokens argument) : AnyWord tokens argument := by
  cases h with
  | unconcluded hpremises => exact .unconcluded hpremises.anyPremises
  | concluded hpremises hword => exact .concluded hpremises.anyPremises hword.anyWord

/-! ## What the layout of a line leaves of the grammar -/

/-- The tokens do not stop where a formula is due. -/
def Settled (tokens : List Token) : Prop := ¬ [.assign] <:+ tokens ∧ ¬ [.comma] <:+ tokens

theorem Settled.of_suffix {first second : List Token} (h : Settled second)
    (suffix : first <:+ second) : Settled first :=
  ⟨fun stops => h.1 (stops.trans suffix), fun stops => h.2 (stops.trans suffix)⟩

/-- Where a formula is due the premises start with one; where one has just ended they are over or go
on with a comma. -/
theorem listWord_of_anyPremises {tokens : List Token} {premises : List Formula}
    (h : AnyPremises tokens premises) {before : Token}
    (follows : (before :: tokens).IsChain Follows) (settled : Settled (before :: tokens)) :
    (before = .assign ∨ before = .comma → Formula.ListWord tokens premises) ∧
    (before.Closes → (tokens = [] ∧ premises = []) ∨
      ∃ others, tokens = .comma :: others ∧ Formula.ListWord others premises) := by
  induction h generalizing before with
  | nil =>
    refine ⟨fun due => ?_, fun _ => .inl ⟨rfl, rfl⟩⟩
    rcases due with rfl | rfl
    · exact absurd (List.suffix_refl _) settled.1
    · exact absurd (List.suffix_refl _) settled.2
  | @comma tokens premises _ ih =>
    obtain ⟨allowed, rest⟩ := List.isChain_cons_cons.1 follows
    constructor
    · rintro (rfl | rfl)
      · cases allowed
      · cases allowed
    · intro _
      have others := ih rest (settled.of_suffix (List.suffix_cons _ _))
      exact .inr ⟨tokens, rfl, others.1 (.inr rfl)⟩
  | @premise word tokens formula premises hword _ ih =>
    obtain ⟨head, others, rfl, opens⟩ := hword.opens
    obtain ⟨last, hlast, closes⟩ := hword.closes
    have allowed := (List.isChain_cons.1 follows).1 head rfl
    obtain ⟨inside, behind, joint⟩ := List.isChain_append.1 follows.tail
    constructor
    · intro _
      have spelled := hword.lineWord_of_follows inside
      obtain ⟨initial, hword⟩ := List.getLast?_eq_some_iff.1 hlast
      have suffix : last :: tokens <:+ before :: (head :: others ++ tokens) :=
        ⟨before :: initial, by rw [hword]; simp⟩
      have follows : (last :: tokens).IsChain Follows :=
        List.isChain_cons.2 ⟨joint last hlast, behind⟩
      rcases (ih follows (settled.of_suffix suffix)).2 closes with ⟨rfl, rfl⟩ | ⟨more, rfl, hmore⟩
      · rw [List.append_nil]
        exact .one spelled
      · exact .more spelled hmore
    · intro ended
      -- no formula follows another one directly
      rcases ended with ⟨_, rfl⟩ | rfl <;> rcases opens with ⟨_, rfl⟩ | rfl | rfl <;> cases allowed

/-- Premises in front of `∴` are well formed. -/
theorem listWord_of_therefore {tokens rest : List Token} {premises : List Formula}
    (h : AnyPremises tokens premises)
    (follows : (.assign :: (tokens ++ .therefore :: rest)).IsChain Follows) :
    Formula.ListWord tokens premises ∧ (Token.therefore :: rest).IsChain Follows := by
  rw [← List.cons_append] at follows
  obtain ⟨inside, behind, joint⟩ := List.isChain_append.1 follows
  refine ⟨(listWord_of_anyPremises h inside ⟨?_, ?_⟩).1 (.inl rfl), behind⟩
  · rintro ⟨initial, same⟩
    cases joint .assign (by rw [← same, List.getLast?_concat]; rfl) _ rfl
  · rintro ⟨initial, same⟩
    cases joint .comma (by rw [← same, List.getLast?_concat]; rfl) _ rfl

/-- An argument that follows `:=`, closes no bracket too many and does not stop where a formula is
due has the one form. -/
theorem lineWord_of_anyWord {tokens : List Token} {argument : Argument} (h : AnyWord tokens argument)
    (follows : (.assign :: tokens).IsChain Follows)
    (balanced : tokens.foldlM depthBehind 0 = some 0) (settled : Settled (.assign :: tokens)) :
    LineWord tokens argument := by
  cases h with
  | unconcluded hpremises =>
    exact .unconcluded ((listWord_of_anyPremises hpremises follows settled).1 (.inl rfl))
  | concluded hpremises hword =>
    obtain ⟨premises, behind⟩ := listWord_of_therefore hpremises follows
    exact .concluded premises (hword.lineWord_of_follows behind.tail)
  | @closed tokens word premises conclusion hpremises hword =>
    obtain ⟨premises, behind⟩ := listWord_of_therefore hpremises follows
    have conclusion := hword.lineWord_of_follows (List.isChain_append.1 behind.tail).1
    have whole : Segment (tokens ++ .therefore :: word) :=
      premises.segment.joined trivial conclusion.segment
    rw [← List.cons_append, ← List.append_assoc, List.foldlM_append, whole.balanced] at balanced
    cases balanced

end Argument

end Entailment
