import Mathlib.Data.List.Chain
import Entailment.Proofs.Line.Verdict
import Entailment.Proofs.Token.Reading

/-!
# Spans of a line

Tokens can be read off a text one by one, with blanks skipped in front of each.  A span is what is
taken off in one step: the blanks and the lexeme.  The spans of a text are read until there is no
further token; they are its lexemes if only blanks are left behind them and no word directly follows
another one.

* `Token.spelling_spans`: spans and what is left make up the text.
* `Piece.lexemes_eq_ok_iff_spans`: when the spans of a text are its lexemes.
* `Line.ofText_tiled`: an accepted line is made of its lexemes and of blanks between them.
* `Line.ofText_agrees_with_scan`: reading tokens one by one and reading a line come to the same
  tokens, and how the two can differ.
-/

namespace Entailment

/-- A lexeme with the blanks in front of it. -/
structure Span where
  gap : List Char
  lexeme : Lexeme

namespace Span

def spelling (span : Span) : List Char := span.gap ++ span.lexeme.spelling.toList

def isWord (span : Span) : Bool := span.lexeme.spelling.toList.all Piece.isWordChar

/-- If both are words, there is something between them. -/
def Apart (first second : Span) : Prop :=
  first.isWord = true → second.isWord = true → second.gap ≠ []

end Span

namespace Token

/-! ## The spans of a text -/

/-- The spans of a text whose first character has this position, and the text behind them.  What
`next?` takes off is blanks, and then the spelling of the token. -/
def spans (position : Nat) (text : List Char) : List Span × List Char :=
  match h : next? text with
  | none => ([], text)
  | some (token, rest) =>
    have := length_lt_of_next? h
    let gap := text.takeWhile Piece.isBlank
    let behind := text.dropWhile Piece.isBlank
    let spelling := behind.take (behind.length - rest.length)
    let start := position + gap.length
    let (others, unread) := spans (start + spelling.length) rest
    (⟨gap, ⟨token, .ofList spelling, start⟩⟩ :: others, unread)
termination_by text.length

theorem spans_of_next?_none {position : Nat} {text : List Char} (h : next? text = none) :
    spans position text = ([], text) := by
  rw [spans]
  split
  · rfl
  · next found => rw [h] at found; cases found

theorem spans_of_leads {position : Nat} {gap rest : List Char} {piece : Piece} {token : Token}
    (blank : ∀ c ∈ gap, Piece.isBlank c = true) (leads : piece.Leads rest)
    (htoken : piece.shape = .token token) :
    spans position (gap ++ (piece.spelling ++ rest)) =
      (⟨gap, ⟨token, .ofList piece.spelling, position + gap.length⟩⟩ ::
          (spans (position + gap.length + piece.spelling.length) rest).1,
        (spans (position + gap.length + piece.spelling.length) rest).2) := by
  have next := next?_of_leads blank leads htoken
  rw [spans]
  split
  · next found => rw [next] at found; cases found
  · next found =>
    rw [next] at found
    cases found
    have spelled : (piece.spelling ++ rest).take
        ((piece.spelling ++ rest).length - rest.length) = piece.spelling := by
      rw [List.length_append, Nat.add_sub_cancel, List.take_left]
    simp only [takeWhile_of_leads blank leads htoken, dropWhile_of_leads blank leads htoken,
      spelled]

/-- The tokens of the spans are those that are read one by one. -/
theorem scan_eq_spans (position : Nat) (text : List Char) :
    scan text = ((spans position text).1.map fun span => span.lexeme.token,
      (spans position text).2) := by
  induction text using reading_induction generalizing position with
  | stop text none => rw [scan_of_next?_none none, spans_of_next?_none none, List.map_nil]
  | read gap piece token rest blank leads htoken ih =>
    rw [scan_of_next?_some (next?_of_leads blank leads htoken),
      spans_of_leads blank leads htoken, ih, List.map_cons]

/-- Nothing of a text is lost between its spans. -/
theorem spelling_spans (position : Nat) (text : List Char) :
    (spans position text).1.flatMap Span.spelling ++ (spans position text).2 = text := by
  induction text using reading_induction generalizing position with
  | stop text none => rw [spans_of_next?_none none, List.flatMap_nil, List.nil_append]
  | read gap piece token rest blank leads htoken ih =>
    rw [spans_of_leads blank leads htoken, List.flatMap_cons, List.append_assoc, ih, Span.spelling,
      String.toList_ofList, List.append_assoc]

/-- What is true of each span alone: blanks come first, and what follows them is all of a token. -/
theorem stands_of_mem_spans {position : Nat} {text : List Char} {span : Span}
    (mem : span ∈ (spans position text).1) :
    (∀ c ∈ span.gap, Piece.isBlank c = true) ∧ span.lexeme.spelling ≠ "" ∧
      next? span.lexeme.spelling.toList = some (span.lexeme.token, []) := by
  induction text using reading_induction generalizing position with
  | stop text none =>
    rw [spans_of_next?_none none] at mem
    cases mem
  | read gap piece token rest blank leads htoken ih =>
    rw [spans_of_leads blank leads htoken] at mem
    rcases List.mem_cons.1 mem with rfl | mem
    · refine ⟨blank, fun none => ?_, ?_⟩
      · cases String.ofList_injective none
      · have alone : piece.Leads [] := by
          unfold Piece.Leads
          rw [List.append_nil]
          exact leads.whole htoken
        have read := next?_of_leads (List.forall_mem_nil _) alone htoken
        rw [List.nil_append, List.append_nil] at read
        show next? (String.ofList piece.spelling).toList = some (token, [])
        rw [String.toList_ofList, read]
    · exact ih mem

/-- A span stands behind those in front of it. -/
theorem position_of_spans {position : Nat} {text : List Char} {before behind : List Span}
    {span : Span} (listed : (spans position text).1 = before ++ span :: behind) :
    span.lexeme.position = position + (before.flatMap Span.spelling ++ span.gap).length := by
  induction text using reading_induction generalizing position before with
  | stop text none =>
    rw [spans_of_next?_none none] at listed
    simp at listed
  | read gap piece token rest blank leads htoken ih =>
    rw [spans_of_leads blank leads htoken] at listed
    cases before with
    | nil =>
      obtain ⟨rfl, -⟩ := List.cons_eq_cons.1 listed
      rfl
    | cons first others =>
      obtain ⟨rfl, further⟩ := List.cons_eq_cons.1 listed
      simp only [ih further, List.flatMap_cons, Span.spelling, String.toList_ofList,
        List.length_append]
      omega

end Token

/-! ## Spans and lexemes -/

namespace Piece

open Token (spans)

variable {line : String} {position : Nat} {touching : Bool}

theorem lexemes_blanks {gap : List Char} (blank : ∀ c ∈ gap, isBlank c = true)
    (text : List Char) :
    lexemes line position touching (split (gap ++ text)) =
      lexemes line (position + gap.length) (touching && gap.isEmpty) (split text) := by
  induction gap generalizing position touching with
  | nil => rw [List.isEmpty_nil, Bool.and_true]; rfl
  | cons c gap ih =>
    rw [List.forall_mem_cons] at blank
    rw [List.cons_append, lexemes_blank blank.1, ih blank.2, List.isEmpty_cons, Bool.and_false,
      Bool.false_and, List.length_cons, Nat.add_assoc, Nat.add_comm 1]

theorem lexemes_of_leads {gap rest : List Char} {piece : Piece} {token : Token}
    (blank : ∀ c ∈ gap, isBlank c = true) (leads : piece.Leads rest)
    (htoken : piece.shape = .token token) :
    lexemes line position touching (split (gap ++ (piece.spelling ++ rest))) =
      if touching && gap.isEmpty && piece.isWord then
        .error (.character piece.first (position + gap.length) line)
      else do
        let others ← lexemes line (position + gap.length + piece.spelling.length) piece.isWord
          (split rest)
        return ⟨token, .ofList piece.spelling, position + gap.length⟩ :: others := by
  rw [lexemes_blanks blank, split_of_leads leads, lexemes_cons, htoken]

theorem lexemes_of_next?_none {text : List Char} {lexemes : List Lexeme}
    (none : Token.next? text = none) :
    Piece.lexemes line position touching (split text) = .ok lexemes ↔
      lexemes = [] ∧ ∀ c ∈ text, isBlank c = true := by
  have whole := List.takeWhile_append_dropWhile (p := isBlank) (l := text)
  have blank : ∀ c ∈ text.takeWhile isBlank, isBlank c = true := fun c mem =>
    List.mem_takeWhile_imp mem
  rw [← whole, lexemes_blanks blank, whole]
  unfold Token.next? at none
  split at none
  · next found =>
    rw [found, split]
    constructor
    · rintro ⟨⟩
      exact ⟨rfl, List.dropWhile_eq_nil_iff.1 found⟩
    · rintro ⟨rfl, -⟩
      rfl
  · next c others found =>
    -- the character that stopped the blanks is no blank, and no token begins with it
    have unblank : ¬ isBlank c = true := by
      have stops := List.head?_dropWhile_not isBlank text
      rw [found] at stops
      simpa using stops
    have mem : c ∈ text := by
      rw [← whole, found]
      exact List.mem_append_right _ List.mem_cons_self
    constructor
    · intro h
      rw [found, split] at h
      rcases exists_lexemes_of_cons h with ⟨hblank, -⟩ | ⟨token, _, htoken, -, -⟩
      · exact absurd (isBlank_of_front hblank) unblank
      · rw [htoken] at none
        cases none
    · rintro ⟨-, all⟩
      exact absurd (all c mem) unblank

/-- The spans of a text are its lexemes just if only blanks are left behind them, and words are
apart: each from the one before it, and the first from a word in front of the text. -/
theorem lexemes_eq_ok_iff_spans {text : List Char} {lexemes : List Lexeme} :
    Piece.lexemes line position touching (split text) = .ok lexemes ↔
      (spans position text).1.map Span.lexeme = lexemes ∧
      (∀ c ∈ (spans position text).2, isBlank c = true) ∧
      (spans position text).1.IsChain Span.Apart ∧
      (touching = true → ∀ first ∈ (spans position text).1.head?,
        first.isWord = true → first.gap ≠ []) := by
  induction text using Token.reading_induction generalizing position touching lexemes with
  | stop text none =>
    rw [lexemes_of_next?_none none, Token.spans_of_next?_none none]
    constructor
    · rintro ⟨rfl, all⟩
      exact ⟨rfl, all, .nil, by rintro - first ⟨⟩⟩
    · rintro ⟨rfl, all, -⟩
      exact ⟨rfl, all⟩
  | read gap piece token rest blank leads htoken ih =>
    rw [lexemes_of_leads blank leads htoken, Token.spans_of_leads blank leads htoken]
    let first : Span := ⟨gap, ⟨token, .ofList piece.spelling, position + gap.length⟩⟩
    have word : first.isWord = piece.isWord := by
      show (String.ofList piece.spelling).toList.all isWordChar = _
      rw [String.toList_ofList]
      rfl
    have apart : (touching = true → first.isWord = true → first.gap ≠ []) ↔
        ¬ (touching && gap.isEmpty && piece.isWord) = true := by
      rw [word]
      show (_ → _ → gap ≠ []) ↔ _
      cases touching <;> cases gap <;> simp
    rw [List.map_cons, List.isChain_cons]
    simp only [List.head?_cons, Option.mem_some_iff, forall_eq']
    rw [apart]
    split
    · next touches =>
      constructor
      · rintro ⟨⟩
      · exact fun h => absurd touches h.2.2.2
    · next separate =>
      rw [bind_eq_ok_iff]
      constructor
      · rintro ⟨others, scanned, ⟨⟩⟩
        obtain ⟨rfl, blankBehind, chain, next⟩ := ih.1 scanned
        rw [← word] at next
        exact ⟨rfl, blankBehind, ⟨fun second mem hfirst => next hfirst second mem, chain⟩,
          separate⟩
      · rintro ⟨rfl, blankBehind, ⟨next, chain⟩, -⟩
        refine ⟨_, ih.2 ⟨rfl, blankBehind, chain, fun hfirst second mem => ?_⟩, rfl⟩
        rw [← word] at hfirst
        exact next second mem hfirst

end Piece

theorem Lexeme.scan_eq_ok_iff_spans {text : String} {lexemes : List Lexeme} :
    scan text = .ok lexemes ↔
      (Token.spans 0 text.toList).1.map Span.lexeme = lexemes ∧
      (∀ c ∈ (Token.spans 0 text.toList).2, Piece.isBlank c = true) ∧
      (Token.spans 0 text.toList).1.IsChain Span.Apart := by
  rw [scan, Piece.lexemes_eq_ok_iff_spans]
  simp

namespace Line

open Token (spans)

/-- A line that is accepted and has lexemes is made of them and of blanks.  Each lexeme stands where
its position says and is spelled as its token alone is, and between two words there is a blank. -/
theorem ofText_tiled {text : String} {line : Line} (read : ofText text = .ok line)
    (present : line.lexemes ≠ []) :
    ∃ (spans : List Span) (last : List Char),
      spans.map Span.lexeme = line.lexemes ∧
      text.toList = spans.flatMap Span.spelling ++ last ∧
      (∀ c ∈ last, Piece.isBlank c = true) ∧
      spans.IsChain Span.Apart ∧
      ∀ before span behind, spans = before ++ span :: behind →
        (∀ c ∈ span.gap, Piece.isBlank c = true) ∧ span.lexeme.spelling ≠ "" ∧
        span.lexeme.position = (before.flatMap Span.spelling ++ span.gap).length ∧
        Token.next? span.lexeme.spelling.toList = some (span.lexeme.token, []) := by
  obtain ⟨-, rfl⟩ | ⟨-, lexemes, scanned, -, rfl⟩ := ofText_eq_ok_iff.1 read
  · exact absurd rfl present
  obtain ⟨listed, blank, apart⟩ := Lexeme.scan_eq_ok_iff_spans.1 scanned
  refine ⟨(spans 0 text.toList).1, (spans 0 text.toList).2, listed,
    (Token.spelling_spans 0 text.toList).symm, blank, apart, ?_⟩
  intro before span behind found
  have mem : span ∈ (spans 0 text.toList).1 := by
    rw [found]
    exact List.mem_append_right _ List.mem_cons_self
  obtain ⟨gap, spelled, alone⟩ := Token.stands_of_mem_spans mem
  have placed := Token.position_of_spans found
  rw [Nat.zero_add] at placed
  exact ⟨gap, spelled, placed, alone⟩

/-- No blank is needed at a sign, and a carriage return may stand at the end. -/
theorem ofText_tiled_therefore :
    let text := "argument a:=(P∧!Q1)therefore\tR \r"
    ∃ line, ofText text = .ok line ∧ line.lexemes ≠ [] ∧
    ∃ (spans : List Span) (last : List Char),
      spans.map Span.lexeme = line.lexemes ∧
      text.toList = spans.flatMap Span.spelling ++ last ∧
      (∀ c ∈ last, Piece.isBlank c = true) ∧
      spans.IsChain Span.Apart ∧
      ∀ before span behind, spans = before ++ span :: behind →
        (∀ c ∈ span.gap, Piece.isBlank c = true) ∧ span.lexeme.spelling ≠ "" ∧
        span.lexeme.position = (before.flatMap Span.spelling ++ span.gap).length ∧
        Token.next? span.lexeme.spelling.toList = some (span.lexeme.token, []) := by
  intro text
  have read : ofText text = .ok ⟨text,
      [⟨.argument, "argument", 0⟩, ⟨.identifier "a", "a", 9⟩, ⟨.assign, ":=", 10⟩,
        ⟨.leftParenthesis, "(", 12⟩, ⟨.atom "P", "P", 13⟩,
        ⟨.connective .conjunction, "∧", 14⟩, ⟨.not, "!", 15⟩, ⟨.atom "Q1", "Q1", 16⟩,
        ⟨.rightParenthesis, ")", 18⟩, ⟨.therefore, "therefore", 19⟩,
        ⟨.atom "R", "R", 29⟩]⟩ := by
    decide +kernel
  exact ⟨_, read, List.cons_ne_nil _ _, ofText_tiled read (List.cons_ne_nil _ _)⟩

/-- A text that is no remark is refused for a character just if one that is no blank is left when
tokens are read off it one by one, or two words are read that nothing separates.  An accepted line
has the tokens that are read so. -/
theorem ofText_agrees_with_scan {text : String} (content : ¬ Remark text) :
    let spans := (Token.spans 0 text.toList).1
    let unread := (Token.spans 0 text.toList).2
    Token.scan text.toList = (spans.map fun span => span.lexeme.token, unread) ∧
    spans.flatMap Span.spelling ++ unread = text.toList ∧
    (∀ span ∈ spans, (∀ c ∈ span.gap, Piece.isBlank c = true) ∧ span.lexeme.spelling ≠ "" ∧
      Token.next? span.lexeme.spelling.toList = some (span.lexeme.token, [])) ∧
    ((∃ c position reported, ofText text = .error (.character c position reported)) ↔
      (∃ c ∈ unread, Piece.isBlank c = false) ∨
      ∃ before first second behind, spans = before ++ first :: second :: behind ∧
        first.isWord = true ∧ second.isWord = true ∧ second.gap = []) ∧
    ∀ line, ofText text = .ok line → line.tokens = (Token.scan text.toList).1 := by
  intro spans unread
  refine ⟨Token.scan_eq_spans 0 text.toList, Token.spelling_spans 0 text.toList,
    fun span => Token.stands_of_mem_spans, ?_, ?_⟩
  · constructor
    · rintro ⟨c, position, reported, read⟩
      have refused := (ofText_eq_character_iff content).1 read
      by_contra fine
      rw [not_or] at fine
      have scanned : Lexeme.scan text = .ok (spans.map Span.lexeme) := by
        refine Lexeme.scan_eq_ok_iff_spans.2 ⟨rfl, fun c mem => ?_, ?_⟩
        · by_contra unblank
          exact fine.1 ⟨c, mem, Bool.eq_false_iff.2 unblank⟩
        · refine List.isChain_iff_forall_rel_of_append_cons_cons.2 ?_
          intro first second before behind listed hfirst hsecond nothing
          exact fine.2 ⟨before, first, second, behind, listed, hfirst, hsecond, nothing⟩
      rw [scanned] at refused
      cases refused
    · intro faulty
      cases scanned : Lexeme.scan text with
      | error failure =>
        obtain ⟨c, position, rfl⟩ := Lexeme.scan_error scanned
        exact ⟨c, position, text, (ofText_eq_character_iff content).2 scanned⟩
      | ok lexemes =>
        obtain ⟨-, blank, apart⟩ := Lexeme.scan_eq_ok_iff_spans.1 scanned
        rcases faulty with ⟨c, mem, unblank⟩ | ⟨_, _, _, _, listed, hfirst, hsecond, nothing⟩
        · rw [blank c mem] at unblank
          cases unblank
        · have apart := List.isChain_iff_forall_rel_of_append_cons_cons.1 apart listed
          exact absurd nothing (apart hfirst hsecond)
  · intro line read
    obtain ⟨remark, -⟩ | ⟨-, lexemes, scanned, -, rfl⟩ := ofText_eq_ok_iff.1 read
    · exact absurd (isRemark_eq_true_iff.1 remark) content
    obtain ⟨rfl, -⟩ := Lexeme.scan_eq_ok_iff_spans.1 scanned
    rw [Token.scan_eq_spans 0]
    exact List.map_map

/-- Two words touch, and a character is left that begins no token. -/
theorem ofText_agrees_with_scan_touching :
    let text := "validate x_1Y & §"
    let spans := (Token.spans 0 text.toList).1
    let unread := (Token.spans 0 text.toList).2
    ¬ Remark text ∧
    Token.scan text.toList =
      ([.query .validity, .identifier "x_1", .atom "Y", .connective .conjunction], [' ', '§']) ∧
    Token.scan text.toList = (spans.map fun span => span.lexeme.token, unread) ∧
    spans.flatMap Span.spelling ++ unread = text.toList ∧
    (∀ span ∈ spans, (∀ c ∈ span.gap, Piece.isBlank c = true) ∧ span.lexeme.spelling ≠ "" ∧
      Token.next? span.lexeme.spelling.toList = some (span.lexeme.token, [])) ∧
    ((∃ c position reported, ofText text = .error (.character c position reported)) ↔
      (∃ c ∈ unread, Piece.isBlank c = false) ∨
      ∃ before first second behind, spans = before ++ first :: second :: behind ∧
        first.isWord = true ∧ second.isWord = true ∧ second.gap = []) ∧
    ∀ line, ofText text = .ok line → line.tokens = (Token.scan text.toList).1 := by
  intro text spans unread
  have content : ¬ Remark text := by
    rw [← isRemark_eq_true_iff]
    decide +kernel
  exact ⟨content, by decide +kernel, ofText_agrees_with_scan content⟩

end Line

end Entailment
