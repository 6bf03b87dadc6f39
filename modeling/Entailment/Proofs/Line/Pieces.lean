import Mathlib.Data.List.TakeWhile
import Entailment.Line

/-!
# Tokens at the front of a text

A token at the front of a text begins with a letter, a quote or a sign.  A piece that is a token of
its own remains one in front of any text that does not go on with it.

* `Piece.front_cases`: how a token can begin.
* `Piece.Whole.leads`: a token is taken off the front of a text whole.
* `Piece.whole_of_front`: a token at the front of a text is a piece of its own.
* `Line.isRemark_eq_false_of_scan`: a text that holds a lexeme is not blank and no comment.
-/

namespace Entailment

namespace Piece

def isWordChar (c : Char) : Bool := c.isAlphanum || c = '_'

/-- Whether a piece is what its characters alone begin with, and nothing is left. -/
def Whole (piece : Piece) : Prop := front piece.first piece.others = (piece, [])

/-- Whether a piece is the one that its characters, with `rest` behind them, begin with. -/
def Leads (piece : Piece) (rest : List Char) : Prop :=
  front piece.first (piece.others ++ rest) = (piece, rest)

theorem isWord_mk (shape : Shape) (c : Char) (others : List Char) :
    (⟨shape, c, others⟩ : Piece).isWord = (isWordChar c && others.all isWordChar) := rfl

/-- The characters that a sign begins with. -/
def signs : List Char := [':', '-', '¬', '!', '∧', '&', '∨', '|', '→', '∴', '(', ')', ',']

/-! ## Classes of characters -/

theorem toNat_of_isUpper {c : Char} (h : c.isUpper = true) : 65 ≤ c.toNat ∧ c.toNat ≤ 90 := by
  obtain ⟨low, high⟩ := of_decide_eq_true h
  exact ⟨UInt32.le_iff_toNat_le.1 low, UInt32.le_iff_toNat_le.1 high⟩

theorem toNat_of_isLower {c : Char} (h : c.isLower = true) : 97 ≤ c.toNat ∧ c.toNat ≤ 122 := by
  obtain ⟨low, high⟩ := Bool.and_eq_true_iff.1 h
  exact ⟨UInt32.le_iff_toNat_le.1 (of_decide_eq_true low),
    UInt32.le_iff_toNat_le.1 (of_decide_eq_true high)⟩

theorem not_isUpper_of_isLower {c : Char} (h : c.isLower = true) : c.isUpper = false := by
  rw [Bool.eq_false_iff]
  intro upper
  have low := (toNat_of_isLower h).1
  have high := (toNat_of_isUpper upper).2
  omega

theorem not_isLower_of_isUpper {c : Char} (h : c.isUpper = true) : c.isLower = false := by
  rw [Bool.eq_false_iff]
  intro lower
  rw [not_isUpper_of_isLower lower] at h
  cases h

theorem isWordChar_eq (c : Char) :
    isWordChar c = (c.isUpper || c.isLower || c.isDigit || c = '_') := rfl

theorem isWordChar_of_isUpper {c : Char} (h : c.isUpper = true) : isWordChar c = true := by
  rw [isWordChar_eq, h]
  rfl

theorem isWordChar_of_isLower {c : Char} (h : c.isLower = true) : isWordChar c = true := by
  rw [isWordChar_eq, h, Bool.or_true]
  rfl

theorem isWordChar_of_isDigit {c : Char} (h : c.isDigit = true) : isWordChar c = true := by
  rw [isWordChar_eq, h, Bool.or_true]
  rfl

theorem isWordChar_of_continuesWord {c : Char} (h : continuesWord c = true) :
    isWordChar c = true := by
  simp only [continuesWord, Bool.or_eq_true, decide_eq_true_eq] at h
  rcases h with (lower | digit) | rfl
  · exact isWordChar_of_isLower lower
  · exact isWordChar_of_isDigit digit
  · rfl

theorem not_isSpace_of_isWordChar {c : Char} (h : isWordChar c = true) :
    Text.isSpace c = false ∧ c ≠ '/' := by
  have bounds : 48 ≤ c.toNat ∧ c.toNat ≤ 57 ∨ 65 ≤ c.toNat ∧ c.toNat ≤ 90 ∨
      97 ≤ c.toNat ∧ c.toNat ≤ 122 ∨ c = '_' := by
    rw [isWordChar_eq, Bool.or_eq_true, Bool.or_eq_true, Bool.or_eq_true, decide_eq_true_eq] at h
    rcases h with ((upper | lower) | digit) | underscore
    · exact .inr (.inl (toNat_of_isUpper upper))
    · exact .inr (.inr (.inl (toNat_of_isLower lower)))
    · exact .inl (Char.isDigit_iff_toNat.1 digit)
    · exact .inr (.inr (.inr underscore))
  rcases bounds with bounds | bounds | bounds | rfl
  case inr.inr.inr => decide
  all_goals
    constructor
    · rw [Bool.eq_false_iff]
      simp only [Text.isSpace, Text.spaceRanges, List.any_cons, List.any_nil, ne_eq,
        Bool.or_eq_true, Bool.and_eq_true, decide_eq_true_eq, Bool.false_eq_true, or_false]
      omega
    · rintro rfl
      revert bounds
      decide

theorem isSpace_of_isBlank {c : Char} (h : isBlank c = true) : Text.isSpace c = true := by
  simp only [isBlank, Bool.or_eq_true, decide_eq_true_eq] at h
  rcases h with (rfl | rfl) | rfl <;> decide

theorem not_isBlank_of_isWordChar {c : Char} (h : isWordChar c = true) : isBlank c = false := by
  rw [Bool.eq_false_iff]
  intro blank
  have unspaced := (not_isSpace_of_isWordChar h).1
  rw [isSpace_of_isBlank blank] at unspaced
  cases unspaced

theorem isWordChar_of_isBlank {c : Char} (blank : isBlank c = true) : isWordChar c = false := by
  rw [Bool.eq_false_iff]
  intro word
  rw [not_isBlank_of_isWordChar word] at blank
  cases blank

/-! ## How a text begins -/

theorem first_front (c : Char) (rest : List Char) : (front c rest).1.first = c :=
  (List.cons_eq_cons.1 (spelling_front c rest)).1

theorem exists_leads (c : Char) (rest : List Char) :
    ∃ piece behind, front c rest = (piece, behind) ∧ piece.Leads behind ∧
      c :: rest = piece.spelling ++ behind := by
  rcases taken : front c rest with ⟨piece, behind⟩
  have whole : piece.spelling ++ behind = c :: rest := by rw [← spelling_front c rest, taken]
  obtain ⟨rfl, rfl⟩ := List.cons_eq_cons.1 whole
  exact ⟨piece, behind, rfl, taken, rfl⟩

theorem split_of_leads {piece : Piece} {rest : List Char} (leads : piece.Leads rest) :
    split (piece.spelling ++ rest) = piece :: split rest := by
  show split (piece.first :: (piece.others ++ rest)) = _
  rw [split, leads]

theorem front_of_isBlank {c : Char} {rest : List Char} (h : isBlank c = true) :
    front c rest = (⟨.blank, c, rest.takeWhile isBlank⟩, rest.dropWhile isBlank) := by
  unfold front
  rw [if_pos h]
  rfl

theorem Leads.not_isBlank {piece : Piece} {rest : List Char} {token : Token}
    (leads : piece.Leads rest) (htoken : piece.shape = .token token) :
    ¬ isBlank piece.first = true := by
  intro blank
  unfold Leads at leads
  rw [front_of_isBlank blank, Prod.mk.injEq] at leads
  rw [← leads.1] at htoken
  cases htoken

theorem isBlank_of_front {c : Char} {rest : List Char} (h : (front c rest).1.shape = .blank) :
    isBlank c = true := by
  by_contra unblank
  unfold front at h
  rw [if_neg unblank] at h
  simp only [run, quoted, signed] at h
  repeat' split at h
  all_goals cases h

theorem front_of_isUpper {c : Char} (upper : c.isUpper = true) (rest : List Char) :
    front c rest =
      run Char.isDigit (fun digits => .token (.atom (.ofList (c :: digits)))) c rest := by
  have unblank := not_isBlank_of_isWordChar (isWordChar_of_isUpper upper)
  unfold front
  rw [unblank, if_neg Bool.false_ne_true, if_pos upper]

theorem front_of_isLower {c : Char} (lower : c.isLower = true) (rest : List Char) :
    front c rest =
      run continuesWord (fun letters => .token (.ofWord (.ofList (c :: letters)))) c rest := by
  have unblank := not_isBlank_of_isWordChar (isWordChar_of_isLower lower)
  unfold front
  rw [unblank, if_neg Bool.false_ne_true, not_isUpper_of_isLower lower,
    if_neg Bool.false_ne_true, if_pos lower]

theorem front_quote (rest : List Char) : front '"' rest = quoted '"' rest := rfl

/-- How a token can begin: with a letter, a quote or a sign. -/
theorem front_cases {c : Char} {rest : List Char} {token : Token}
    (h : (front c rest).1.shape = .token token) :
    c.isUpper = true ∨ c.isLower = true ∨ c = '"' ∨ ∀ others, front c others = signed c others := by
  by_cases blank : isBlank c = true
  · rw [front_of_isBlank blank] at h
    cases h
  by_cases upper : c.isUpper = true
  · exact .inl upper
  by_cases lower : c.isLower = true
  · exact .inr (.inl lower)
  by_cases quote : c = '"'
  · exact .inr (.inr (.inl quote))
  · refine .inr (.inr (.inr fun others => ?_))
    unfold front
    rw [if_neg blank, if_neg upper, if_neg lower, if_neg quote]

/-- A sign is one character or two, whatever stands behind it. -/
theorem signed_cases {c : Char} {rest : List Char} {token : Token}
    (h : (signed c rest).1.shape = .token token) :
    c ∈ signs ∧
      ((∃ d behind, rest = d :: behind ∧
        ∀ others, signed c (d :: others) = (⟨.token token, c, [d]⟩, others)) ∨
      ∀ others, signed c others = (⟨.token token, c, []⟩, others)) := by
  unfold signed at h
  split at h
  · cases h
    exact ⟨by decide, .inl ⟨'=', _, rfl, fun _ => rfl⟩⟩
  · cases h
    exact ⟨by decide, .inl ⟨'>', _, rfl, fun _ => rfl⟩⟩
  · split at h
    · cases h
    · next single =>
      split at h
      · next sign found =>
        cases h
        refine ⟨?_, .inr fun others => ?_⟩
        · unfold sign? at found
          split at found
          all_goals first | decide | cases found
        · unfold signed
          split
          · simp at single
          · simp at single
          · rw [if_neg single, found]
      · cases h

/-- A text token ends with the first quote behind the one that opens it. -/
theorem exists_content_of_token {quote : Char} {rest : List Char} {token : Token}
    (h : (quoted quote rest).1.shape = .token token) :
    ∃ content behind, '"' ∉ content ∧ rest = content ++ '"' :: behind := by
  have closes := List.head?_dropWhile_not (fun d => decide (d ≠ '"')) rest
  have whole := List.takeWhile_append_dropWhile (p := fun d => decide (d ≠ '"')) (l := rest)
  unfold quoted at h
  split at h
  · cases h
  · next closing behind found =>
    rw [found] at closes whole
    obtain rfl : closing = '"' := by simpa using closes
    exact ⟨_, behind, fun inside => by simpa using List.mem_takeWhile_imp inside, whole.symm⟩

theorem not_isSpace_of_front {c : Char} {rest : List Char} {token : Token}
    (h : (front c rest).1.shape = .token token) : Text.isSpace c = false ∧ c ≠ '/' := by
  rcases front_cases h with upper | lower | rfl | sign
  · exact not_isSpace_of_isWordChar (isWordChar_of_isUpper upper)
  · exact not_isSpace_of_isWordChar (isWordChar_of_isLower lower)
  · decide
  · have all : (signs.all fun d => !Text.isSpace d && d ≠ '/') = true := by decide
    rw [sign] at h
    simpa using List.all_eq_true.1 all c (signed_cases h).1

/-! ## What stands behind a token -/

section

variable {continues : Char → Bool} {taken rest : List Char}

theorem takeWhile_append_of_ends (all : ∀ c ∈ taken, continues c = true)
    (ends : ∀ c ∈ rest.head?, continues c = false) :
    (taken ++ rest).takeWhile continues = taken := by
  rw [List.takeWhile_append_of_pos all]
  cases rest with
  | nil => exact List.append_nil taken
  | cons c rest =>
    have stops : ¬ continues c = true := by
      rw [ends c rfl]
      exact Bool.false_ne_true
    rw [List.takeWhile_cons_of_neg stops, List.append_nil]

theorem dropWhile_append_of_ends (all : ∀ c ∈ taken, continues c = true)
    (ends : ∀ c ∈ rest.head?, continues c = false) :
    (taken ++ rest).dropWhile continues = rest := by
  have whole := List.takeWhile_append_dropWhile (p := continues) (l := taken ++ rest)
  rw [takeWhile_append_of_ends all ends] at whole
  exact List.append_cancel_left whole

theorem run_append {shape : List Char → Shape} {c : Char}
    (all : ∀ d ∈ taken, continues d = true) (ends : ∀ next ∈ rest.head?, continues next = false) :
    run continues shape c (taken ++ rest) = (⟨shape taken, c, taken⟩, rest) := by
  simp only [run, takeWhile_append_of_ends all ends, dropWhile_append_of_ends all ends]

theorem run_of_all {shape : List Char → Shape} {c : Char} (all : ∀ d ∈ taken, continues d = true) :
    run continues shape c taken = (⟨shape taken, c, taken⟩, []) := by
  have alone : run continues shape c (taken ++ []) = (⟨shape taken, c, taken⟩, []) :=
    run_append all (by rintro next ⟨⟩)
  rwa [List.append_nil] at alone

end

theorem ne_quote_of_notMem {content : List Char} (inside : '"' ∉ content) :
    ∀ c ∈ content, decide (c ≠ '"') = true := by
  intro c hc
  rw [decide_eq_true_eq]
  rintro rfl
  exact inside hc

theorem takeWhile_of_notMem {content rest : List Char} (inside : '"' ∉ content) :
    (content ++ '"' :: rest).takeWhile (· ≠ '"') = content :=
  takeWhile_append_of_ends (ne_quote_of_notMem inside) (by rintro c ⟨⟩; rfl)

theorem quoted_of_notMem {quote : Char} {content rest : List Char} (inside : '"' ∉ content) :
    quoted quote (content ++ '"' :: rest) =
      (⟨.token (.text (.ofList content)), quote, content ++ ['"']⟩, rest) := by
  have behind : (content ++ '"' :: rest).dropWhile (· ≠ '"') = '"' :: rest :=
    dropWhile_append_of_ends (ne_quote_of_notMem inside) (by rintro c ⟨⟩; rfl)
  unfold quoted
  rw [takeWhile_of_notMem inside, behind]

theorem signed_append {c : Char} {others : List Char} {token : Token} (rest : List Char)
    (whole : signed c others = (⟨.token token, c, others⟩, [])) :
    signed c (others ++ rest) = (⟨.token token, c, others⟩, rest) := by
  have found : (signed c others).1.shape = .token token := by rw [whole]
  rcases (signed_cases found).2 with ⟨d, behind, rfl, double⟩ | single
  · rw [double] at whole
    cases whole
    exact double rest
  · rw [single] at whole
    cases whole
    exact single rest

theorem run_word_append {continues : Char → Bool} {shapeOf : List Char → Shape} {shape : Shape}
    {c : Char} {others rest : List Char}
    (whole : run continues shapeOf c others = (⟨shape, c, others⟩, []))
    (first : isWordChar c = true) (inWord : ∀ d, continues d = true → isWordChar d = true)
    (ends : (⟨shape, c, others⟩ : Piece).isWord = true → ∀ d ∈ rest.head?, isWordChar d = false) :
    run continues shapeOf c (others ++ rest) = (⟨shape, c, others⟩, rest) := by
  have left : (run continues shapeOf c others).2 = [] := by rw [whole]
  have all : ∀ d ∈ others, continues d = true := List.dropWhile_eq_nil_iff.1 left
  have word : (⟨shape, c, others⟩ : Piece).isWord = true := by
    rw [isWord_mk, first, List.all_eq_true.2 fun d hd => inWord d (all d hd)]
    rfl
  have stops : ∀ d ∈ rest.head?, continues d = false := by
    intro d hd
    rw [Bool.eq_false_iff]
    intro goesOn
    have := inWord d goesOn
    rw [ends word d hd] at this
    cases this
  rw [run_of_all all] at whole
  rw [run_append all stops, (Prod.mk.inj whole).1]

/-- A token is taken off the front of a text whole, unless it is a word and the text goes on with
it. -/
theorem Whole.leads {piece : Piece} {token : Token} {rest : List Char} (whole : piece.Whole)
    (htoken : piece.shape = .token token)
    (ends : piece.isWord = true → ∀ c ∈ rest.head?, isWordChar c = false) :
    piece.Leads rest := by
  rcases piece with ⟨shape, c, others⟩
  obtain rfl : shape = .token token := htoken
  have whole : front c others = (⟨.token token, c, others⟩, []) := whole
  show front c (others ++ rest) = _
  have found : (front c others).1.shape = .token token := by rw [whole]
  rcases front_cases found with upper | lower | rfl | sign
  · rw [front_of_isUpper upper] at whole ⊢
    exact run_word_append whole (isWordChar_of_isUpper upper) (fun _ => isWordChar_of_isDigit) ends
  · rw [front_of_isLower lower] at whole ⊢
    exact run_word_append whole (isWordChar_of_isLower lower)
      (fun _ => isWordChar_of_continuesWord) ends
  · rw [front_quote] at whole found ⊢
    obtain ⟨content, behind, inside, rfl⟩ := exists_content_of_token found
    rw [quoted_of_notMem inside] at whole
    obtain ⟨hpiece, rfl⟩ := Prod.mk.inj whole
    rw [← hpiece, List.append_assoc]
    exact quoted_of_notMem inside
  · rw [sign] at whole ⊢
    exact signed_append rest whole

/-! ## What a token is by itself -/

theorem isWordChar_of_signed {c : Char} {rest : List Char} {token : Token}
    (h : (signed c rest).1.shape = .token token) : isWordChar c = false := by
  have all : (signs.all fun d => !isWordChar d) = true := by decide
  simpa using List.all_eq_true.1 all c (signed_cases h).1

/-- A token that was taken off the front of a text is all that its own characters begin with. -/
theorem whole_of_front {c : Char} {rest : List Char} {token : Token}
    (h : (front c rest).1.shape = .token token) : (front c rest).1.Whole := by
  rcases front_cases h with upper | lower | rfl | sign
  · rw [front_of_isUpper upper]
    show front c (rest.takeWhile Char.isDigit) = _
    rw [front_of_isUpper upper]
    exact run_of_all fun d mem => List.mem_takeWhile_imp mem
  · rw [front_of_isLower lower]
    show front c (rest.takeWhile continuesWord) = _
    rw [front_of_isLower lower]
    exact run_of_all fun d mem => List.mem_takeWhile_imp mem
  · rw [front_quote] at h ⊢
    obtain ⟨content, behind, inside, rfl⟩ := exists_content_of_token h
    rw [quoted_of_notMem inside]
    exact quoted_of_notMem inside
  · rw [sign] at h ⊢
    rcases (signed_cases h).2 with ⟨d, behind, rfl, double⟩ | single
    · rw [double]
      show front c [d] = _
      rw [sign, double]
    · rw [single]
      show front c [] = _
      rw [sign, single]

/-- A token that begins as a word is one. -/
theorem isWord_of_front {c : Char} {rest : List Char} {token : Token}
    (h : (front c rest).1.shape = .token token) (first : isWordChar c = true) :
    (front c rest).1.isWord = true := by
  rcases front_cases h with upper | lower | rfl | sign
  · rw [front_of_isUpper upper, run, isWord_mk, first, List.all_eq_true.2]
    · rfl
    · exact fun d mem => isWordChar_of_isDigit (List.mem_takeWhile_imp mem)
  · rw [front_of_isLower lower, run, isWord_mk, first, List.all_eq_true.2]
    · rfl
    · exact fun d mem => isWordChar_of_continuesWord (List.mem_takeWhile_imp mem)
  · cases first
  · rw [sign] at h
    rw [isWordChar_of_signed h] at first
    cases first

theorem Leads.whole {piece : Piece} {rest : List Char} {token : Token}
    (leads : piece.Leads rest) (htoken : piece.shape = .token token) : piece.Whole := by
  have taken : (front piece.first (piece.others ++ rest)).1 = piece := by rw [leads]
  rw [← taken] at htoken
  rw [← taken]
  exact whole_of_front htoken

/-! ## Texts that hold a lexeme -/

/-- Behind white space, a text that holds a lexeme goes on with the first character of one. -/
theorem trimLeft_of_lexemes {line : String} {text : List Char} {position : Nat} {touching : Bool}
    {lexeme : Lexeme} {others : List Lexeme}
    (h : lexemes line position touching (split text) = .ok (lexeme :: others)) :
    ∃ c rest, Text.trimLeft text = c :: rest ∧ c ≠ '/' := by
  -- only blanks can stand in front of the first lexeme, and they are trimmed away
  fun_induction split text generalizing position touching with
  | case1 => cases h
  | case2 c rest ih =>
    unfold lexemes at h
    split at h
    · next hblank =>
      have blank := isBlank_of_front hblank
      rw [front_of_isBlank blank] at ih h
      obtain ⟨first, behind, trimmed, notSlash⟩ := ih h
      refine ⟨first, behind, ?_, notSlash⟩
      have skipped : ∀ d ∈ rest.takeWhile isBlank, Text.isSpace d = true := fun d hd =>
        isSpace_of_isBlank (List.mem_takeWhile_imp hd)
      unfold Text.trimLeft at trimmed ⊢
      rw [List.dropWhile_cons_of_pos (isSpace_of_isBlank blank),
        ← List.takeWhile_append_dropWhile (p := isBlank) (l := rest),
        List.dropWhile_append_of_pos skipped, trimmed]
    · next token htoken =>
      obtain ⟨unspaced, notSlash⟩ := not_isSpace_of_front htoken
      refine ⟨c, rest, ?_, notSlash⟩
      unfold Text.trimLeft
      rw [List.dropWhile_cons_of_neg (by rw [unspaced]; exact Bool.false_ne_true)]
    · next hincomplete => split at h <;> cases h
    · cases h
    · cases h

end Piece

/-- A text that holds a lexeme is not blank and no comment. -/
theorem Line.isRemark_eq_false_of_scan {text : String} {lexeme : Lexeme} {others : List Lexeme}
    (h : Lexeme.scan text = .ok (lexeme :: others)) : Line.isRemark text = false := by
  obtain ⟨c, rest, trimmed, notSlash⟩ := Piece.trimLeft_of_lexemes h
  unfold Line.isRemark
  rw [trimmed]
  split
  · next none => cases none
  · next comment =>
    cases comment
    exact absurd rfl notSlash
  · rfl

end Entailment
