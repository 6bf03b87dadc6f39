import Entailment.Proofs.Token.Lexable

/-!
# Scanned lines

What can be said of the lexemes of any text, and of the failure when there are none.

* `Piece.lexemes_whole`: a token in front of a text is the first lexeme.
* `Lexeme.scan_error`: scanning fails at a character.
* `Lexeme.stands_of_scan`: a lexeme stands in the text where its position says.
* `Lexeme.lexable_of_scan`: the token of a lexeme is one that its written form spells.
-/

namespace Entailment

namespace Piece

variable {line : String} {position : Nat} {touching : Bool} {pieces : List Piece}

/-- What the first piece says about the lexemes, or about the failure. -/
theorem lexemes_cons (piece : Piece) (rest : List Piece) :
    lexemes line position touching (piece :: rest) =
      match piece.shape with
      | .blank => lexemes line (position + piece.spelling.length) false rest
      | .token token =>
        if touching && piece.isWord then .error (.character piece.first position line)
        else do
          let others ← lexemes line (position + piece.spelling.length) piece.isWord rest
          return ⟨token, .ofList piece.spelling, position⟩ :: others
      | .incomplete =>
        match rest with
        | [] => .error (.character piece.first position line)
        | next :: _ => .error (.character next.first (position + 1) line)
      | .unterminated => .error (.character piece.last (position + piece.others.length) line)
      | .unknown => .error (.character piece.first position line) := rfl

/-- A blank is skipped. -/
theorem lexemes_blank {text : List Char} {c : Char} (blank : isBlank c = true) :
    lexemes line position touching (split (c :: text)) =
      lexemes line (position + 1) false (split text) := by
  rw [split, front_of_isBlank blank, lexemes_cons]
  dsimp only
  cases text with
  | nil => rfl
  | cons d others =>
    by_cases next : isBlank d = true
    · rw [split, front_of_isBlank next, lexemes_cons, List.takeWhile_cons_of_pos next,
        List.dropWhile_cons_of_pos next]
      congr 1
      simp only [spelling, List.length_cons]
      omega
    · rw [List.takeWhile_cons_of_neg next, List.dropWhile_cons_of_neg next]
      rfl

/-- A piece that is a token of its own is the first lexeme, unless it goes on with a word that ends
right in front of it. -/
theorem lexemes_whole {piece : Piece} {token : Token} {text : List Char} (whole : piece.Whole)
    (htoken : piece.shape = .token token)
    (ends : piece.isWord = true → ∀ c ∈ text.head?, isWordChar c = false)
    (apart : touching = true → isWordChar piece.first = false) :
    lexemes line position touching (split (piece.spelling ++ text)) =
      (⟨token, .ofList piece.spelling, position⟩ :: ·) <$>
        lexemes line (position + piece.spelling.length) piece.isWord (split text) := by
  have separate : (touching && piece.isWord) = false := by
    rw [Bool.eq_false_iff]
    intro both
    obtain ⟨htouching, hword⟩ := Bool.and_eq_true_iff.1 both
    have first : isWordChar piece.first = true := (Bool.and_eq_true_iff.1 hword).1
    rw [apart htouching] at first
    cases first
  rw [split_of_leads (whole.leads htoken ends), lexemes_cons, htoken]
  dsimp only
  rw [separate, if_neg Bool.false_ne_true]
  cases lexemes line (position + piece.spelling.length) piece.isWord (split text) <;> rfl

/-- If there are lexemes, the first piece is blank, or it is a token and the first of them. -/
theorem exists_lexemes_of_cons {piece : Piece} {rest : List Piece} {found : List Lexeme}
    (h : lexemes line position touching (piece :: rest) = .ok found) :
    (piece.shape = .blank ∧
      lexemes line (position + piece.spelling.length) false rest = .ok found) ∨
    ∃ token others, piece.shape = .token token ∧
      lexemes line (position + piece.spelling.length) piece.isWord rest = .ok others ∧
      found = ⟨token, .ofList piece.spelling, position⟩ :: others := by
  rw [lexemes_cons] at h
  split at h
  · next blank => exact .inl ⟨blank, h⟩
  · next token htoken =>
    split at h
    · cases h
    · obtain ⟨others, scanned, ⟨⟩⟩ := bind_eq_ok_iff.1 h
      exact .inr ⟨token, others, htoken, scanned, rfl⟩
  · split at h <;> cases h
  · cases h
  · cases h

theorem lexemes_error {failure : Failure}
    (h : lexemes line position touching pieces = .error failure) :
    ∃ c place, failure = .character c place line := by
  induction pieces generalizing position touching with
  | nil => cases h
  | cons piece rest ih =>
    rw [lexemes_cons] at h
    split at h
    · exact ih h
    · split at h
      · cases h
        exact ⟨_, _, rfl⟩
      · cases scanned : lexemes line (position + piece.spelling.length) piece.isWord rest with
        | error first =>
          rw [scanned] at h
          cases h
          exact ih scanned
        | ok others =>
          rw [scanned] at h
          cases h
    · split at h <;> cases h <;> exact ⟨_, _, rfl⟩
    · cases h
      exact ⟨_, _, rfl⟩
    · cases h
      exact ⟨_, _, rfl⟩

/-- Each lexeme stands where its position says, counted from where the pieces begin. -/
theorem stands_of_lexemes {found : List Lexeme}
    (h : lexemes line position touching pieces = .ok found) {lexeme : Lexeme}
    (mem : lexeme ∈ found) :
    ∃ before behind, pieces.flatMap spelling = before ++ lexeme.spelling.toList ++ behind ∧
      lexeme.position = position + before.length := by
  induction pieces generalizing position touching found with
  | nil =>
    cases h
    cases mem
  | cons piece rest ih =>
    -- a lexeme of the pieces behind the first has the spelling of the first in front of it as well
    have further {found : List Lexeme} {touching : Bool}
        (h : lexemes line (position + piece.spelling.length) touching rest = .ok found)
        (mem : lexeme ∈ found) :
        ∃ before behind, (piece :: rest).flatMap spelling =
            before ++ lexeme.spelling.toList ++ behind ∧
          lexeme.position = position + before.length := by
      obtain ⟨before, behind, spelled, placed⟩ := ih h mem
      refine ⟨piece.spelling ++ before, behind, ?_, ?_⟩
      · rw [List.flatMap_cons, spelled, List.append_assoc, List.append_assoc, List.append_assoc]
      · rw [placed, List.length_append, Nat.add_assoc]
    rcases exists_lexemes_of_cons h with ⟨-, scanned⟩ | ⟨token, others, -, scanned, rfl⟩
    · exact further scanned mem
    · rcases List.mem_cons.1 mem with rfl | mem
      · refine ⟨[], rest.flatMap spelling, ?_, rfl⟩
        rw [List.flatMap_cons, String.toList_ofList, List.nil_append]
      · exact further scanned mem

theorem spelling_ne_of_lexemes {found : List Lexeme}
    (h : lexemes line position touching pieces = .ok found) {lexeme : Lexeme}
    (mem : lexeme ∈ found) : lexeme.spelling ≠ "" := by
  induction pieces generalizing position touching found with
  | nil =>
    cases h
    cases mem
  | cons piece rest ih =>
    rcases exists_lexemes_of_cons h with ⟨-, scanned⟩ | ⟨token, others, -, scanned, rfl⟩
    · exact ih scanned mem
    · rcases List.mem_cons.1 mem with rfl | mem
      · intro none
        cases String.ofList_injective none
      · exact ih scanned mem

/-! ## The tokens that are found -/

theorem lexable_of_keyword? {word : String} {token : Token}
    (h : Token.keyword? word = some token) : token.lexable = true := by
  have all : ∀ entry ∈ Token.keywords, entry.2.lexable = true := by decide
  obtain ⟨before, behind, listed, -⟩ := List.lookup_eq_some_iff.1 h
  apply all (word, token)
  rw [listed]
  exact List.mem_append_right _ List.mem_cons_self

theorem lexable_ofWord {c : Char} {letters : List Char} (lower : c.isLower = true)
    (all : ∀ d ∈ letters, continuesWord d = true) :
    (Token.ofWord (.ofList (c :: letters))).lexable = true := by
  unfold Token.ofWord
  cases h : Token.keyword? (.ofList (c :: letters)) with
  | some token => exact lexable_of_keyword? h
  | none =>
    show Token.isIdentifier _ = true
    unfold Token.isIdentifier
    rw [String.toList_ofList]
    dsimp only
    rw [lower, List.all_eq_true.2 all, h]
    rfl

theorem lexable_of_quoted {quote : Char} {rest : List Char} {token : Token}
    (h : (quoted quote rest).1.shape = .token token) : token.lexable = true := by
  obtain ⟨content, behind, inside, rfl⟩ := exists_content_of_token h
  rw [quoted_of_notMem inside] at h
  cases h
  simpa [Token.lexable] using inside

theorem lexable_of_signed {c : Char} {rest : List Char} {token : Token}
    (h : (signed c rest).1.shape = .token token) : token.lexable = true := by
  unfold signed at h
  split at h
  · cases h
    rfl
  · cases h
    rfl
  · split at h
    · cases h
    · split at h
      · next sign found =>
        cases h
        unfold sign? at found
        split at found <;> cases found <;> rfl
      · cases h

/-- A token at the front of a text is one that its written form spells. -/
theorem lexable_of_front {c : Char} {rest : List Char} {token : Token}
    (h : (front c rest).1.shape = .token token) : token.lexable = true := by
  rcases front_cases h with upper | lower | rfl | sign
  · rw [front_of_isUpper upper] at h
    cases h
    show Token.isAtomName _ = true
    unfold Token.isAtomName
    rw [String.toList_ofList]
    dsimp only
    rw [upper, List.all_eq_true.2 fun d mem => List.mem_takeWhile_imp mem]
    rfl
  · rw [front_of_isLower lower] at h
    cases h
    exact lexable_ofWord lower fun d mem => List.mem_takeWhile_imp mem
  · rw [front_quote] at h
    exact lexable_of_quoted h
  · rw [sign] at h
    exact lexable_of_signed h

theorem lexable_of_lexemes {text : List Char} {found : List Lexeme}
    (h : lexemes line position touching (split text) = .ok found) {lexeme : Lexeme}
    (mem : lexeme ∈ found) : lexeme.token.lexable = true := by
  fun_induction split text generalizing position touching found with
  | case1 =>
    cases h
    cases mem
  | case2 c rest ih =>
    rcases exists_lexemes_of_cons h with ⟨-, scanned⟩ | ⟨token, others, htoken, scanned, rfl⟩
    · exact ih scanned mem
    · rcases List.mem_cons.1 mem with rfl | mem
      · exact lexable_of_front htoken
      · exact ih scanned mem

/-! ## Blank texts -/

/-- A text without lexemes is blank. -/
theorem trimLeft_of_no_lexemes {text : List Char}
    (h : lexemes line position touching (split text) = .ok []) : Text.trimLeft text = [] := by
  have blank : ∀ c ∈ text, isBlank c = true := by
    fun_induction split text generalizing position touching with
    | case1 =>
      intro c mem
      cases mem
    | case2 c rest ih =>
      rcases exists_lexemes_of_cons h with ⟨hblank, h⟩ | ⟨token, others, -, -, none⟩
      · have first := isBlank_of_front hblank
        intro d mem
        rw [front_of_isBlank first] at ih h
        rw [← List.takeWhile_append_dropWhile (p := isBlank) (l := rest)] at mem
        rcases List.mem_cons.1 mem with rfl | mem
        · exact first
        · rcases List.mem_append.1 mem with mem | mem
          · exact List.mem_takeWhile_imp mem
          · exact ih h d mem
      · cases none
  unfold Text.trimLeft
  exact List.dropWhile_eq_nil_iff.2 fun c mem => isSpace_of_isBlank (blank c mem)

end Piece

namespace Lexeme

variable {text : String} {lexemes : List Lexeme}

theorem scan_error {failure : Failure} (h : scan text = .error failure) :
    ∃ c position, failure = .character c position text :=
  Piece.lexemes_error h

/-- The position of a lexeme is the number of characters in front of it. -/
theorem stands_of_scan (h : scan text = .ok lexemes) {lexeme : Lexeme} (mem : lexeme ∈ lexemes) :
    ∃ before behind, text.toList = before ++ lexeme.spelling.toList ++ behind ∧
      lexeme.position = before.length := by
  obtain ⟨before, behind, spelled, placed⟩ := Piece.stands_of_lexemes h mem
  rw [Piece.spelling_split] at spelled
  rw [Nat.zero_add] at placed
  exact ⟨before, behind, spelled, placed⟩

/-- No lexeme is empty. -/
theorem spelling_ne_of_scan (h : scan text = .ok lexemes) {lexeme : Lexeme}
    (mem : lexeme ∈ lexemes) : lexeme.spelling ≠ "" :=
  Piece.spelling_ne_of_lexemes h mem

/-- A token that was found in a text is one that its written form spells. -/
theorem lexable_of_scan (h : scan text = .ok lexemes) {lexeme : Lexeme} (mem : lexeme ∈ lexemes) :
    lexeme.token.lexable = true :=
  Piece.lexable_of_lexemes h mem

end Lexeme

end Entailment
