import Entailment.Proofs.Line.Verdict

/-!
# Bad characters

A text is refused for the first of its characters that has no place.  Where the piece at the front
of a text ends is decided by its characters and the one behind them, so what is reported depends on
the text up to the reported character only.  The last character of a text is the exception: it can
be one behind which something is missing.

* `Piece.Leads.of_next`: one character behind a piece decides it.
* `Piece.exists_fault`: which character scanning fails at, and that it does so whatever follows.
* `Line.ofText_decided_at_character`: the same of a line.
-/

namespace Entailment

namespace Piece

variable {c d : Char} {rest : List Char} {piece : Piece}

/-! ## How far a piece looks ahead -/

/-- A run that stops in front of a character stops there whatever follows it. -/
theorem run_of_next {continues : Char → Bool} {shape : List Char → Shape}
    (taken : run continues shape c (piece.others ++ d :: rest) = (piece, d :: rest))
    (behind : List Char) :
    run continues shape c (piece.others ++ d :: behind) = (piece, d :: behind) := by
  obtain ⟨same, left⟩ := Prod.mk.inj taken
  have others : (piece.others ++ d :: rest).takeWhile continues = piece.others :=
    congrArg Piece.others same
  have all : ∀ e ∈ piece.others, continues e = true := by
    rw [← others]
    exact fun e mem => List.mem_takeWhile_imp mem
  have stops : continues d = false := by
    have head := List.head?_dropWhile_not continues (piece.others ++ d :: rest)
    rw [left] at head
    simpa using head
  rw [run_append all fun e mem => by cases mem; exact stops] at taken ⊢
  rw [(Prod.mk.inj taken).1]

/-- A text that is over is over whatever follows. -/
theorem quoted_of_next
    (taken : quoted c (piece.others ++ d :: rest) = (piece, d :: rest)) (behind : List Char) :
    quoted c (piece.others ++ d :: behind) = (piece, d :: behind) := by
  -- an unterminated text would leave nothing
  have closed : ∃ token, (quoted c (piece.others ++ d :: rest)).1.shape = .token token := by
    unfold quoted at taken ⊢
    split at taken
    · cases (Prod.mk.inj taken).2
    · exact ⟨_, rfl⟩
  obtain ⟨token, htoken⟩ := closed
  obtain ⟨content, others, inside, spelled⟩ := exists_content_of_token htoken
  rw [spelled, quoted_of_notMem inside] at taken
  obtain ⟨rfl, rfl⟩ := Prod.mk.inj taken
  rw [List.append_assoc]
  exact quoted_of_notMem inside

/-- A sign takes the next character with it, or it does not, whatever follows. -/
theorem signed_cons (c d : Char) :
    (∃ shape, ∀ rest, signed c (d :: rest) = (⟨shape, c, [d]⟩, rest)) ∨
      ∃ shape, ∀ rest, signed c (d :: rest) = (⟨shape, c, []⟩, d :: rest) := by
  by_cases assign : c = ':' ∧ d = '='
  · obtain ⟨rfl, rfl⟩ := assign
    exact .inl ⟨_, fun _ => rfl⟩
  by_cases arrow : c = '-' ∧ d = '>'
  · obtain ⟨rfl, rfl⟩ := arrow
    exact .inl ⟨_, fun _ => rfl⟩
  right
  have assigns (rest others : List Char) (hc : c = ':') (hd : d :: rest = '=' :: others) : False :=
    assign ⟨hc, (List.cons_eq_cons.1 hd).1⟩
  have arrows (rest others : List Char) (hc : c = '-') (hd : d :: rest = '>' :: others) : False :=
    arrow ⟨hc, (List.cons_eq_cons.1 hd).1⟩
  by_cases half : (c = ':' || c = '-') = true
  · refine ⟨.incomplete, fun rest => ?_⟩
    rw [signed.eq_3 c (d :: rest) (assigns rest) (arrows rest), if_pos half]
  · cases found : sign? c with
    | none =>
      refine ⟨.unknown, fun rest => ?_⟩
      rw [signed.eq_3 c (d :: rest) (assigns rest) (arrows rest), if_neg half, found]
    | some token =>
      refine ⟨.token token, fun rest => ?_⟩
      rw [signed.eq_3 c (d :: rest) (assigns rest) (arrows rest), if_neg half, found]

theorem signed_of_next
    (taken : signed c (piece.others ++ d :: rest) = (piece, d :: rest)) (behind : List Char) :
    signed c (piece.others ++ d :: behind) = (piece, d :: behind) := by
  rcases piece with ⟨shape, first, _ | ⟨next, others⟩⟩
  · rcases signed_cons c d with ⟨shape, double⟩ | ⟨shape, single⟩
    · have left := congrArg Prod.snd ((double rest).symm.trans taken)
      simp at left
    · cases (single rest).symm.trans taken
      exact single behind
  · rcases signed_cons c next with ⟨shape, double⟩ | ⟨shape, single⟩
    · cases (double (others ++ d :: rest)).symm.trans taken
      exact double (d :: behind)
    · cases (single (others ++ d :: rest)).symm.trans taken

/-- What stands behind the next character has no part in where a piece ends. -/
theorem Leads.of_next (leads : piece.Leads (d :: rest)) (behind : List Char) :
    piece.Leads (d :: behind) := by
  unfold Leads front at leads ⊢
  -- blanks, an atom, a lower-case word, a text, a sign
  split_ifs at leads ⊢
  · exact run_of_next leads behind
  · exact run_of_next leads behind
  · exact run_of_next leads behind
  · exact quoted_of_next leads behind
  · exact signed_of_next leads behind

theorem Leads.of_fault {before : List Char} (leads : piece.Leads (before ++ d :: rest))
    (behind : List Char) : piece.Leads (before ++ d :: behind) := by
  cases before with
  | nil => exact leads.of_next behind
  | cons next others => exact leads.of_next (others ++ d :: behind)

/-! ## Pieces that are no tokens -/

/-- A piece that is unknown or incomplete is a sign, whatever follows. -/
theorem front_eq_signed (h : (front c rest).1.shape = .incomplete ∨ (front c rest).1.shape = .unknown)
    (others : List Char) : front c others = signed c others := by
  unfold front at h ⊢
  split_ifs at h ⊢
  · rcases h with h | h <;> cases h
  · rcases h with h | h <;> cases h
  · rcases h with h | h <;> cases h
  · unfold quoted at h
    split at h <;> rcases h with h | h <;> cases h
  · rfl

theorem front_of_unknown (h : (front c rest).1.shape = .unknown) (others : List Char) :
    front c others = (⟨.unknown, c, []⟩, others) := by
  have sign := front_eq_signed (.inr h)
  rw [sign] at h ⊢
  unfold signed at h
  split at h
  · cases h
  · cases h
  · split at h
    · cases h
    · next whole =>
      split at h
      · cases h
      · next none =>
        rw [signed.eq_def]
        split
        · simp at whole
        · simp at whole
        · rw [if_neg whole, none]

theorem front_of_incomplete (h : (front c rest).1.shape = .incomplete) :
    front c rest = (⟨.incomplete, c, []⟩, rest) := by
  have sign := front_eq_signed (.inl h)
  rw [sign] at h ⊢
  unfold signed at h ⊢
  split at h
  · cases h
  · cases h
  · split at h
    · next half => rw [if_pos half]
    · split at h <;> cases h

/-- A text without its closing quote goes on to the end. -/
theorem front_of_unterminated (h : (front c rest).1.shape = .unterminated) :
    (front c rest).2 = [] := by
  unfold front at h ⊢
  split_ifs at h ⊢
  · cases h
  · cases h
  · cases h
  · unfold quoted at h ⊢
    split at h
    · rfl
    · cases h
  · unfold signed at h
    repeat' split at h
    all_goals cases h

/-- The first character of a word makes it one, whatever follows. -/
theorem exists_word_of_front {token : Token} (htoken : (front c rest).1.shape = .token token)
    (word : (front c rest).1.isWord = true) (others : List Char) :
    ∃ token, (front c others).1.shape = .token token ∧ (front c others).1.isWord = true := by
  have first : isWordChar c = true := by
    rw [← first_front c rest]
    exact (Bool.and_eq_true_iff.1 word).1
  rcases front_cases htoken with upper | lower | rfl | sign
  · have shape := congrArg (fun taken => taken.1.shape) (front_of_isUpper upper others)
    exact ⟨_, shape, isWord_of_front shape first⟩
  · have shape := congrArg (fun taken => taken.1.shape) (front_of_isLower lower others)
    exact ⟨_, shape, isWord_of_front shape first⟩
  · cases first
  · rw [sign] at htoken
    rw [isWordChar_of_signed htoken] at first
    cases first

/-! ## What is reported -/

/-- With `before` in front of it, the character is reported whatever follows. -/
def Fault (position : Nat) (touching : Bool) (before : List Char) (c : Char) : Prop :=
  ∀ line behind, lexemes line position touching (split (before ++ c :: behind)) =
    .error (.character c (position + before.length) line)

/-- The failure is about a character of the text, and if this is not the last one, it is reported
whatever follows. -/
def FaultIn (line : String) (position : Nat) (touching : Bool) (text : List Char)
    (failure : Failure) : Prop :=
  ∃ before c behind, text = before ++ c :: behind ∧
    failure = .character c (position + before.length) line ∧
    (behind ≠ [] → Fault position touching before c)

section

variable {line : String} {position : Nat} {touching after : Bool} {failure : Failure}

theorem faultIn_of_fault (before : List Char) {behind : List Char}
    (fault : Fault position touching before c)
    (h : lexemes line position touching (split (before ++ c :: behind)) = .error failure) :
    FaultIn line position touching (before ++ c :: behind) failure := by
  rw [fault] at h
  cases h
  exact ⟨before, c, behind, rfl, rfl, fun _ => fault⟩

theorem fault_of_unknown (shape : (front c rest).1.shape = .unknown) :
    Fault position touching [] c := by
  intro line behind
  rw [List.nil_append, split, front_of_unknown shape, lexemes_cons]
  rfl

theorem fault_of_word {token : Token} (htoken : (front c rest).1.shape = .token token)
    (word : (front c rest).1.isWord = true) : Fault position true [] c := by
  intro line behind
  obtain ⟨token, htoken, word⟩ := exists_word_of_front htoken word behind
  rw [List.nil_append, split, lexemes_cons, htoken]
  dsimp only
  rw [word, Bool.and_true, if_pos rfl, first_front]
  rfl

theorem fault_of_incomplete (shape : (front c (d :: rest)).1.shape = .incomplete) :
    Fault position touching [c] d := by
  intro line behind
  have leads : Leads ⟨.incomplete, c, []⟩ (d :: rest) := front_of_incomplete shape
  have taken : front c (d :: behind) = (⟨.incomplete, c, []⟩, d :: behind) :=
    leads.of_next behind
  rw [List.singleton_append, split, taken, lexemes_cons, split]
  dsimp only
  rw [first_front]
  rfl

/-- The first half of a sign is reported itself if nothing follows it. -/
theorem faultIn_of_incomplete (shape : (front c rest).1.shape = .incomplete)
    (h : lexemes line position touching (split (c :: rest)) = .error failure) :
    FaultIn line position touching (c :: rest) failure := by
  cases rest with
  | nil =>
    rw [split, front_of_incomplete shape, lexemes_cons, split] at h
    cases h
    exact ⟨[], c, [], rfl, rfl, absurd rfl⟩
  | cons d others => exact faultIn_of_fault [c] (fault_of_incomplete shape) h

/-- What is reported of a text without its closing quote is the last character there is. -/
theorem faultIn_of_unterminated (shape : (front c rest).1.shape = .unterminated)
    (h : lexemes line position touching (split (c :: rest)) = .error failure) :
    FaultIn line position touching (c :: rest) failure := by
  obtain ⟨piece, left, taken, -, spelled⟩ := exists_leads c rest
  have finished := front_of_unterminated shape
  rw [split, lexemes_cons, shape] at h
  rw [taken] at h finished
  cases h
  obtain rfl : left = [] := finished
  refine ⟨piece.spelling.dropLast, piece.last, [], ?_, ?_, absurd rfl⟩
  · rw [spelled, List.append_nil]
    exact (List.dropLast_append_getLast (List.cons_ne_nil _ _)).symm
  · rw [List.length_dropLast]
    rfl

theorem lexemes_of_blank (leads : piece.Leads rest) (hblank : piece.shape = .blank) :
    lexemes line position touching (split (piece.spelling ++ rest)) =
      lexemes line (position + piece.spelling.length) false (split rest) := by
  rw [split_of_leads leads, lexemes_cons, hblank]

theorem lexemes_eq_error_iff_of_token {token : Token} (leads : piece.Leads rest)
    (htoken : piece.shape = .token token) (separate : ¬ (touching && piece.isWord) = true) :
    lexemes line position touching (split (piece.spelling ++ rest)) = .error failure ↔
      lexemes line (position + piece.spelling.length) piece.isWord (split rest) =
        .error failure := by
  rw [split_of_leads leads, lexemes_cons, htoken]
  dsimp only
  rw [if_neg separate]
  cases lexemes line (position + piece.spelling.length) piece.isWord (split rest) <;>
    simp [bind, Except.bind, pure, Except.pure]

/-- A fault behind a piece is one of the text that the piece begins, if scanning gets behind it. -/
theorem FaultIn.behind (h : FaultIn line (position + piece.spelling.length) after rest failure)
    (leads : piece.Leads rest)
    (goesOn : ∀ line failure text, piece.Leads text →
      lexemes line (position + piece.spelling.length) after (split text) = .error failure →
      lexemes line position touching (split (piece.spelling ++ text)) = .error failure) :
    FaultIn line position touching (piece.spelling ++ rest) failure := by
  obtain ⟨before, c, behind, rfl, rfl, fault⟩ := h
  rw [Nat.add_assoc, ← List.length_append]
  refine ⟨piece.spelling ++ before, c, behind, (List.append_assoc ..).symm, rfl, ?_⟩
  intro present line others
  rw [List.append_assoc, List.length_append, ← Nat.add_assoc]
  exact goesOn _ _ _ (leads.of_fault others) (fault present line others)

/-- Scanning a text fails at one of its characters.  If this is not the last one, it is reported
whatever follows. -/
theorem exists_fault {text : List Char}
    (h : lexemes line position touching (split text) = .error failure) :
    FaultIn line position touching text failure := by
  induction text using split.induct generalizing position touching with
  | case1 =>
    rw [split] at h
    cases h
  | case2 c rest ih =>
    obtain ⟨piece, left, taken, leads, spelled⟩ := exists_leads c rest
    rw [taken] at ih
    cases shape : (front c rest).1.shape with
    | unknown => exact faultIn_of_fault [] (fault_of_unknown shape) h
    | incomplete => exact faultIn_of_incomplete shape h
    | unterminated => exact faultIn_of_unterminated shape h
    | blank =>
      rw [taken] at shape
      rw [spelled] at h ⊢
      rw [lexemes_of_blank leads shape] at h
      exact (ih h).behind leads fun _ _ _ leads => (lexemes_of_blank leads shape).trans
    | token token =>
      by_cases touches : (touching && (front c rest).1.isWord) = true
      · obtain ⟨rfl, word⟩ := Bool.and_eq_true_iff.1 touches
        exact faultIn_of_fault [] (fault_of_word shape word) h
      · rw [taken] at shape touches
        rw [spelled] at h ⊢
        rw [lexemes_eq_error_iff_of_token leads shape touches] at h
        exact (ih h).behind leads fun _ _ _ leads =>
          (lexemes_eq_error_iff_of_token leads shape touches).2

end

end Piece

namespace Line

theorem exists_fault_of_ofText {text reported : String} {c : Char} {position : Nat}
    (read : ofText text = .error (.character c position reported)) :
    reported = text ∧ ∃ before behind, text.toList = before ++ c :: behind ∧
      position = before.length ∧ (behind ≠ [] → Piece.Fault 0 false before c) := by
  have refused := (ofText_eq_character_iff (not_remark_of_error read)).1 read
  obtain ⟨before, _, behind, spelled, ⟨⟩, fault⟩ := Piece.exists_fault refused
  exact ⟨rfl, before, behind, spelled, Nat.zero_add _, fault⟩

/-- A text that is refused for a character has this character where the failure says, and unless it
is the last one, every text that agrees with it up to there and is no remark is refused so. -/
theorem ofText_decided_at_character {text reported : String} {c : Char} {position : Nat}
    (read : ofText text = .error (.character c position reported)) :
    position < text.length ∧ text.toList[position]? = some c ∧ reported = text ∧
    (position + 1 ≠ text.length → ∀ other, ¬ Remark other →
      other.toList.take (position + 1) = text.toList.take (position + 1) →
      ofText other = .error (.character c position other)) := by
  obtain ⟨rfl, before, behind, spelled, rfl, fault⟩ := exists_fault_of_ofText read
  have length : reported.length = before.length + 1 + behind.length := by
    rw [← String.length_toList, spelled, List.length_append, List.length_cons]
    omega
  refine ⟨by omega, ?_, rfl, ?_⟩
  · rw [spelled, List.getElem?_append_right (Nat.le_refl _), Nat.sub_self]
    rfl
  · intro goesOn other content agrees
    have present : behind ≠ [] := by
      rintro rfl
      exact goesOn length.symm
    have taken : reported.toList.take (before.length + 1) = before ++ [c] := by
      rw [spelled, List.take_length_add_append]
      rfl
    have whole : other.toList = before ++ c :: other.toList.drop (before.length + 1) := by
      rw [← List.take_append_drop (before.length + 1) other.toList, agrees, taken]
      simp
    rw [ofText_eq_character_iff content, Lexeme.scan, whole, fault present, Nat.zero_add]

/-- A word directly behind another one is reported where it begins, and a text that goes on with an
open quote there is refused for it as well. -/
theorem ofText_decided_at_character_word :
    let text := "P ∧ Q1a := R"
    let other := "P ∧ Q1a \"é"
    ofText text = .error (.character 'a' 6 text) ∧
    (6 < text.length ∧ text.toList[6]? = some 'a') ∧
    (6 + 1 ≠ text.length ∧ ¬ Remark other ∧
      other.toList.take (6 + 1) = text.toList.take (6 + 1)) ∧
    ofText other = .error (.character 'a' 6 other) := by
  intro text other
  have read : ofText text = .error (.character 'a' 6 text) := by decide +kernel
  have goesOn : 6 + 1 ≠ text.length := by decide
  have content : ¬ Remark other := by
    rw [← isRemark_eq_true_iff]
    decide +kernel
  have agrees : other.toList.take (6 + 1) = text.toList.take (6 + 1) := by decide +kernel
  obtain ⟨inside, found, -, decided⟩ := ofText_decided_at_character read
  exact ⟨read, ⟨inside, found⟩, ⟨goesOn, content, agrees⟩, decided goesOn other content agrees⟩

end Line

end Entailment
