import Entailment.Proofs.Line.Scanned

/-!
# Where lexemes stand

A text is scanned into lexemes just if it is made of these and of blanks, with something between two
words.  Such a text can be cut behind any of its lexemes, and it can go on behind a blank, without
changing the lexemes in front.

* `Lexeme.scan_eq_ok_iff`: which texts are scanned into which lexemes.
* `Tiled.exists_cut`: the part of a text that ends with a lexeme.
* `Lexeme.scan_append`: how a text is scanned that goes on behind a blank.
-/

namespace Entailment

/-! ## Lexemes in a text -/

/-- How lexemes stand in a text whose first character has this position: blanks are between them,
and no word goes on behind one. -/
inductive Tiled : Nat → List Char → List Lexeme → Prop where
  | nil (position : Nat) : Tiled position [] []
  | blank {position : Nat} {c : Char} {text : List Char} {lexemes : List Lexeme} :
      Piece.isBlank c = true → Tiled (position + 1) text lexemes →
      Tiled position (c :: text) lexemes
  | token {position : Nat} {piece : Piece} {token : Token} {text : List Char}
      {lexemes : List Lexeme} :
      piece.Whole → piece.shape = .token token →
      (piece.isWord = true → ∀ c ∈ text.head?, Piece.isWordChar c = false) →
      Tiled (position + piece.spelling.length) text lexemes →
      Tiled position (piece.spelling ++ text)
        (⟨token, .ofList piece.spelling, position⟩ :: lexemes)

namespace Tiled

variable {position : Nat} {text : List Char} {lexemes : List Lexeme}

theorem blanks {blanks : List Char} (all : ∀ c ∈ blanks, Piece.isBlank c = true)
    (h : Tiled (position + blanks.length) text lexemes) :
    Tiled position (blanks ++ text) lexemes := by
  induction blanks generalizing position with
  | nil => exact h
  | cons c others ih =>
    rw [List.forall_mem_cons] at all
    rw [List.length_cons, Nat.add_comm others.length, ← Nat.add_assoc] at h
    exact .blank all.1 (ih all.2 h)

/-- Where lexemes stand in a text, they are the first that are found, whatever the text goes on with
unless this is a word. -/
theorem exists_lexemes_append (h : Tiled position text lexemes) (line : String) (touching : Bool)
    (apart : touching = true → ∀ c ∈ text.head?, Piece.isWordChar c = false) (rest : List Char)
    (ends : ∀ c ∈ rest.head?, Piece.isWordChar c = false) :
    ∃ behind, Piece.lexemes line position touching (Piece.split (text ++ rest)) =
      (lexemes ++ ·) <$>
        Piece.lexemes line (position + text.length) behind (Piece.split rest) := by
  induction h generalizing touching with
  | nil position => exact ⟨touching, (id_map _).symm⟩
  | blank blank _ ih =>
    obtain ⟨behind, found⟩ := ih false nofun
    refine ⟨behind, ?_⟩
    rw [List.cons_append, Piece.lexemes_blank blank, found, List.length_cons, Nat.add_assoc,
      Nat.add_comm 1]
  | @token position piece token text lexemes whole htoken next _ ih =>
    have goesOn : piece.isWord = true → ∀ c ∈ (text ++ rest).head?, Piece.isWordChar c = false := by
      intro word c mem
      cases text with
      | nil => exact ends c mem
      | cons d others => exact next word c mem
    obtain ⟨behind, found⟩ := ih piece.isWord next
    refine ⟨behind, ?_⟩
    rw [List.append_assoc, Piece.lexemes_whole whole htoken goesOn fun same => apart same _ rfl,
      found, List.length_append, Nat.add_assoc, ← comp_map]
    rfl

/-- A text in which lexemes stand is scanned into them. -/
theorem lexemes_eq (h : Tiled position text lexemes) {line : String} {touching : Bool}
    (apart : touching = true → ∀ c ∈ text.head?, Piece.isWordChar c = false) :
    Piece.lexemes line position touching (Piece.split text) = .ok lexemes := by
  obtain ⟨behind, found⟩ := h.exists_lexemes_append line touching apart [] nofun
  rw [List.append_nil, Piece.split] at found
  rw [found]
  show Except.ok (lexemes ++ []) = _
  rw [List.append_nil]

/-- What stands behind a blank is scanned as if nothing were in front of it. -/
theorem lexemes_append_blank (h : Tiled position text lexemes) (line : String) {c : Char}
    (blank : Piece.isBlank c = true) (rest : List Char) :
    Piece.lexemes line position false (Piece.split (text ++ c :: rest)) =
      (lexemes ++ ·) <$>
        Piece.lexemes line (position + text.length + 1) false (Piece.split rest) := by
  have ends : ∀ d ∈ (c :: rest).head?, Piece.isWordChar d = false := by
    rintro d ⟨⟩
    exact Piece.isWordChar_of_isBlank blank
  obtain ⟨behind, found⟩ := h.exists_lexemes_append line false nofun (c :: rest) ends
  rw [found, Piece.lexemes_blank blank]

/-- Where a text is scanned into lexemes, they stand in it. -/
theorem of_lexemes {line : String} {touching : Bool}
    (h : Piece.lexemes line position touching (Piece.split text) = .ok lexemes) :
    Tiled position text lexemes ∧
      (touching = true → ∀ c ∈ text.head?, Piece.isWordChar c = false) := by
  fun_induction Piece.split text generalizing position touching lexemes with
  | case1 =>
    cases h
    exact ⟨.nil position, by rintro - c ⟨⟩⟩
  | case2 c rest ih =>
    rw [Piece.lexemes_cons] at h
    split at h
    · next hblank =>
      have blank := Piece.isBlank_of_front hblank
      rw [Piece.front_of_isBlank blank] at ih h
      -- a piece of blanks is one tile for each of them
      have run : c :: rest =
          (c :: rest.takeWhile Piece.isBlank) ++ rest.dropWhile Piece.isBlank := by
        rw [List.cons_append, List.takeWhile_append_dropWhile]
      refine ⟨?_, fun _ d hd => ?_⟩
      · rw [run]
        refine blanks ?_ (ih h).1
        rw [List.forall_mem_cons]
        exact ⟨blank, fun d mem => List.mem_takeWhile_imp mem⟩
      · cases hd
        exact Piece.isWordChar_of_isBlank blank
    · next token htoken =>
      split at h
      · cases h
      · next separate =>
        obtain ⟨others, scanned, ⟨⟩⟩ := bind_eq_ok_iff.1 h
        obtain ⟨tiled, ends⟩ := ih scanned
        refine ⟨?_, fun htouching d hd => ?_⟩
        · have tiled := Tiled.token (Piece.whole_of_front htoken) htoken ends tiled
          rwa [Piece.spelling_front] at tiled
        · cases hd
          rw [Bool.eq_false_iff]
          intro word
          exact separate (by rw [htouching, Piece.isWord_of_front htoken word]; rfl)
    · split at h <;> cases h
    · cases h
    · cases h

/-- The part of a text that ends with a lexeme. -/
theorem exists_cut {before behind : List Lexeme} {lexeme : Lexeme}
    (h : Tiled position text (before ++ lexeme :: behind)) :
    ∃ front rest, text = front ++ rest ∧ position + front.length = lexeme.stop ∧
      Tiled position front (before ++ [lexeme]) := by
  generalize listed : before ++ lexeme :: behind = lexemes at h
  induction h generalizing before with
  | nil position => simp at listed
  | @blank position c text lexemes blank _ ih =>
    obtain ⟨front, rest, rfl, stop, tiled⟩ := ih listed
    refine ⟨c :: front, rest, rfl, ?_, .blank blank tiled⟩
    rw [List.length_cons, ← stop]
    omega
  | @token position piece token text lexemes whole htoken ends _ ih =>
    cases before with
    | nil =>
      obtain ⟨rfl, rfl⟩ := List.cons_eq_cons.1 listed
      refine ⟨piece.spelling, text, rfl, ?_, ?_⟩
      · simp [Lexeme.stop]
      · have alone : Tiled position (piece.spelling ++ []) [⟨token, .ofList piece.spelling, position⟩] :=
          .token whole htoken nofun (.nil _)
        rwa [List.append_nil] at alone
    | cons first others =>
      rw [List.cons_append] at listed
      obtain ⟨rfl, same⟩ := List.cons_eq_cons.1 listed
      obtain ⟨front, rest, rfl, stop, tiled⟩ := ih same
      refine ⟨piece.spelling ++ front, rest, (List.append_assoc ..).symm, ?_, ?_⟩
      · rw [List.length_append, ← stop, Nat.add_assoc]
      · refine .token whole htoken (fun word c hc => ends word c ?_) tiled
        cases front with
        | nil => cases hc
        | cons d front => exact hc

end Tiled

namespace Lexeme

variable {text : String} {lexemes : List Lexeme}

/-- A text is scanned into the lexemes that stand in it. -/
theorem scan_eq_ok_iff : scan text = .ok lexemes ↔ Tiled 0 text.toList lexemes :=
  ⟨fun h => (Tiled.of_lexemes h).1, fun h => h.lexemes_eq nofun⟩

/-- A text that goes on behind a blank has the lexemes that it had, and then those of what
follows. -/
theorem scan_append (h : scan text = .ok lexemes) (more : String) :
    scan (text ++ " " ++ more) =
      (lexemes ++ ·) <$>
        Piece.lexemes (text ++ " " ++ more) (text.length + 1) false (Piece.split more.toList) := by
  have tiled := scan_eq_ok_iff.1 h
  have blank : Piece.isBlank ' ' = true := rfl
  have goesOn := tiled.lexemes_append_blank (text ++ " " ++ more) blank more.toList
  unfold scan
  rw [Nat.zero_add, String.length_toList] at goesOn
  simpa using goesOn

/-- The text up to the end of one of its lexemes has this lexeme and those in front of it. -/
theorem scan_take {before behind : List Lexeme} {lexeme : Lexeme}
    (h : scan text = .ok (before ++ lexeme :: behind)) :
    scan (.ofList (text.toList.take lexeme.stop)) = .ok (before ++ [lexeme]) := by
  obtain ⟨front, rest, spelled, stop, tiled⟩ := (scan_eq_ok_iff.1 h).exists_cut
  rw [Nat.zero_add] at stop
  rw [scan_eq_ok_iff, String.toList_ofList, spelled, ← stop, List.take_left]
  exact tiled

end Lexeme

end Entailment
