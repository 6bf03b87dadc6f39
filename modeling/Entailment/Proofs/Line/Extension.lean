import Entailment.Proofs.Line.Canonical
import Entailment.Proofs.Line.Completion
import Entailment.Proofs.Line.Tiled

/-!
# Lines that go on

A line is judged from left to right.  A symbol out of place is one whatever the line goes on with, a
line that was in order so far has been in order behind each of its lexemes, and a line that is not
over can be completed, unless a bracket can no longer be closed.

Main statement: `Line.ofText_left_to_right`.
-/

namespace Entailment

namespace Line

open Token (Placed Unfinished Stuck canonical)

variable {text more : String} {lexemes : List Lexeme}

/-! ## Texts that go on -/

theorem toList_extended (text more : String) :
    (text ++ " " ++ more).toList = text.toList ++ ' ' :: more.toList := by
  simp

/-- A text that goes on behind a blank is no remark unless it was one. -/
theorem Remark.of_extended (h : Remark (text ++ " " ++ more)) : Remark text := by
  unfold Remark Text.trimLeft at h ⊢
  rw [toList_extended, List.dropWhile_append] at h
  cases begun : text.toList.dropWhile Text.isSpace with
  | nil => exact .inl rfl
  | cons c rest =>
    rw [begun, List.isEmpty_cons, if_neg Bool.false_ne_true] at h
    rcases h with none | ⟨behind, comment⟩
    · cases none
    · cases rest with
      | nil => simp at comment -- behind the one character the blank stands, and no second slash
      | cons d rest =>
        simp only [List.cons_append, List.cons_eq_cons] at comment
        obtain ⟨rfl, rfl, -⟩ := comment
        exact .inr (List.prefix_append ['/', '/'] rest)

theorem not_remark_of_scan {first : Lexeme} {others : List Lexeme}
    (scanned : Lexeme.scan text = .ok (first :: others)) : ¬ Remark text := by
  rw [← isRemark_eq_true_iff, isRemark_eq_false_of_scan scanned]
  exact Bool.false_ne_true

/-- Without a bad character, the lexemes of a text that goes on are those it had and others. -/
theorem exists_scan_extended (content : ¬ Remark text) (scanned : Lexeme.scan text = .ok lexemes)
    (clean : ∀ c position reported,
      ofText (text ++ " " ++ more) ≠ .error (.character c position reported)) :
    ∃ others, Lexeme.scan (text ++ " " ++ more) = .ok (lexemes ++ others) := by
  cases again : Lexeme.scan (text ++ " " ++ more) with
  | error failure =>
    obtain ⟨c, position, rfl⟩ := Lexeme.scan_error again
    refine absurd ?_ (clean c position (text ++ " " ++ more))
    rw [ofText_of_not_remark (mt Remark.of_extended content), again]
    rfl
  | ok found =>
    rw [Lexeme.scan_append scanned, map_eq_pure_bind] at again
    obtain ⟨others, -, ⟨⟩⟩ := bind_eq_ok_iff.1 again
    exact ⟨others, rfl⟩

/-! ## What a result says about the lexemes -/

theorem scan_of_ok {line : Line} (content : ¬ Remark text) (read : ofText text = .ok line) :
    ∃ lexemes, Lexeme.scan text = .ok lexemes ∧ Placed (lexemes.map Lexeme.token) ∧
      ¬ Unfinished (lexemes.map Lexeme.token) ∧ line = ⟨text, lexemes⟩ := by
  have verdict := (ofText_eq_iff content).1 read
  generalize Lexeme.scan text = found at verdict
  cases verdict with
  | complete _ placed stops => exact ⟨_, rfl, placed, stops, rfl⟩

theorem scan_of_endOfLine {reported : String} (read : ofText text = .error (.endOfLine reported)) :
    ∃ lexemes, Lexeme.scan text = .ok lexemes ∧ Placed (lexemes.map Lexeme.token) ∧
      Unfinished (lexemes.map Lexeme.token) := by
  have verdict := (ofText_eq_iff (not_remark_of_error read)).1 read
  generalize Lexeme.scan text = found at verdict
  cases verdict with
  | unfinished placed more => exact ⟨_, rfl, placed, more⟩

/-! ## Symbols out of place -/

/-- A symbol that is out of place stays so. -/
theorem ofText_extended_of_symbol {spelling reported : String} {position : Nat}
    (read : ofText text = .error (.symbol spelling position reported))
    (clean : ∀ c place reported,
      ofText (text ++ " " ++ more) ≠ .error (.character c place reported)) :
    ofText (text ++ " " ++ more) = .error (.symbol spelling position (text ++ " " ++ more)) := by
  have content := not_remark_of_error read
  have verdict := (ofText_eq_iff content).1 read
  have extended : ¬ Remark (text ++ " " ++ more) := mt Remark.of_extended content
  rw [ofText_eq_iff extended]
  generalize scanned : Lexeme.scan text = found at verdict
  cases verdict with
  | clash placed clashes =>
    obtain ⟨others, again⟩ := exists_scan_extended content scanned clean
    rw [again, List.append_assoc, List.cons_append]
    exact .clash placed clashes
  | stray placed admitted strays =>
    obtain ⟨others, again⟩ := exists_scan_extended content scanned clean
    rw [again, List.append_assoc, List.cons_append]
    exact .stray placed admitted strays

/-! ## Lines that are cut -/

theorem ofText_of_placed (scanned : Lexeme.scan text = .ok lexemes) (some : lexemes ≠ [])
    (placed : Placed (lexemes.map Lexeme.token)) :
    ofText text = .ok ⟨text, lexemes⟩ ∨ ofText text = .error (.endOfLine text) := by
  obtain ⟨first, others, rfl⟩ := List.exists_cons_of_ne_nil some
  have content := not_remark_of_scan scanned
  rw [ofText_eq_iff content, ofText_eq_iff content, scanned]
  by_cases unfinished : Unfinished ((first :: others).map Lexeme.token)
  · exact .inr (.unfinished placed unfinished)
  · exact .inl (.complete some placed unfinished)

/-- What a text is cut to behind a lexeme is accepted, or it would be if it went on. -/
theorem ofText_cut {before behind : List Lexeme} {lexeme : Lexeme}
    (scanned : Lexeme.scan text = .ok (before ++ lexeme :: behind))
    (placed : Placed ((before ++ lexeme :: behind).map Lexeme.token)) :
    let cut := String.ofList (text.toList.take lexeme.stop)
    ofText cut = .ok ⟨cut, before ++ [lexeme]⟩ ∨ ofText cut = .error (.endOfLine cut) := by
  intro cut
  have front : Placed ((before ++ [lexeme]).map Lexeme.token) := by
    rw [← List.singleton_append, ← List.append_assoc, List.map_append] at placed
    exact placed.of_append
  exact ofText_of_placed (Lexeme.scan_take scanned) (by simp) front

/-! ## Lines that are completed -/

/-- Tokens in canonical spelling can be added to a text behind a blank. -/
theorem exists_scan_canonical (scanned : Lexeme.scan text = .ok lexemes) {added : List Token}
    (lexable : ∀ token ∈ added, token.lexable = true) :
    ∃ others, Lexeme.scan (text ++ " " ++ canonical added) = .ok (lexemes ++ others) ∧
      others.map Lexeme.token = added := by
  have written : Written (canonical added).toList added := .intercalate lexable
  obtain ⟨others, found, same⟩ := written.scans (text ++ " " ++ canonical added)
    (text.length + 1) false nofun
  refine ⟨others, ?_, same⟩
  rw [Lexeme.scan_append scanned, found]
  rfl

/-- A line that is not over can be completed just if it is not stuck. -/
theorem exists_completion_iff (content : ¬ Remark text) (scanned : Lexeme.scan text = .ok lexemes)
    (placed : Placed (lexemes.map Lexeme.token))
    (unfinished : Unfinished (lexemes.map Lexeme.token)) :
    (∃ more line, ofText (text ++ " " ++ more) = .ok line) ↔
      ¬ Stuck (lexemes.map Lexeme.token) := by
  constructor
  · rintro ⟨more, line, read⟩ stuck
    have clean : ∀ c position reported,
        ofText (text ++ " " ++ more) ≠ .error (.character c position reported) := by
      rw [read]
      exact nofun
    obtain ⟨others, again⟩ := exists_scan_extended content scanned clean
    obtain ⟨found, same, whole, stops, -⟩ := scan_of_ok (mt Remark.of_extended content) read
    obtain rfl : lexemes ++ others = found := Except.ok.inj (again.symm.trans same)
    rw [List.map_append] at whole stops
    exact stops (stuck.append whole).unfinished
  · intro free
    obtain ⟨added, lexable, whole, stops⟩ := placed.exists_finished unfinished free
    obtain ⟨others, again, rfl⟩ := exists_scan_canonical scanned lexable
    have some : lexemes ++ others ≠ [] := by
      rintro none
      rw [(List.append_eq_nil_iff.1 none).1] at unfinished
      obtain ⟨last, ⟨⟩⟩ := unfinished.exists_last
    rw [← List.map_append] at whole stops
    let longer := text ++ " " ++ canonical (others.map Lexeme.token)
    have read : ofText longer = .ok ⟨longer, lexemes ++ others⟩ := by
      rw [ofText_eq_iff (mt Remark.of_extended content), again]
      exact .complete some whole stops
    exact ⟨_, _, read⟩

/-- A line is judged from left to right.  A symbol out of place is reported for whatever the line
goes on with, unless that has a bad character.  A line that is accepted, or has to go on, is so too
when it is cut behind one of its lexemes.  And a line that has to go on can be made one that is
accepted just if it is not stuck. -/
theorem ofText_left_to_right (text : String) :
    (∀ spelling position reported,
      ofText text = .error (.symbol spelling position reported) →
      ∀ more, (∀ c place reported,
          ofText (text ++ " " ++ more) ≠ .error (.character c place reported)) →
        ofText (text ++ " " ++ more) =
          .error (.symbol spelling position (text ++ " " ++ more))) ∧
    (∀ lexemes, (∃ line, ofText text = .ok line ∧ line.lexemes = lexemes) ∨
        (∃ reported, ofText text = .error (.endOfLine reported)) ∧
          Lexeme.scan text = .ok lexemes →
      ∀ before lexeme behind, lexemes = before ++ lexeme :: behind →
        let cut := String.ofList (text.toList.take lexeme.stop)
        ofText cut = .ok ⟨cut, before ++ [lexeme]⟩ ∨ ofText cut = .error (.endOfLine cut)) ∧
    ∀ reported, ofText text = .error (.endOfLine reported) →
      ∃ lexemes, Lexeme.scan text = .ok lexemes ∧
        ((∃ more line, ofText (text ++ " " ++ more) = .ok line) ↔
          ¬ Stuck (lexemes.map Lexeme.token)) := by
  refine ⟨fun spelling position reported read more => ofText_extended_of_symbol read, ?_, ?_⟩
  · rintro _ inOrder before lexeme behind rfl
    rcases inOrder with ⟨line, read, listed⟩ | ⟨⟨reported, read⟩, scanned⟩
    · have content : ¬ Remark text := by
        intro remark
        rw [ofText_of_remark remark] at read
        cases read
        simp at listed
      obtain ⟨lexemes, scanned, placed, -, rfl⟩ := scan_of_ok content read
      obtain rfl : lexemes = before ++ lexeme :: behind := listed
      exact ofText_cut scanned placed
    · obtain ⟨lexemes, same, placed, -⟩ := scan_of_endOfLine read
      rw [scanned] at same
      cases same
      exact ofText_cut scanned placed
  · intro reported read
    obtain ⟨lexemes, scanned, placed, unfinished⟩ := scan_of_endOfLine read
    exact ⟨lexemes, scanned,
      exists_completion_iff (not_remark_of_error read) scanned placed unfinished⟩

end Line

end Entailment
