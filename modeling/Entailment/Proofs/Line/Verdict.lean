import Entailment.Proofs.Line.Layout
import Entailment.Proofs.Line.Scanned

/-!
# The verdict on a line

What is said of a text that is to be a line, without the state that its lexemes are placed with: the
first lexeme that is out of place is looked for, and it is out of place for what stands in front of
it.  A bad character comes before everything else, and a line that has to go on comes last.

Main statement: `Line.ofText_verdict`.
-/

namespace Entailment

namespace Token

/-- The token may not follow the last of those in front of it, or may not open a line. -/
def Clashes (before : List Token) (token : Token) : Prop :=
  match before.getLast? with
  | none => token.kind.startsLine = false
  | some last => ¬ Follows last token

/-- The token is a second `∴`, or a closing bracket with none open in front of it. -/
def Strays (before : List Token) (token : Token) : Prop :=
  (token = therefore ∧ therefore ∈ before) ∨
    (token = rightParenthesis ∧ before.count leftParenthesis ≤ before.count rightParenthesis)

/-- Each token is in place behind those in front of it. -/
def Placed (tokens : List Token) : Prop :=
  ∀ before token behind, tokens = before ++ token :: behind →
    ¬ Clashes before token ∧ ¬ Strays before token

/-- The tokens that a line cannot stop with. -/
def demanding : List Token :=
  [assign, is, not, connective .conjunction, connective .disjunction, connective .conditional,
    therefore, comma, leftParenthesis, argument, query .tautology, query .validity, query .value]

/-- The line cannot stop behind these tokens: a bracket is open, the last of them demands another
one, an atom stands alone, or of an argument no more than its name has been given. -/
def Unfinished (tokens : List Token) : Prop :=
  tokens.count rightParenthesis < tokens.count leftParenthesis ∨
    (∃ last ∈ demanding, tokens.getLast? = some last) ∨
    (∃ name, tokens = [atom name]) ∨
    ∃ id, [argument, identifier id] <:+ tokens

theorem placed_nil : Placed [] := by
  intro before token behind same
  simp at same

theorem placed_concat {tokens : List Token} {token : Token} :
    Placed (tokens ++ [token]) ↔ Placed tokens ∧ ¬ Clashes tokens token ∧ ¬ Strays tokens token := by
  constructor
  · intro h
    refine ⟨fun before other behind same => ?_, h tokens token [] rfl⟩
    apply h before other (behind ++ [token])
    rw [same, List.append_assoc, List.cons_append]
  · rintro ⟨placed, last⟩ before other behind same
    rcases List.eq_nil_or_concat behind with rfl | ⟨initial, final, rfl⟩
    · obtain ⟨rfl, single⟩ := List.append_inj' same rfl
      cases single
      exact last
    · rw [List.concat_eq_append, ← List.cons_append, ← List.append_assoc] at same
      exact placed before other initial (List.append_inj' same rfl).1

/-- Unless all tokens are in place there is a first one that is not. -/
theorem placed_or_exists_first (tokens : List Token) :
    Placed tokens ∨ ∃ before token behind, tokens = before ++ token :: behind ∧ Placed before ∧
      (Clashes before token ∨ Strays before token) := by
  induction tokens using List.reverseRecOn with
  | nil => exact .inl placed_nil
  | append_singleton initial last ih =>
    rcases ih with placed | ⟨before, token, behind, rfl, first⟩
    · by_cases misplaced : Clashes initial last ∨ Strays initial last
      · exact .inr ⟨initial, last, [], rfl, placed, misplaced⟩
      · exact .inl (placed_concat.2 ⟨placed, not_or.1 misplaced⟩)
    · refine .inr ⟨before, token, behind ++ [last], ?_, first⟩
      rw [List.append_assoc, List.cons_append]

/-- No more brackets are closed than were opened. -/
theorem Placed.count_le {tokens : List Token} (h : Placed tokens) :
    tokens.count rightParenthesis ≤ tokens.count leftParenthesis := by
  induction tokens using List.reverseRecOn with
  | nil => exact Nat.le_refl 0
  | append_singleton initial last ih =>
    obtain ⟨placed, -, inPlace⟩ := placed_concat.1 h
    have below := ih placed
    rw [List.count_append, List.count_append]
    by_cases closing : last = rightParenthesis
    · have opened : ¬ initial.count leftParenthesis ≤ initial.count rightParenthesis :=
        fun none => inPlace (.inr ⟨closing, none⟩)
      subst closing
      simp
      omega
    · rw [List.count_singleton, beq_eq_false_iff_ne.2 closing, if_neg Bool.false_ne_true]
      omega

theorem announces_eq_true_iff {token : Token} :
    token.kind.announces = true ↔ token ∈ demanding := by
  cases token with
  | connective sign => cases sign <;> simp [kind, Kind.announces, demanding]
  | query question => cases question <;> simp [kind, Kind.announces, demanding]
  | _ => simp [kind, Kind.announces, demanding]

theorem expectsMore_iff_reversed {reversed : List Token} :
    Kind.expectsMore (reversed.map kind) = true ↔
      (∃ last ∈ demanding, reversed.head? = some last) ∨ (∃ name, reversed = [atom name]) ∨
        ∃ id, [identifier id, argument] <+: reversed := by
  simp only [← announces_eq_true_iff]
  rcases reversed with _ | ⟨last, _ | ⟨before, others⟩⟩
  · simp [Kind.expectsMore]
  · cases last <;> simp [Kind.expectsMore, kind, Kind.announces]
  · cases last with
    | identifier id => cases before <;> simp [Kind.expectsMore, kind, Kind.announces]
    | _ => simp [Kind.expectsMore, kind]

theorem expectsMore_iff {tokens : List Token} :
    Kind.expectsMore (tokens.reverse.map kind) = true ↔
      (∃ last ∈ demanding, tokens.getLast? = some last) ∨ (∃ name, tokens = [atom name]) ∨
        ∃ id, [argument, identifier id] <:+ tokens := by
  rw [expectsMore_iff_reversed, List.head?_reverse]
  simp only [List.reverse_eq_iff, ← List.reverse_prefix, List.reverse_cons, List.reverse_nil,
    List.nil_append, List.singleton_append]

theorem depthBehind_eq_none_iff {depth : Nat} {token : Token} :
    depthBehind depth token = none ↔ token = rightParenthesis ∧ depth = 0 := by
  cases token <;> simp [depthBehind]

/-- The open brackets are those that were opened, without those that were closed. -/
theorem depthBehind_of_not_strays {tokens : List Token} {token : Token}
    (below : tokens.count rightParenthesis ≤ tokens.count leftParenthesis)
    (inPlace : ¬ Strays tokens token) :
    depthBehind (tokens.count leftParenthesis - tokens.count rightParenthesis) token =
      some ((tokens ++ [token]).count leftParenthesis -
        (tokens ++ [token]).count rightParenthesis) := by
  rw [List.count_append, List.count_append]
  cases token with
  | leftParenthesis =>
    simp [depthBehind]
    omega
  | rightParenthesis =>
    have opened : ¬ tokens.count leftParenthesis ≤ tokens.count rightParenthesis :=
      fun none => inPlace (.inr ⟨rfl, none⟩)
    simp [depthBehind]
    omega
  | _ => simp [depthBehind]

end Token

namespace Layout

open Token (Follows depthBehind Clashes Strays Placed Unfinished)

/-- The layout behind lexemes that are in place. -/
def behind (lexemes : List Lexeme) : Layout where
  last := lexemes.getLast?
  depth := (lexemes.map Lexeme.token).count .leftParenthesis -
    (lexemes.map Lexeme.token).count .rightParenthesis
  concluded := decide (.therefore ∈ lexemes.map Lexeme.token)

variable {line : String} {before : List Lexeme} {lexeme : Lexeme}

theorem clashes_iff :
    Clashes (before.map Lexeme.token) lexeme.token ↔
      (behind before).admits lexeme.kind = false := by
  unfold Clashes admits behind
  rw [List.getLast?_map]
  cases before.getLast? with
  | none => rfl
  | some last => exact iff_of_eq (Bool.not_eq_true _)

theorem strays_iff :
    Strays (before.map Lexeme.token) lexeme.token ↔
      (lexeme.token = .therefore ∧ (behind before).concluded = true) ∨
        depthBehind (behind before).depth lexeme.token = none := by
  rw [Token.depthBehind_eq_none_iff]
  simp only [Strays, behind, decide_eq_true_eq, Nat.sub_eq_zero_iff_le]

theorem place_of_clashes (h : Clashes (before.map Lexeme.token) lexeme.token) :
    (behind before).place line lexeme =
      .error (.symbol lexeme.spelling (before.getLast?.getD lexeme).stop line) := by
  rw [place_eq, if_pos (clashes_iff.1 h)]
  rfl

theorem place_of_strays (admitted : ¬ Clashes (before.map Lexeme.token) lexeme.token)
    (h : Strays (before.map Lexeme.token) lexeme.token) :
    (behind before).place line lexeme = .error (lexeme.unexpected line) := by
  rw [clashes_iff] at admitted
  rw [place_eq, if_neg admitted]
  split
  · rfl
  · next once =>
    rw [(strays_iff.1 h).resolve_left once]

theorem place_of_placed (h : Placed ((before ++ [lexeme]).map Lexeme.token)) :
    (behind before).place line lexeme = .ok (behind (before ++ [lexeme])) := by
  rw [List.map_append, List.map_singleton] at h
  obtain ⟨placed, admitted, inPlace⟩ := Token.placed_concat.1 h
  have depth := Token.depthBehind_of_not_strays placed.count_le inPlace
  rw [clashes_iff] at admitted
  rw [strays_iff, not_or] at inPlace
  rw [place_eq, if_neg admitted, if_neg inPlace.1]
  unfold behind
  dsimp only
  rw [depth]
  simp [eq_comm]

theorem foldlM_place_of_placed {lexemes : List Lexeme} (h : Placed (lexemes.map Lexeme.token)) :
    lexemes.foldlM (place line) {} = .ok (behind lexemes) := by
  induction lexemes using List.reverseRecOn with
  | nil => rfl
  | append_singleton initial last ih =>
    have placed := h
    rw [List.map_append, List.map_singleton] at h
    rw [List.foldlM_append, ih (Token.placed_concat.1 h).1]
    show (behind initial).place line last >>= pure = _
    rw [place_of_placed placed]
    rfl

theorem check_of_misplaced {rest : List Lexeme} {failure : Failure}
    (placed : Placed (before.map Lexeme.token))
    (h : (behind before).place line lexeme = .error failure) :
    check line (before ++ lexeme :: rest) = .error failure := by
  rw [check, List.foldlM_append, foldlM_place_of_placed placed]
  show ((behind before).place line lexeme >>= _) >>= _ = _
  rw [h]
  rfl

theorem unfinished_iff {lexemes : List Lexeme} :
    Unfinished (lexemes.map Lexeme.token) ↔
      (behind lexemes).depth > 0 ∨
        Kind.expectsMore (lexemes.reverse.map Lexeme.kind) = true := by
  rw [map_kind_reverse, Token.expectsMore_iff]
  simp only [Unfinished, behind, gt_iff_lt, Nat.sub_pos_iff_lt]

theorem check_of_placed {lexemes : List Lexeme} (placed : Placed (lexemes.map Lexeme.token)) :
    (Unfinished (lexemes.map Lexeme.token) → check line lexemes = .error (.endOfLine line)) ∧
      (¬ Unfinished (lexemes.map Lexeme.token) → check line lexemes = .ok ()) := by
  have walked : check line lexemes =
      if (behind lexemes).depth > 0 || Kind.expectsMore (lexemes.reverse.map Lexeme.kind) then
        .error (.endOfLine line)
      else .ok () := by
    rw [check, foldlM_place_of_placed placed]
    rfl
  rw [walked, unfinished_iff]
  constructor
  · intro more
    rw [if_pos (by simpa using more)]
  · intro complete
    rw [if_neg (by simpa using complete)]

end Layout

namespace Line

open Token (Clashes Strays Placed Unfinished)

/-- Behind white space the text is over, or it goes on with `//`. -/
def Remark (text : String) : Prop :=
  Text.trimLeft text.toList = [] ∨ ['/', '/'] <+: Text.trimLeft text.toList

theorem isRemark_eq_true_iff {text : String} : isRemark text = true ↔ Remark text := by
  unfold isRemark Remark
  split
  · next none => simp [none]
  · next comment => simp [comment]
  · next some notComment =>
    constructor
    · intro h
      cases h
    · rintro (none | ⟨rest, comment⟩)
      · exact absurd none some
      · exact absurd comment.symm (notComment rest)

theorem ofText_of_remark {text : String} (remark : Remark text) : ofText text = .ok ⟨text, []⟩ := by
  rw [ofText, if_pos (isRemark_eq_true_iff.2 remark)]
  rfl

theorem not_remark_of_error {text : String} {failure : Failure}
    (read : ofText text = .error failure) : ¬ Remark text := by
  intro remark
  rw [ofText_of_remark remark] at read
  cases read

/-- What is said of a text, in view of what scanning it gives. -/
inductive Verdict (text : String) : Except Failure (List Lexeme) → Except Failure Line → Prop where
  | character (c : Char) (position : Nat) :
      Verdict text (.error (.character c position text)) (.error (.character c position text))
  /-- The first lexeme out of place clashes: it is reported where the one before it ends, and where
  it ends itself if it is the first. -/
  | clash {before behind : List Lexeme} {lexeme : Lexeme} :
      Placed (before.map Lexeme.token) → Clashes (before.map Lexeme.token) lexeme.token →
      Verdict text (.ok (before ++ lexeme :: behind))
        (.error (.symbol lexeme.spelling (before.getLast?.getD lexeme).stop text))
  /-- The first lexeme out of place only strays: it is reported where it begins. -/
  | stray {before behind : List Lexeme} {lexeme : Lexeme} :
      Placed (before.map Lexeme.token) → ¬ Clashes (before.map Lexeme.token) lexeme.token →
      Strays (before.map Lexeme.token) lexeme.token →
      Verdict text (.ok (before ++ lexeme :: behind))
        (.error (.symbol lexeme.spelling lexeme.position text))
  | unfinished {lexemes : List Lexeme} :
      Placed (lexemes.map Lexeme.token) → Unfinished (lexemes.map Lexeme.token) →
      Verdict text (.ok lexemes) (.error (.endOfLine text))
  | complete {lexemes : List Lexeme} :
      lexemes ≠ [] → Placed (lexemes.map Lexeme.token) →
      ¬ Unfinished (lexemes.map Lexeme.token) → Verdict text (.ok lexemes) (.ok ⟨text, lexemes⟩)

theorem Verdict.lexemes_ne_nil {text : String} {scanned : Except Failure (List Lexeme)} {line : Line}
    (h : Verdict text scanned (.ok line)) : line.lexemes ≠ [] := by
  cases h with
  | complete some _ _ => exact some

theorem ofText_of_not_remark {text : String} (h : ¬ Remark text) :
    ofText text = Lexeme.scan text >>= fun lexemes =>
      (fun _ => ⟨text, lexemes⟩) <$> Layout.check text lexemes := by
  rw [ofText, if_neg (mt isRemark_eq_true_iff.1 h)]
  cases Lexeme.scan text with
  | error failure => rfl
  | ok lexemes =>
    show (Layout.check text lexemes >>= fun _ => pure _) = (fun _ => _) <$> _
    cases Layout.check text lexemes <;> rfl

theorem ofText_of_check {text : String} {lexemes : List Lexeme} {checked : Except Failure Unit}
    (content : ¬ Remark text) (scanned : Lexeme.scan text = .ok lexemes)
    (h : Layout.check text lexemes = checked) :
    ofText text = (fun _ => ⟨text, lexemes⟩) <$> checked := by
  rw [ofText_of_not_remark content, scanned, ← h]
  rfl

theorem Verdict.ofText_eq {text : String} {result : Except Failure Line} (content : ¬ Remark text)
    (h : Verdict text (Lexeme.scan text) result) : ofText text = result := by
  generalize scanned : Lexeme.scan text = lexemes at h
  cases h with
  | character c position =>
    rw [ofText_of_not_remark content, scanned]
    rfl
  | clash placed clashes =>
    exact ofText_of_check content scanned
      (Layout.check_of_misplaced placed (Layout.place_of_clashes clashes))
  | stray placed admitted strays =>
    exact ofText_of_check content scanned
      (Layout.check_of_misplaced placed (Layout.place_of_strays admitted strays))
  | unfinished placed more =>
    exact ofText_of_check content scanned ((Layout.check_of_placed placed).1 more)
  | complete _ placed stops =>
    exact ofText_of_check content scanned ((Layout.check_of_placed placed).2 stops)

theorem exists_verdict {text : String} (content : ¬ Remark text) :
    ∃ result, Verdict text (Lexeme.scan text) result := by
  cases scanned : Lexeme.scan text with
  | error failure =>
    obtain ⟨c, position, rfl⟩ := Lexeme.scan_error scanned
    exact ⟨_, .character c position⟩
  | ok lexemes =>
    have some : lexemes ≠ [] := by
      rintro rfl
      exact content (.inl (Piece.trimLeft_of_no_lexemes scanned))
    rcases Token.placed_or_exists_first (lexemes.map Lexeme.token) with
      placed | ⟨before, token, behind, listed, placed, misplaced⟩
    · by_cases more : Unfinished (lexemes.map Lexeme.token)
      · exact ⟨_, .unfinished placed more⟩
      · exact ⟨_, .complete some placed more⟩
    · obtain ⟨before, rest, rfl, rfl, others⟩ := List.map_eq_append_iff.1 listed
      obtain ⟨lexeme, behind, rfl, rfl, -⟩ := List.map_eq_cons_iff.1 others
      by_cases clashes : Clashes (before.map Lexeme.token) lexeme.token
      · exact ⟨_, .clash placed clashes⟩
      · exact ⟨_, .stray placed clashes (misplaced.resolve_left clashes)⟩

theorem ofText_eq_iff {text : String} {result : Except Failure Line} (content : ¬ Remark text) :
    ofText text = result ↔ Verdict text (Lexeme.scan text) result := by
  constructor
  · rintro rfl
    obtain ⟨result, verdict⟩ := exists_verdict content
    rwa [verdict.ofText_eq content]
  · exact Verdict.ofText_eq content

/-- A text that is no remark is refused for a character just if it cannot be scanned. -/
theorem ofText_eq_character_iff {text reported : String} {c : Char} {position : Nat}
    (content : ¬ Remark text) :
    ofText text = .error (.character c position reported) ↔
      Lexeme.scan text = .error (.character c position reported) := by
  rw [ofText_eq_iff content]
  constructor
  · intro verdict
    generalize Lexeme.scan text = found at verdict
    cases verdict with
    | character _ _ => rfl
  · intro refused
    obtain ⟨_, _, ⟨⟩⟩ := Lexeme.scan_error refused
    rw [refused]
    exact .character c position

/-- A text without lexemes is a remark, and a remark is read as one.  Any other text gets the one
result that is its verdict: its bad character, the first lexeme that is out of place, that it has to
go on, or its lexemes.  Positions in it count characters. -/
theorem ofText_verdict (text : String) :
    ((∃ line, ofText text = .ok line ∧ line.lexemes = []) ↔ Remark text) ∧
    (¬ Remark text → ∀ result, ofText text = result ↔ Verdict text (Lexeme.scan text) result) ∧
    ∀ lexemes, Lexeme.scan text = .ok lexemes → ∀ lexeme ∈ lexemes, ∃ before behind,
      text.toList = before ++ lexeme.spelling.toList ++ behind ∧
        lexeme.position = before.length := by
  refine ⟨⟨?_, ?_⟩, fun content result => ofText_eq_iff content,
    fun lexemes scanned lexeme mem => Lexeme.stands_of_scan scanned mem⟩
  · rintro ⟨line, read, empty⟩
    by_contra content
    exact ((ofText_eq_iff content).1 read).lexemes_ne_nil empty
  · intro remark
    refine ⟨⟨text, []⟩, ?_, rfl⟩
    rw [ofText, if_pos (isRemark_eq_true_iff.2 remark)]
    rfl

/-- A second `∴` that may not stand there anyway clashes, so the end of the first is reported. -/
example : ofText "argument a := P ∴ ∴ Q" = .error (.symbol "∴" 17 "argument a := P ∴ ∴ Q") := by
  decide +kernel

end Line

end Entailment
