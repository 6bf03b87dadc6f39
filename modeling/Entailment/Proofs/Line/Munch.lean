import Entailment.Proofs.Line.Pieces

/-!
# Longest matches

The rules for what may stand at the front of a text, in their order.  The longest match is the one
that is taken, and of rules that match equally far the first.

* `Piece.Longest.unique`: whatever the rules are, one piece at most is taken.
* `Piece.longest_iff`: by the rules of the language it is the one at the front of the text.

Main statement: `Piece.munched_iff`, for a whole text.
-/

namespace Entailment

namespace Piece

/-- A rule for what may stand at the front of a text. -/
structure Rule where
  first : Char → Bool
  others : List Char → Bool
  /-- What a spelling is that the rule accepts. -/
  shape : List Char → Shape

namespace Rule

def accepts (rule : Rule) : List Char → Bool
  | [] => false
  | c :: others => rule.first c && rule.others others

/-- A character of one class, and any number of another. -/
def many (first others : Char → Bool) (shape : List Char → Shape) : Rule where
  first := first
  others := fun rest => rest.all others
  shape := shape

def pair (first second : Char) (token : Token) : Rule where
  first := fun c => c = first
  others := fun rest => rest = [second]
  shape := fun _ => .token token

/-- A character of a class. -/
def single (first : Char → Bool) (shape : Shape) : Rule where
  first := first
  others := List.isEmpty
  shape := fun _ => shape

def blanks : Rule := many isBlank isBlank fun _ => .blank

def atom : Rule := many Char.isUpper Char.isDigit fun spelling => .token (.atom (.ofList spelling))

def word : Rule :=
  many Char.isLower continuesWord fun spelling => .token (.ofWord (.ofList spelling))

/-- Whatever stands between two quotes. -/
def closed : Rule where
  first := fun c => c = '"'
  others := fun rest => rest.getLast? = some '"' && rest.dropLast.all (· ≠ '"')
  shape := fun spelling => .token (.text (.ofList spelling.tail.dropLast))

def unclosed : Rule := many (· = '"') (· ≠ '"') fun _ => .unterminated

def anything : Rule := single (fun _ => true) .unknown

@[simp]
theorem first_blanks : blanks.first = isBlank := rfl

@[simp]
theorem first_atom : atom.first = Char.isUpper := rfl

@[simp]
theorem first_word : word.first = Char.isLower := rfl

@[simp]
theorem first_anything : anything.first = fun _ => true := rfl

/-- No match of the rule at the front of a text is as long as `bound`. -/
def Below (rule : Rule) (text : List Char) (bound : Nat) : Prop :=
  ∀ spelling, spelling <+: text → rule.accepts spelling = true → spelling.length < bound

end Rule

/-- The rules of the language, in their order.  The last one leaves nothing unmatched. -/
def rules : List Rule :=
  [.blanks, .atom, .word, .closed, .unclosed,
    .pair ':' '=' .assign,
    .pair '-' '>' (.connective .conditional),
    .single (fun c => c = ':' || c = '-') .incomplete,
    .single (fun c => c = '¬' || c = '!') (.token .not),
    .single (fun c => c = '∧' || c = '&') (.token (.connective .conjunction)),
    .single (fun c => c = '∨' || c = '|') (.token (.connective .disjunction)),
    .single (· = '→') (.token (.connective .conditional)),
    .single (· = '∴') (.token .therefore),
    .single (· = '(') (.token .leftParenthesis),
    .single (· = ')') (.token .rightParenthesis),
    .single (· = ',') (.token .comma),
    .anything]

/-- The match of `rule` at the front of a text is taken: no rule before it matches as far, and
neither it nor a rule behind it matches farther. -/
structure Wins (before : List Rule) (rule : Rule) (behind : List Rule) (text : List Char)
    (piece : Piece) : Prop where
  front : piece.spelling <+: text
  accepted : rule.accepts piece.spelling = true
  made : piece.shape = rule.shape piece.spelling
  earlier : ∀ other ∈ before, other.Below text piece.spelling.length
  later : ∀ other ∈ rule :: behind, other.Below text (piece.spelling.length + 1)

/-- A piece is the longest match at the front of a text, and among equally long ones that of the
first rule. -/
def Longest (rules : List Rule) (text : List Char) (piece : Piece) : Prop :=
  ∃ before rule behind, rules = before ++ rule :: behind ∧ Wins before rule behind text piece

/-! ## One piece at most -/

section

variable {rules before behind others : List Rule} {rule : Rule} {text : List Char}
  {piece other : Piece}

theorem spelling_ext (spelled : piece.spelling = other.spelling)
    (shaped : piece.shape = other.shape) : piece = other := by
  cases piece
  cases other
  obtain ⟨rfl, rfl⟩ := List.cons_eq_cons.1 spelled
  cases shaped
  rfl

/-- Of two matches that are taken, the later rule's is no longer, so it is not behind the other. -/
theorem Wins.eq_of_append {second : Rule} {between rest : List Rule}
    (wins : Wins before rule behind text piece)
    (also : Wins (before ++ between) second rest text other)
    (split : rule :: behind = between ++ second :: rest) : piece = other := by
  have notFarther : other.spelling.length < piece.spelling.length + 1 :=
    wins.later second (by rw [split]; simp) other.spelling also.front also.accepted
  cases between with
  | nil =>
    obtain ⟨rfl, rfl⟩ := List.cons_eq_cons.1 split
    have farther : piece.spelling.length < other.spelling.length + 1 :=
      also.later rule List.mem_cons_self piece.spelling wins.front wins.accepted
    have spelled : piece.spelling = other.spelling :=
      (List.prefix_of_prefix_length_le wins.front also.front (by omega)).eq_of_length (by omega)
    exact spelling_ext spelled (by rw [wins.made, also.made, spelled])
  | cons winner between =>
    obtain ⟨rfl, -⟩ := List.cons_eq_cons.1 split
    have shorter : piece.spelling.length < other.spelling.length :=
      also.earlier rule (by simp) piece.spelling wins.front wins.accepted
    omega

/-- Whatever the rules are, they take one piece at most. -/
theorem Longest.unique (longest : Longest rules text piece) (also : Longest rules text other) :
    piece = other := by
  obtain ⟨before, rule, behind, rfl, wins⟩ := longest
  obtain ⟨before', rule', behind', split, wins'⟩ := also
  rcases List.append_eq_append_iff.1 split with ⟨between, rfl, rest⟩ | ⟨between, rfl, rest⟩
  · exact wins.eq_of_append wins' rest
  · exact (wins'.eq_of_append wins rest).symm

/-- A rule in front of the others that does not match as far changes nothing. -/
theorem Longest.cons (longest : Longest rules text piece)
    (below : rule.Below text piece.spelling.length) : Longest (rule :: rules) text piece := by
  obtain ⟨before, winner, behind, rfl, wins⟩ := longest
  exact ⟨rule :: before, winner, behind, rfl, wins.front, wins.accepted, wins.made,
    List.forall_mem_cons.2 ⟨below, wins.earlier⟩, wins.later⟩

end

/-! ## How far a rule matches -/

section

variable {rule : Rule} {c : Char} {rest : List Char} {bound : Nat}

theorem length_le_takeWhile {continues : Char → Bool} {taken : List Char} (front : taken <+: rest)
    (all : ∀ d ∈ taken, continues d = true) : taken.length ≤ (rest.takeWhile continues).length := by
  obtain ⟨behind, rfl⟩ := front
  rw [List.takeWhile_append_of_pos all, List.length_append]
  exact Nat.le_add_right ..

theorem Rule.below_cons_iff :
    rule.Below (c :: rest) (bound + 1) ↔
      (rule.first c = true → ∀ others, others <+: rest → rule.others others = true →
        others.length < bound) := by
  constructor
  · intro below first others front accepted
    have short := below (c :: others) (List.cons_prefix_cons.2 ⟨rfl, front⟩)
      (by rw [accepts, first, accepted]; rfl)
    exact Nat.lt_of_succ_lt_succ short
  · rintro short (_ | ⟨d, others⟩) whole accepted
    · cases accepted
    · obtain ⟨rfl, front⟩ := List.cons_prefix_cons.1 whole
      obtain ⟨first, goesOn⟩ := Bool.and_eq_true_iff.1 accepted
      exact Nat.succ_lt_succ (short first others front goesOn)

theorem Rule.below_of_first (first : rule.first c = false) :
    rule.Below (c :: rest) (bound + 1) := by
  rw [below_cons_iff, first]
  rintro ⟨⟩

theorem Rule.below_single {first : Char → Bool} {shape : Shape} :
    (single first shape).Below (c :: rest) (bound + 2) := by
  rw [below_cons_iff]
  intro _ others _ empty
  rw [List.isEmpty_iff.1 empty]
  exact Nat.succ_pos bound

theorem Rule.below_many {first others : Char → Bool} {shape : List Char → Shape}
    (short : (rest.takeWhile others).length ≤ bound) :
    (many first others shape).Below (c :: rest) (bound + 2) := by
  rw [below_cons_iff]
  intro _ taken front all
  exact Nat.lt_succ_of_le ((length_le_takeWhile front (List.all_eq_true.1 all)).trans short)

theorem Rule.below_pair {first second : Char} {token : Token} :
    (pair first second token).Below (c :: rest) (bound + 3) := by
  rw [below_cons_iff]
  intro _ others _ same
  rw [of_decide_eq_true same]
  exact Nat.succ_lt_succ (Nat.succ_pos bound)

theorem Rule.below_pair_of_head {first second : Char} {token : Token}
    (missing : rest.head? ≠ some second) :
    (pair first second token).Below (c :: rest) (bound + 1) := by
  rw [below_cons_iff]
  intro _ others front same
  obtain rfl := of_decide_eq_true same
  obtain ⟨behind, rfl⟩ := front
  exact absurd rfl missing

theorem Rule.exists_of_closed {others : List Char} (accepted : closed.others others = true) :
    ∃ content, others = content ++ ['"'] ∧ ∀ d ∈ content, decide (d ≠ '"') = true := by
  obtain ⟨ends, clear⟩ := Bool.and_eq_true_iff.1 accepted
  obtain ⟨content, rfl⟩ := List.getLast?_eq_some_iff.1 (of_decide_eq_true ends)
  rw [List.dropLast_concat] at clear
  exact ⟨content, rfl, List.all_eq_true.1 clear⟩

theorem Rule.below_closed (short : (rest.takeWhile (· ≠ '"')).length ≤ bound) :
    closed.Below (c :: rest) (bound + 3) := by
  rw [below_cons_iff]
  intro _ others front accepted
  obtain ⟨content, rfl, clear⟩ := exists_of_closed accepted
  have within := length_le_takeWhile ((List.prefix_append content ['"']).trans front) clear
  rw [List.length_append]
  exact Nat.add_lt_add_of_le_of_lt (within.trans short) (by decide)

theorem Rule.below_closed_of_notMem (missing : '"' ∉ rest) :
    closed.Below (c :: rest) (bound + 1) := by
  rw [below_cons_iff]
  intro _ others front accepted
  obtain ⟨content, rfl, -⟩ := exists_of_closed accepted
  exact absurd (front.subset (by simp)) missing

end

/-! ## The rules that a first character leaves -/

section

variable {rules : List Rule} {c : Char} {rest : List Char} {bound : Nat} {piece : Piece}

theorem below_of_filter
    (below : ∀ rule ∈ rules.filter (·.first c), rule.Below (c :: rest) (bound + 1)) :
    ∀ rule ∈ rules, rule.Below (c :: rest) (bound + 1) := by
  intro rule listed
  by_cases first : rule.first c = true
  · exact below rule (List.mem_filter.2 ⟨listed, first⟩)
  · exact Rule.below_of_first (Bool.eq_false_iff.2 first)

/-- Only the rules that may begin with the first character of the text matter. -/
theorem Longest.of_filter (longest : Longest (rules.filter (·.first c)) (c :: rest) piece) :
    Longest rules (c :: rest) piece := by
  obtain ⟨before, rule, behind, split, wins⟩ := longest
  obtain ⟨front, back, rfl, rfl, kept⟩ := List.filter_eq_append_iff.1 split
  obtain ⟨skipped, behind, rfl, silent, starts, rfl⟩ := List.filter_eq_cons_iff.1 kept
  refine ⟨front ++ skipped, rule, behind, by rw [List.append_assoc], ?_⟩
  refine ⟨wins.front, wins.accepted, wins.made, below_of_filter ?earlier, below_of_filter ?later⟩
  case earlier =>
    rw [List.filter_append, List.filter_eq_nil_iff.2 silent, List.append_nil]
    exact wins.earlier
  case later =>
    rw [List.filter_cons, if_pos starts]
    exact wins.later

end

theorem rules_of_notMem {c : Char} (plain : c ∉ '"' :: signs) :
    rules.filter (·.first c) =
      ([.blanks, .atom, .word, .anything] : List Rule).filter (·.first c) := by
  simp only [signs, List.mem_cons, List.not_mem_nil, or_false, not_or] at plain
  simp [rules, List.filter_cons, Rule.closed, Rule.unclosed, Rule.many, Rule.pair, Rule.single,
    Rule.anything, plain]

theorem rules_of_isBlank {c : Char} (blank : isBlank c = true) :
    rules.filter (·.first c) = [.blanks, .anything] := by
  simp only [isBlank, Bool.or_eq_true, decide_eq_true_eq] at blank
  rcases blank with (rfl | rfl) | rfl <;> rfl

theorem notMem_of_isWordChar {c : Char} (word : isWordChar c = true) : c ∉ '"' :: signs := by
  have all : (('"' :: signs).all fun d => !isWordChar d) = true := by decide
  intro mark
  have unworded := List.all_eq_true.1 all c mark
  rw [word] at unworded
  cases unworded

theorem rules_of_isUpper {c : Char} (upper : c.isUpper = true) :
    rules.filter (·.first c) = [.atom, .anything] := by
  have word := isWordChar_of_isUpper upper
  rw [rules_of_notMem (notMem_of_isWordChar word)]
  simp [not_isBlank_of_isWordChar word, upper, not_isLower_of_isUpper upper]

theorem rules_of_isLower {c : Char} (lower : c.isLower = true) :
    rules.filter (·.first c) = [.word, .anything] := by
  have word := isWordChar_of_isLower lower
  rw [rules_of_notMem (notMem_of_isWordChar word)]
  simp [not_isBlank_of_isWordChar word, not_isUpper_of_isLower lower, lower]

theorem rules_of_unknown {c : Char} (plain : c ∉ '"' :: signs) (unblank : isBlank c = false)
    (upper : c.isUpper = false) (lower : c.isLower = false) :
    rules.filter (·.first c) = [.anything] := by
  rw [rules_of_notMem plain]
  simp [unblank, upper, lower]

/-! ## The piece that is taken -/

section

variable {c : Char} {rest : List Char}

theorem below_anything : ∀ rule ∈ [Rule.anything], rule.Below (c :: rest) 2 :=
  List.forall_mem_singleton.2 Rule.below_single

theorem longest_run {first others : Char → Bool} {shape : List Char → Shape}
    (starts : first c = true) :
    Longest [.many first others shape, .anything] (c :: rest)
      (run others (fun taken => shape (c :: taken)) c rest).1 := by
  refine ⟨[], _, _, rfl, ⟨_, spelling_run ..⟩, ?accepted, rfl, by simp, ?later⟩
  case accepted => exact Bool.and_eq_true_iff.2 ⟨starts, List.all_takeWhile⟩
  case later =>
    rw [List.forall_mem_cons, List.forall_mem_singleton]
    exact ⟨Rule.below_many le_rfl, Rule.below_single⟩

theorem longest_single {first : Char → Bool} {shape : Shape} {behind : List Rule}
    (starts : first c = true) (below : ∀ rule ∈ behind, rule.Below (c :: rest) 2) :
    Longest (.single first shape :: behind) (c :: rest) ⟨shape, c, []⟩ := by
  refine ⟨[], _, _, rfl, ⟨rest, rfl⟩, ?accepted, rfl, by simp, ?later⟩
  case accepted => exact Bool.and_eq_true_iff.2 ⟨starts, rfl⟩
  case later => exact List.forall_mem_cons.2 ⟨Rule.below_single, below⟩

theorem longest_closed {content : List Char} (inside : '"' ∉ content) :
    Longest [.closed, .unclosed, .anything] ('"' :: (content ++ '"' :: rest))
      (quoted '"' (content ++ '"' :: rest)).1 := by
  have short : ((content ++ '"' :: rest).takeWhile (· ≠ '"')).length ≤ content.length := by
    rw [takeWhile_of_notMem inside]
  rw [quoted_of_notMem inside]
  refine ⟨[], _, _, rfl, ⟨rest, by simp [spelling]⟩, ?accepted, ?made, by simp, ?later⟩
  case accepted => simpa [spelling, Rule.accepts, Rule.closed] using ne_quote_of_notMem inside
  case made => simp [spelling, Rule.closed]
  case later =>
    rw [List.forall_mem_cons, List.forall_mem_cons, List.forall_mem_singleton, spelling,
      List.length_cons, List.length_append]
    exact ⟨Rule.below_closed short, Rule.below_many (Nat.le_succ_of_le short), Rule.below_single⟩

theorem quoted_of_missing (missing : '"' ∉ rest) :
    quoted '"' rest = run (· ≠ '"') (fun _ => .unterminated) '"' rest := by
  have all := List.dropWhile_eq_nil_iff.2 (ne_quote_of_notMem missing)
  unfold quoted run
  rw [all]

theorem longest_quoted :
    Longest [.closed, .unclosed, .anything] ('"' :: rest) (quoted '"' rest).1 := by
  by_cases closes : '"' ∈ rest
  · obtain ⟨content, behind, rfl, inside⟩ := List.eq_append_cons_of_mem closes
    exact longest_closed inside
  · rw [quoted_of_missing closes]
    exact (longest_run rfl).cons (Rule.below_closed_of_notMem closes)

/-- A sign of two characters, with its second character or without. -/
theorem longest_double {first : Char → Bool} {d : Char} {token : Token} (starts : first c = true)
    (whole : ∀ behind, front c (d :: behind) = (⟨.token token, c, [d]⟩, behind))
    (half : rest.head? ≠ some d → front c rest = (⟨.incomplete, c, []⟩, rest)) :
    Longest [.pair c d token, .single first .incomplete, .anything] (c :: rest)
      (front c rest).1 := by
  by_cases completed : rest.head? = some d
  · obtain ⟨behind, rfl⟩ := List.head?_eq_some_iff.1 completed
    rw [whole]
    refine ⟨[], _, _, rfl, ⟨behind, rfl⟩, ?accepted, rfl, by simp, ?later⟩
    case accepted => simp [spelling, Rule.accepts, Rule.pair]
    case later =>
      rw [List.forall_mem_cons, List.forall_mem_cons, List.forall_mem_singleton]
      exact ⟨Rule.below_pair, Rule.below_single, Rule.below_single⟩
  · rw [half completed]
    exact (longest_single starts below_anything).cons (Rule.below_pair_of_head completed)

end

theorem signed_of_half {c : Char} {rest : List Char} (half : c = ':' ∨ c = '-')
    (assigns : c = ':' → rest.head? ≠ some '=') (arrows : c = '-' → rest.head? ≠ some '>') :
    signed c rest = (⟨.incomplete, c, []⟩, rest) := by
  have incomplete : (c = ':' || c = '-') = true := by simpa using half
  rw [signed.eq_3 c rest, if_pos incomplete]
  · rintro behind colon rfl
    exact assigns colon rfl
  · rintro behind dash rfl
    exact arrows dash rfl

theorem front_of_notMem {c : Char} (plain : c ∉ '"' :: signs) (unblank : isBlank c = false)
    (upper : c.isUpper = false) (lower : c.isLower = false) (rest : List Char) :
    front c rest = (⟨.unknown, c, []⟩, rest) := by
  obtain ⟨unquoted, unsigned⟩ := not_or.1 (mt List.mem_cons.2 plain)
  have none : sign? c = none := by
    unfold sign?
    split
    all_goals first | rfl | exact absurd (by decide) unsigned
  have half : ¬ (c = ':' || c = '-') = true := by
    rw [Bool.or_eq_true, decide_eq_true_eq, decide_eq_true_eq]
    rintro (rfl | rfl) <;> exact unsigned (by decide)
  simp only [front, unblank, upper, lower, unquoted, Bool.false_eq_true, if_false]
  rw [signed.eq_3 c rest, if_neg half, none]
  · rintro others rfl
    exact absurd (by decide) unsigned
  · rintro others rfl
    exact absurd (by decide) unsigned

/-- What the rules of the language take off the front of a text. -/
theorem longest_front (c : Char) (rest : List Char) :
    Longest rules (c :: rest) (front c rest).1 := by
  apply Longest.of_filter
  -- a quote or a sign decides by itself which rules it leaves, other characters by their class
  by_cases mark : c ∈ '"' :: signs
  · simp only [signs, List.mem_cons, List.not_mem_nil, or_false] at mark
    rcases mark with rfl | rfl | rfl | single
    · exact longest_quoted
    · exact longest_double rfl (fun _ => rfl) fun missing =>
        signed_of_half (.inl rfl) (fun _ => missing) nofun
    · exact longest_double rfl (fun _ => rfl) fun missing =>
        signed_of_half (.inr rfl) nofun fun _ => missing
    · rcases single with rfl | rfl | rfl | rfl | rfl | rfl | rfl | rfl | rfl | rfl | rfl
      all_goals exact longest_single rfl below_anything
  by_cases blank : isBlank c = true
  · rw [rules_of_isBlank blank, front_of_isBlank blank]
    exact longest_run blank
  by_cases upper : c.isUpper = true
  · rw [rules_of_isUpper upper, front_of_isUpper upper]
    exact longest_run upper
  by_cases lower : c.isLower = true
  · rw [rules_of_isLower lower, front_of_isLower lower]
    exact longest_run lower
  rw [Bool.not_eq_true] at blank upper lower
  rw [rules_of_unknown mark blank upper lower, front_of_notMem mark blank upper lower rest]
  exact longest_single rfl (by simp)

/-- The piece at the front of a text is the longest match of the first rule that has it. -/
theorem longest_iff {c : Char} {rest : List Char} {piece : Piece} :
    Longest rules (c :: rest) piece ↔ (front c rest).1 = piece :=
  ⟨(longest_front c rest).unique, fun same => same ▸ longest_front c rest⟩

/-! ## Whole texts -/

/-- Pieces that make up a text, each taken as the longest match at the front of what is left. -/
inductive Munched : List Char → List Piece → Prop
  | nil : Munched [] []
  | cons {piece : Piece} {rest : List Char} {pieces : List Piece} :
      Longest rules (piece.spelling ++ rest) piece → Munched rest pieces →
        Munched (piece.spelling ++ rest) (piece :: pieces)

/-- A text falls into the pieces that the rules take off its front, one after the other. -/
theorem munched_iff {text : List Char} {pieces : List Piece} :
    Munched text pieces ↔ split text = pieces := by
  constructor
  · intro munched
    induction munched with
    | nil => rw [split]
    | @cons piece rest pieces longest _ ih =>
      have taken : (front piece.first (piece.others ++ rest)).1 = piece := longest_iff.1 longest
      have whole := spelling_front piece.first (piece.others ++ rest)
      rw [taken] at whole
      have leads : piece.Leads rest := Prod.ext taken (List.append_cancel_left whole)
      rw [split_of_leads leads, ih]
  · rintro rfl
    fun_induction split text with
    | case1 => exact .nil
    | case2 c rest ih =>
      have longest := longest_front c rest
      rw [← spelling_front c rest] at longest ⊢
      exact .cons longest ih

end Piece

end Entailment
