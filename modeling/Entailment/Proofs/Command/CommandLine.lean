import Mathlib.Data.List.TakeWhile
import Entailment.Command.Options

/-!
# Command lines

What the command line may say, by a grammar, and that whatever options there are can be said.

* `Request.count?_eq_some_iff`: the numerals that denote a count.
* `Request.ofWords?_eq_some_iff`: words are understood by the grammar.

Main statements: `Options.ofWords?_eq_some_iff` and `Options.ofWords?_words`.
-/

namespace Entailment

namespace Request

/-- Digits, possibly behind a plus sign, that denote a count of 64 bits. -/
def Denotes (text : String) (count : Nat) : Prop :=
  ∃ digits, (text.toList = digits ∨ text.toList = '+' :: digits) ∧ digits ≠ [] ∧
    (∀ c ∈ digits, c.isDigit = true) ∧ Nat.ofDigitChars 10 digits 0 = count ∧ count < UInt64.size

/-- A word that asks for something without another word.  A dash may be a path, but no other path
begins with one. -/
inductive SaysAlone : String → Request → Prop
  | path {name : String} :
      name ≠ "" → name = "-" ∨ name.toList.head? ≠ some '-' → SaysAlone name (path name)
  | keepGoing {word : String} : word = "-k" ∨ word = "--keep-going" → SaysAlone word keepGoing
  | limit {text : String} {count : Nat} :
      Denotes text count → SaysAlone ("--variable-limit=" ++ text) (limit count)

/-- What words ask for, one after the other. -/
inductive Says : List String → List Request → Prop
  | nil : Says [] []
  | paths {names : List String} : "" ∉ names → Says ("--" :: names) (names.map path)
  | alone {word : String} {request : Request} {words : List String} {requests : List Request} :
      SaysAlone word request → Says words requests → Says (word :: words) (request :: requests)
  | limit {text : String} {count : Nat} {words : List String} {requests : List Request} :
      Denotes text count → Says words requests →
        Says ("--variable-limit" :: text :: words) (limit count :: requests)

/-! ## Counts -/

theorem dropPlus_of_isDigit {digits : List Char} (all : ∀ c ∈ digits, c.isDigit = true) :
    dropPlus digits = digits := by
  unfold dropPlus
  split
  · exact absurd (all '+' List.mem_cons_self) (by decide)
  · rfl

theorem eq_dropPlus_or (text : List Char) : text = dropPlus text ∨ text = '+' :: dropPlus text := by
  unfold dropPlus
  split
  · exact .inr rfl
  · exact .inl rfl

theorem count?_eq_some_iff {text : String} {count : Nat} :
    count? text = some count ↔ Denotes text count := by
  unfold count?
  simp only [Option.ite_none_right_eq_some, Bool.and_eq_true, Option.some.injEq]
  constructor
  · rintro ⟨⟨⟨nonempty, digits⟩, small⟩, rfl⟩
    exact ⟨_, eq_dropPlus_or _, by simpa using nonempty, List.all_eq_true.1 digits, rfl,
      of_decide_eq_true small⟩
  · rintro ⟨digits, spelled, nonempty, all, rfl, small⟩
    have dropped : dropPlus text.toList = digits := by
      rcases spelled with spelled | spelled
      · rw [spelled, dropPlus_of_isDigit all]
      · rw [spelled, dropPlus]
    rw [dropped]
    simpa [nonempty, small] using all

theorem denotes_repr {count : Nat} (small : count < UInt64.size) : Denotes count.repr count := by
  refine ⟨_, .inl rfl, ?_⟩
  rw [Nat.toList_repr]
  exact ⟨Nat.toDigits_ne_nil, fun _ => Nat.isDigit_of_mem_toDigits (by decide) (by decide),
    Nat.ofDigitChars_toDigits (by decide) (by decide), small⟩

/-! ## Words -/

theorem isPrefixOf?_eq_some_iff {front text rest : List Char} :
    front.isPrefixOf? text = some rest ↔ text = front ++ rest := by
  induction front generalizing text with
  | nil =>
    show some text = some rest ↔ text = rest
    exact Option.some_inj
  | cons c front ih =>
    cases text with
    | nil => exact ⟨nofun, nofun⟩
    | cons d text =>
      show (if c == d then front.isPrefixOf? text else none) = some rest ↔ _
      by_cases same : c = d
      · simp [same, ih]
      · have other : d ≠ c := fun h => same h.symm
        simp [same, other]

theorem isPath_iff {word : String} :
    isPath word = true ↔ word ≠ "" ∧ (word = "-" ∨ word.toList.head? ≠ some '-') := by
  simp [isPath]

theorem toList_ne_of_plain {name : String} (plain : name = "-" ∨ name.toList.head? ≠ some '-')
    (c : Char) (rest : List Char) : name.toList ≠ '-' :: c :: rest := by
  intro dashed
  rcases plain with rfl | plain
  · cases dashed
  · exact plain (by rw [dashed]; rfl)

theorem attached_ne {text word : String}
    (different : ¬ "--variable-limit=".toList <+: word.toList) :
    "--variable-limit=" ++ text ≠ word := by
  rintro rfl
  apply different
  rw [String.toList_append]
  exact List.prefix_append ..

theorem ofWord?_eq_some_iff {word : String} {request : Request} :
    ofWord? word = some request ↔ SaysAlone word request := by
  constructor
  · intro h
    unfold ofWord? at h
    split at h
    · next flag =>
      cases h
      exact .keepGoing flag
    · split at h
      · next text spelled =>
        obtain ⟨count, denoted, rfl⟩ := Option.map_eq_some_iff.1 h
        have whole : word = "--variable-limit=" ++ String.ofList text := by
          rw [← String.toList_inj, isPrefixOf?_eq_some_iff.1 spelled]
          simp
        rw [whole]
        exact .limit (count?_eq_some_iff.1 denoted)
      · split at h
        · next path =>
          cases h
          obtain ⟨nonempty, plain⟩ := isPath_iff.1 path
          exact .path nonempty plain
        · cases h
  · intro said
    cases said with
    | path nonempty plain =>
      -- options are looked for first, and they open with a dash that something follows
      have dashed := toList_ne_of_plain plain
      have noFlag : ¬ (word = "-k" ∨ word = "--keep-going") := by
        rintro (rfl | rfl)
        · exact dashed _ _ rfl
        · exact dashed _ _ rfl
      have noLimit : "--variable-limit=".toList.isPrefixOf? word.toList = none := by
        rw [Option.eq_none_iff_forall_ne_some]
        intro text spelled
        exact dashed _ _ (isPrefixOf?_eq_some_iff.1 spelled)
      rw [ofWord?, if_neg noFlag, noLimit]
      exact if_pos (isPath_iff.2 ⟨nonempty, plain⟩)
    | keepGoing flag => rw [ofWord?, if_pos flag]
    | @limit text count denoted =>
      have spelled : "--variable-limit=".toList.isPrefixOf? ("--variable-limit=" ++ text).toList =
          some text.toList := by
        rw [isPrefixOf?_eq_some_iff, String.toList_append]
      have noFlag : ¬ ("--variable-limit=" ++ text = "-k" ∨
          "--variable-limit=" ++ text = "--keep-going") :=
        not_or.2 ⟨attached_ne (by decide), attached_ne (by decide)⟩
      rw [ofWord?, if_neg noFlag, spelled]
      simp [count?_eq_some_iff.2 denoted]

/-- Neither the end of the options nor an option that needs another word is said alone. -/
theorem SaysAlone.ne {word : String} {request : Request} (said : SaysAlone word request) :
    word ≠ "--" ∧ word ≠ "--variable-limit" := by
  cases said with
  | path nonempty plain =>
    have dashed := toList_ne_of_plain plain
    constructor
    · rintro rfl
      exact dashed _ _ rfl
    · rintro rfl
      exact dashed _ _ rfl
  | keepGoing flag => rcases flag with rfl | rfl <;> decide
  | limit denoted => exact ⟨attached_ne (by decide), attached_ne (by decide)⟩

/-- The words of a command line are understood just as the grammar says. -/
theorem ofWords?_eq_some_iff {words : List String} {requests : List Request} :
    ofWords? words = some requests ↔ Says words requests := by
  constructor
  · intro h
    fun_induction ofWords? words generalizing requests with
    | case1 =>
      cases h
      exact .nil
    | case2 => cases h
    | case3 names named =>
      cases h
      exact .paths named
    | case4 => cases h
    | case5 text words ih =>
      obtain ⟨count, denoted, h⟩ := Option.bind_eq_some_iff.1 h
      obtain ⟨others, said, same⟩ := Option.bind_eq_some_iff.1 h
      cases same
      exact .limit (count?_eq_some_iff.1 denoted) (ih said)
    | case6 word words _ _ ih =>
      obtain ⟨request, first, h⟩ := Option.bind_eq_some_iff.1 h
      obtain ⟨others, said, same⟩ := Option.bind_eq_some_iff.1 h
      cases same
      exact .alone (ofWord?_eq_some_iff.1 first) (ih said)
  · intro said
    induction said with
    | nil => rfl
    | paths named => rw [ofWords?, if_neg named]
    | alone first _ ih =>
      rw [ofWords?.eq_5 _ _ first.ne.1 first.ne.2, ofWord?_eq_some_iff.2 first, ih]
      rfl
    | limit denoted _ ih =>
      rw [ofWords?, count?_eq_some_iff.2 denoted, ih]
      rfl

end Request

namespace Options

open Request

theorem mem_limits_iff {requests : List Request} {count : Nat} :
    count ∈ requests.filterMap limit? ↔ .limit count ∈ requests := by
  rw [List.mem_filterMap]
  constructor
  · rintro ⟨request, listed, counts⟩
    cases request <;> cases counts
    exact listed
  · intro listed
    exact ⟨_, listed, rfl⟩

theorem head?_eq_some_iff_of_length_le_one {α : Type} {items : List α} {item : α}
    (few : items.length ≤ 1) : items.head? = some item ↔ item ∈ items := by
  rcases items with _ | ⟨first, _ | ⟨second, others⟩⟩
  · simp
  · simp [eq_comm]
  · simp at few

theorem ofRequests?_eq_some_iff {requests : List Request} {options : Options} :
    ofRequests? requests = some options ↔
      requests.count .keepGoing ≤ 1 ∧ (requests.filterMap limit?).length ≤ 1 ∧
      options.paths = requests.filterMap path? ∧
      (options.keepGoing = true ↔ .keepGoing ∈ requests) ∧
      ∀ count, options.limit = some count ↔ .limit count ∈ requests := by
  unfold ofRequests?
  constructor
  · intro h
    simp only [Option.ite_none_right_eq_some, Option.some.injEq] at h
    obtain ⟨⟨once, few⟩, rfl⟩ := h
    refine ⟨once, few, rfl, by simp, fun count => ?_⟩
    rw [head?_eq_some_iff_of_length_le_one few, mem_limits_iff]
  · rintro ⟨once, few, paths, going, limits⟩
    rw [if_pos ⟨once, few⟩]
    have limit : (requests.filterMap limit?).head? = options.limit := by
      ext1 count
      rw [head?_eq_some_iff_of_length_le_one few, mem_limits_iff, limits]
    have keepGoing : requests.contains .keepGoing = options.keepGoing := by
      rw [Bool.eq_iff_iff, going, List.contains_iff_mem]
    rw [← paths, limit, keepGoing]

/-- The command line is understood just if it says things by the grammar, of which one at most is to
keep going and one at most is a limit.  The options are what it says. -/
theorem ofWords?_eq_some_iff {words : List String} {options : Options} :
    ofWords? words = some options ↔ ∃ requests, Says words requests ∧
      requests.count .keepGoing ≤ 1 ∧ (requests.filterMap limit?).length ≤ 1 ∧
      options.paths = requests.filterMap path? ∧
      (options.keepGoing = true ↔ .keepGoing ∈ requests) ∧
      ∀ count, options.limit = some count ↔ .limit count ∈ requests := by
  unfold ofWords?
  rw [Option.bind_eq_bind, Option.bind_eq_some_iff]
  simp only [Request.ofWords?_eq_some_iff, ofRequests?_eq_some_iff]

/-! ## Every choice of options can be said -/

/-- Words that say what the options are. -/
def words (options : Options) : List String :=
  (if options.keepGoing then ["--keep-going"] else []) ++
    (options.limit.elim [] fun count => ["--variable-limit", count.repr]) ++ "--" :: options.paths

def requests (options : Options) : List Request :=
  (if options.keepGoing then [.keepGoing] else []) ++
    (options.limit.elim [] fun count => [.limit count]) ++ options.paths.map .path

theorem says_words {options : Options} (named : "" ∉ options.paths)
    (small : ∀ count ∈ options.limit, count < UInt64.size) :
    Says options.words options.requests := by
  obtain ⟨paths, keepGoing, limit⟩ := options
  have limited :
      Says ((limit.elim [] fun count => ["--variable-limit", count.repr]) ++ "--" :: paths)
        ((limit.elim [] fun count => [.limit count]) ++ paths.map .path) := by
    cases limit with
    | none => exact .paths named
    | some count => exact .limit (denotes_repr (small count rfl)) (.paths named)
  unfold words requests
  rw [List.append_assoc, List.append_assoc]
  cases keepGoing with
  | false => exact limited
  | true => exact .alone (.keepGoing (.inr rfl)) limited

/-- Whatever the options are, there is a command line for them, unless a path is empty or the limit
does not fit into 64 bits. -/
theorem ofWords?_words {options : Options} (named : "" ∉ options.paths)
    (small : ∀ count ∈ options.limit, count < UInt64.size) :
    ofWords? options.words = some options := by
  refine ofWords?_eq_some_iff.2 ⟨_, says_words named small, ?_⟩
  obtain ⟨paths, keepGoing, limit⟩ := options
  have kept : (paths.map Request.path).filterMap path? = paths := by
    rw [List.filterMap_map]
    exact List.filterMap_some
  have unlimited : (paths.map Request.path).filterMap limit? = [] := by
    simp [List.filterMap_eq_nil_iff, limit?]
  have stopping : (paths.map Request.path).count .keepGoing = 0 := by
    simp [List.count_eq_zero]
  cases keepGoing <;> cases limit <;>
    simp [requests, List.filterMap_cons, path?, limit?, kept, unlimited, stopping, @eq_comm Nat]

end Options

end Entailment
