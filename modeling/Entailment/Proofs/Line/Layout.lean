import Mathlib.Data.List.Chain
import Entailment.Proofs.Line.Pieces

/-!
# Well laid lines

The layout of a line, said of its tokens as a whole: the first one may open a line, each may follow
the one before it, `∴` stands once at most, every bracket that is closed was opened and the other
way round, and the last token needs nothing behind it.

* `Layout.check_eq_ok_iff`: the walk over the lexemes of a line accepts just the tokens that are
  well laid.
* `Line.ofText_eq_ok_iff`: which texts are read as lines.
* `Line.ofText_of_laid`: a text with lexemes that are well laid is one.
-/

namespace Entailment

namespace Token

def Follows (first second : Token) : Prop := first.kind.allows second.kind = true

/-- The number of open brackets behind a token, if it closes none that is not open. -/
def depthBehind (depth : Nat) : Token → Option Nat
  | leftParenthesis => some (depth + 1)
  | rightParenthesis => if depth = 0 then none else some (depth - 1)
  | _ => some depth

/-- The tokens of a line that is complete and in order. -/
structure Laid (tokens : List Token) : Prop where
  opens : ∀ token ∈ tokens.head?, token.kind.startsLine = true
  follows : tokens.IsChain Follows
  concludes : tokens.count therefore ≤ 1
  balanced : tokens.foldlM depthBehind 0 = some 0
  complete : Kind.expectsMore (tokens.reverse.map kind) = false

end Token

namespace Layout

open Token (Follows depthBehind Laid)

/-- The three checks on a lexeme, in the order in which they are made. -/
theorem place_eq (line : String) (layout : Layout) (lexeme : Lexeme) :
    layout.place line lexeme =
      if layout.admits lexeme.kind = false then
        .error (.symbol lexeme.spelling (layout.last.getD lexeme).stop line)
      else if lexeme.token = .therefore ∧ layout.concluded = true then
        .error (lexeme.unexpected line)
      else match depthBehind layout.depth lexeme.token with
        | none => .error (lexeme.unexpected line)
        | some depth =>
          .ok ⟨some lexeme, depth, layout.concluded || lexeme.token = .therefore⟩ := by
  rcases layout with ⟨last, depth, concluded⟩
  rcases lexeme with ⟨token, spelling, position⟩
  unfold place
  cases admitted : admits ⟨last, depth, concluded⟩ (Lexeme.kind ⟨token, spelling, position⟩) with
  | false => rfl
  | true =>
    cases token
    case therefore => cases concluded <;> rfl
    case rightParenthesis => cases depth <;> simp [Lexeme.kind, Token.kind, depthBehind]
    all_goals simp [Lexeme.kind, Token.kind, depthBehind]

theorem place_eq_ok_iff {line : String} {layout after : Layout} {lexeme : Lexeme} :
    layout.place line lexeme = .ok after ↔
      layout.admits lexeme.kind = true ∧
      ¬ (lexeme.token = .therefore ∧ layout.concluded = true) ∧
      ∃ depth, depthBehind layout.depth lexeme.token = some depth ∧
        after = ⟨some lexeme, depth, layout.concluded || lexeme.token = .therefore⟩ := by
  rw [place_eq]
  split
  · next refused => simp [refused]
  · next admitted =>
    rw [Bool.not_eq_false] at admitted
    split
    · next twice => simp [twice]
    · next once =>
      cases depthBehind layout.depth lexeme.token with
      | none => simp
      | some depth =>
        constructor
        · rintro ⟨⟩
          exact ⟨admitted, once, depth, rfl, rfl⟩
        · rintro ⟨-, -, _, ⟨⟩, rfl⟩
          rfl

/-- The number of `∴` placed so far counts as well: the walk is given it as a flag. -/
theorem count_cons_add_toNat (token : Token) (tokens : List Token) (concluded : Bool) :
    (token :: tokens).count .therefore + concluded.toNat ≤ 1 ↔
      ¬ (token = .therefore ∧ concluded = true) ∧
      tokens.count .therefore + (concluded || token = .therefore).toNat ≤ 1 := by
  rw [List.count_cons]
  by_cases same : token = .therefore
  · cases concluded <;> simp [same]
  · simp [same]

theorem foldlM_place_eq_ok_iff {line : String} {lexemes : List Lexeme} {layout : Layout}
    {depth : Nat} :
    (∃ after, lexemes.foldlM (place line) layout = .ok after ∧ after.depth = depth) ↔
      (∀ token ∈ (lexemes.map Lexeme.token).head?, layout.admits token.kind = true) ∧
      (lexemes.map Lexeme.token).IsChain Follows ∧
      (lexemes.map Lexeme.token).count .therefore + layout.concluded.toNat ≤ 1 ∧
      (lexemes.map Lexeme.token).foldlM depthBehind layout.depth = some depth := by
  induction lexemes generalizing layout with
  | nil =>
    have once : layout.concluded.toNat ≤ 1 := layout.concluded.toNat_le
    simp [pure, Except.pure, once]
  | cons lexeme others ih =>
    rw [List.map_cons, List.isChain_cons, count_cons_add_toNat, List.foldlM_cons, List.foldlM_cons]
    constructor
    · rintro ⟨after, h, rfl⟩
      cases placed : layout.place line lexeme with
      | error failure =>
        rw [placed] at h
        cases h
      | ok next =>
        rw [placed] at h
        obtain ⟨admitted, once, depth, opened, rfl⟩ := place_eq_ok_iff.1 placed
        obtain ⟨follows, chain, single, balanced⟩ := ih.1 ⟨after, h, rfl⟩
        refine ⟨?_, ⟨follows, chain⟩, ⟨once, single⟩, ?_⟩
        · rintro token ⟨⟩
          exact admitted
        · rw [opened]
          exact balanced
    · rintro ⟨admitted, ⟨follows, chain⟩, ⟨once, single⟩, balanced⟩
      cases opened : depthBehind layout.depth lexeme.token with
      | none =>
        rw [opened] at balanced
        cases balanced
      | some next =>
        rw [opened] at balanced
        rw [place_eq_ok_iff.2 ⟨admitted _ rfl, once, next, opened, rfl⟩]
        exact ih.2 ⟨follows, chain, single, balanced⟩

theorem map_kind_reverse (lexemes : List Lexeme) :
    lexemes.reverse.map Lexeme.kind = (lexemes.map Lexeme.token).reverse.map Token.kind := by
  rw [← List.map_reverse, List.map_map]
  rfl

theorem check_eq_ok_iff_walk {line : String} {lexemes : List Lexeme} :
    check line lexemes = .ok () ↔
      (∃ after, lexemes.foldlM (place line) {} = .ok after ∧ after.depth = 0) ∧
      Kind.expectsMore (lexemes.reverse.map Lexeme.kind) = false := by
  unfold check
  cases lexemes.foldlM (place line) {} with
  | error failure => simp [bind, Except.bind]
  | ok after =>
    simp only [bind, Except.bind, Except.ok.injEq, exists_eq_left']
    cases Kind.expectsMore (lexemes.reverse.map Lexeme.kind) with
    | true => simp [throw, throwThe, MonadExceptOf.throw]
    | false =>
      by_cases closed : after.depth = 0
      · simp [closed, pure, Except.pure]
      · simp [closed, Nat.pos_of_ne_zero closed, throw, throwThe, MonadExceptOf.throw]

/-- The walk over the lexemes of a line accepts just the tokens that are well laid. -/
theorem check_eq_ok_iff {line : String} {lexemes : List Lexeme} :
    check line lexemes = .ok () ↔ Laid (lexemes.map Lexeme.token) := by
  rw [check_eq_ok_iff_walk, foldlM_place_eq_ok_iff, map_kind_reverse]
  constructor
  · rintro ⟨⟨opens, follows, concludes, balanced⟩, complete⟩
    exact ⟨opens, follows, concludes, balanced, complete⟩
  · rintro ⟨opens, follows, concludes, balanced, complete⟩
    exact ⟨⟨opens, follows, concludes, balanced⟩, complete⟩

end Layout

/-- A text is read as a line when it is a remark, or when its lexemes are well laid. -/
theorem Line.ofText_eq_ok_iff {text : String} {line : Line} :
    Line.ofText text = .ok line ↔
      (Line.isRemark text = true ∧ line = ⟨text, []⟩) ∨
      (Line.isRemark text = false ∧ ∃ lexemes, Lexeme.scan text = .ok lexemes ∧
        Token.Laid (lexemes.map Lexeme.token) ∧ line = ⟨text, lexemes⟩) := by
  unfold Line.ofText
  cases Line.isRemark text with
  | true => simp [pure, Except.pure, eq_comm]
  | false =>
    cases Lexeme.scan text with
    | error failure => simp [bind, Except.bind]
    | ok lexemes =>
      cases checked : Layout.check text lexemes with
      | error failure =>
        have unlaid : ¬ Token.Laid (lexemes.map Lexeme.token) := by
          rw [← Layout.check_eq_ok_iff, checked]
          exact nofun
        simp [bind, Except.bind, checked, unlaid]
      | ok done =>
        have laid := Layout.check_eq_ok_iff.1 checked
        simp [bind, Except.bind, checked, laid, pure, Except.pure, eq_comm]

/-- A text whose lexemes are well laid is read as the line of these lexemes, also when there are
none. -/
theorem Line.ofText_of_laid {text : String} {lexemes : List Lexeme}
    (scanned : Lexeme.scan text = .ok lexemes) (laid : Token.Laid (lexemes.map Lexeme.token)) :
    Line.ofText text = .ok ⟨text, lexemes⟩ := by
  rw [Line.ofText_eq_ok_iff]
  cases remark : Line.isRemark text with
  | false => exact .inr ⟨rfl, lexemes, scanned, laid, rfl⟩
  | true =>
    have none : lexemes = [] := by
      cases lexemes with
      | nil => rfl
      | cons lexeme others =>
        rw [Line.isRemark_eq_false_of_scan scanned] at remark
        cases remark
    exact .inl ⟨rfl, by rw [none]⟩

end Entailment
