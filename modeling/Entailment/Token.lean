import Entailment.Formula
import Entailment.Query

/-!
# Tokens

The words and signs that lines are made of, with their written form and the words reserved for some
of them.  `Kind` forgets the names and texts that tokens carry.
-/

namespace Entailment

inductive Token where
  | atom (name : String)
  | identifier (name : String)
  | text (content : String)
  | truth (value : Bool)
  | argument
  | query (query : Query)
  | is
  | print
  | assign
  | not
  | connective (connective : Connective)
  | therefore
  | leftParenthesis
  | rightParenthesis
  | comma
  deriving DecidableEq

/-- A token without the name or text it carries. -/
inductive Kind where
  | atom
  | identifier
  | text
  | truth (value : Bool)
  | argument
  | query (query : Query)
  | is
  | print
  | assign
  | not
  | connective (connective : Connective)
  | therefore
  | leftParenthesis
  | rightParenthesis
  | comma
  deriving DecidableEq

namespace Token

def kind : Token → Kind
  | atom _ => .atom
  | identifier _ => .identifier
  | text _ => .text
  | truth value => .truth value
  | argument => .argument
  | query q => .query q
  | is => .is
  | print => .print
  | assign => .assign
  | not => .not
  | connective c => .connective c
  | therefore => .therefore
  | leftParenthesis => .leftParenthesis
  | rightParenthesis => .rightParenthesis
  | comma => .comma

/-- The written form.  A sign that has several spellings is written with its logical symbol. -/
def render : Token → String
  | atom name => name
  | identifier name => name
  | text content => "\"" ++ content ++ "\""
  | truth value => toString value
  | argument => "argument"
  | query q => q.keyword
  | is => "is"
  | print => "print"
  | assign => ":="
  | not => "¬"
  | connective c => c.sign
  | therefore => "∴"
  | leftParenthesis => "("
  | rightParenthesis => ")"
  | comma => ","

def keywords : List (String × Token) :=
  [("argument", argument), ("assert", query .tautology), ("validate", query .validity),
    ("valuate", query .value), ("is", is), ("print", print), ("true", truth true),
    ("false", truth false), ("therefore", therefore)]

def keyword? (word : String) : Option Token := keywords.lookup word

/-- The token of a lower-case word: what it is reserved for, or an identifier. -/
def ofWord (word : String) : Token := (keyword? word).getD (identifier word)

/-- A formula ends in front of such a token. -/
def endsFormula : Token → Bool
  | comma | rightParenthesis | therefore => true
  | _ => false

/-- The connective that a token stands for between two formulas.  Any token may stand there, and one
that names no connective is read as a conditional. -/
def asConnective : Token → Connective
  | connective c => c
  | _ => .conditional

end Token

end Entailment
