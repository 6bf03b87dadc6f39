/-!
# Command-line options

The options of the command and the paths it is given.  Options may stand anywhere in front of a
`--`; each may be given once, and none may be shortened.
-/

namespace Entailment

/-- What the command line asks for. -/
structure Options where
  paths : List String := []
  /-- Report a failing line and carry on with the next one. -/
  keepGoing : Bool := false
  /-- How many distinct atoms an answer may enumerate at most. -/
  limit : Option Nat := none
  deriving DecidableEq

/-- A single thing that words of a command line ask for. -/
inductive Request where
  | path (name : String)
  | keepGoing
  | limit (count : Nat)
  deriving DecidableEq

namespace Request

def path? : Request → Option String
  | path name => some name
  | _ => none

def limit? : Request → Option Nat
  | limit count => some count
  | _ => none

def dropPlus : List Char → List Char
  | '+' :: digits => digits
  | digits => digits

/-- A count in decimal digits, possibly behind a plus sign, that fits into 64 bits. -/
def count? (text : String) : Option Nat :=
  let digits := dropPlus text.toList
  let count := Nat.ofDigitChars 10 digits 0
  if !digits.isEmpty && digits.all Char.isDigit && count < UInt64.size then some count else none

/-- A path may be a dash, but it may not begin with one otherwise. -/
def isPath (word : String) : Bool :=
  word ≠ "" && (word = "-" || word.toList.head? ≠ some '-')

/-- What a word asks for that needs no other word. -/
def ofWord? (word : String) : Option Request :=
  if word = "-k" ∨ word = "--keep-going" then some keepGoing
  else
    match "--variable-limit=".toList.isPrefixOf? word.toList with
    | some text => (count? (.ofList text)).map limit
    | none => if isPath word then some (path word) else none

/-- What the words of a command line ask for.  Behind `--` all of them are paths. -/
def ofWords? : List String → Option (List Request)
  | [] => some []
  | "--" :: paths => if "" ∈ paths then none else some (paths.map path)
  | "--variable-limit" :: words =>
    match words with
    | [] => none
    | text :: words => do
      let count ← count? text
      return limit count :: (← ofWords? words)
  | word :: words => do
    let request ← ofWord? word
    return request :: (← ofWords? words)

end Request

namespace Options

/-- The options that are asked for, unless one is asked for twice. -/
def ofRequests? (requests : List Request) : Option Options :=
  let limits := requests.filterMap Request.limit?
  if requests.count .keepGoing ≤ 1 ∧ limits.length ≤ 1 then
    some {
      paths := requests.filterMap Request.path?
      keepGoing := requests.contains .keepGoing
      limit := limits.head? }
  else none

/-- The options of a command line, or `none` if it cannot be understood. -/
def ofWords? (words : List String) : Option Options := Request.ofWords? words >>= ofRequests?

end Options

end Entailment
