import Entailment.Command.Content

/-!
# Reading paths

What reading a path gives in a tree of files.  A path is walked name by name, from the root if it
opens with a slash and from the working directory if not.
-/

namespace Entailment

namespace Path

/-- The names that slashes separate in a path: the first one, and those behind it.  Next to another
slash, and at either end, a slash has an empty name. -/
def split : List Char → List Char × List (List Char)
  | [] => ([], [])
  | c :: rest =>
    let (first, others) := split rest
    if c = '/' then ([], first :: others) else (c :: first, others)

def names (path : String) : List String :=
  let (first, others) := split path.toList
  (first :: others).map String.ofList

end Path

/-- The names on the way from the root to a file or a directory. -/
abbrev Place := List String

/-- The bytes of the files by their places.  The directories are the places on the way to a file or
to the working directory. -/
structure FileTree where
  files : List (Place × ByteArray)
  working : Place := []

namespace FileTree

inductive Entry where
  | file (bytes : ByteArray)
  | directory

/-- What is at a place, if anything is. -/
def find? (tree : FileTree) (place : Place) : Option Entry :=
  match tree.files.lookup place with
  | some bytes => some (.file bytes)
  | none =>
    if (tree.working :: tree.files.map Prod.fst).any place.isPrefixOf then some .directory else none

/-- How many bytes a name may have. -/
def maxName : Nat := 255

/-- How many bytes a path may have. -/
def maxPath : Nat := 4095

/-- The place that a name leads to from a place, which has to be a directory.  Two dots lead up, but
not beyond the root; one dot and the empty name stay. -/
def step (tree : FileTree) (place : Place) (name : String) : Except Refusal Place :=
  match tree.find? place with
  | none => .error .missing
  | some (.file _) => .error .notDirectory
  | some .directory =>
    if name = "" ∨ name = "." then .ok place
    else if name = ".." then .ok place.dropLast
    else if name.utf8ByteSize > maxName then .error .nameTooLong
    else .ok (place ++ [name])

def start (tree : FileTree) (path : String) : Place :=
  if path.toList.head? = some '/' then [] else tree.working

def walk (tree : FileTree) (path : String) : Except Refusal Place :=
  if path = "" then .error .missing
  else if path.utf8ByteSize > maxPath then .error .nameTooLong
  else (Path.names path).foldlM tree.step (tree.start path)

def content (tree : FileTree) (place : Place) : Content :=
  match tree.find? place with
  | none => .error .missing
  | some .directory => .error .directory
  | some (.file bytes) => Content.ofBytes bytes

/-- What reading a path gives. -/
def read (tree : FileTree) (path : String) : Content := do
  tree.content (← tree.walk path)

end FileTree

end Entailment
