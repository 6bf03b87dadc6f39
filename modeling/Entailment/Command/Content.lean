/-!
# Contents of sources

What a source of a program gives: its text, or the reason why it cannot be read.
-/

namespace Entailment

/-- Why a source cannot be read. -/
inductive Refusal where
  /-- The path names nothing. -/
  | missing
  /-- The path goes on behind a file. -/
  | notDirectory
  /-- The path names a directory. -/
  | directory
  /-- The path, or a name in it, is too long. -/
  | nameTooLong
  /-- The file may not be read. -/
  | denied
  /-- The bytes encode no text. -/
  | undecodable
  /-- Another reason, in the words of the machine. -/
  | other (reason : String)
  deriving DecidableEq

def Refusal.message : Refusal → String
  | missing => "No such file or directory (os error 2)"
  | notDirectory => "Not a directory (os error 20)"
  | directory => "Is a directory (os error 21)"
  | nameTooLong => "File name too long (os error 36)"
  | denied => "Permission denied (os error 13)"
  | undecodable => "stream did not contain valid UTF-8"
  | other reason => reason

/-- A source text, or why it cannot be read. -/
abbrev Content := Except Refusal String

/-- The text that bytes encode. -/
def Content.ofBytes (bytes : ByteArray) : Content :=
  match String.fromUTF8? bytes with
  | some text => .ok text
  | none => .error .undecodable

end Entailment
