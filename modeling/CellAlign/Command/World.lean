/-!
# What a run sees

A run reads files and its standard input.  Both are bytes, which must be UTF-8 to be a text.
-/

namespace CellAlign.Command

/-- Why no text can be read. -/
inductive ReadFault where
  | missing
  | directory
  | notDirectory
  | nameTooLong
  | notText
  | other (message : String)
deriving DecidableEq

/-- The message of a read fault. -/
def ReadFault.message : ReadFault → String
  | missing => "No such file or directory (os error 2)"
  | directory => "Is a directory (os error 21)"
  | notDirectory => "Not a directory (os error 20)"
  | nameTooLong => "File name too long (os error 36)"
  | notText => "stream did not contain valid UTF-8"
  | other message => message

/-- What a run sees: the files by their paths, the standard input, and the text of a log filter. -/
structure World where
  file : String → Except ReadFault ByteArray
  input : ByteArray
  logFilter : Option String

/-- The text of bytes. -/
def textOf (bytes : ByteArray) : Except ReadFault String :=
  match String.fromUTF8? bytes with
  | some text => .ok text
  | none => .error .notText

/-- The text of a file. -/
def World.fileText (world : World) (path : String) : Except ReadFault String :=
  match world.file path with
  | .ok bytes => textOf bytes
  | .error fault => .error fault

end CellAlign.Command
