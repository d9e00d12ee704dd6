import CellAlign.Command.Run

/-!
# The command

The command looks at the world as far as its arguments ask for it, hands what it found to
`CellAlign.Command.outcome` and prints the result.
-/

namespace CellAlign.Command

/-- The fault behind an error of the system. -/
def readFaultOf (e : IO.Error) : ReadFault :=
  match e with
  | .noFileOrDirectory _ _ _ => .missing
  | .inappropriateType _ 21 _ => .directory
  | .inappropriateType _ _ _ => .notDirectory
  | .invalidArgument _ 36 _ => .nameTooLong
  | .permissionDenied _ _ _ => .other "Permission denied (os error 13)"
  | e => .other (toString e)

/-- Reads a file. -/
def readPath (path : String) : IO (Except ReadFault ByteArray) := do
  try
    return .ok (← IO.FS.readBinFile path)
  catch e =>
    return .error (readFaultOf e)

/-- Reads a stream to its end. -/
partial def readToEnd (stream : IO.FS.Stream) (bytes : ByteArray) : IO ByteArray := do
  let more ← stream.read 65536
  if more.isEmpty then return bytes
  readToEnd stream (bytes ++ more)

/-- The world as far as a run with the given settings looks at it. -/
def worldFor (settings : Settings) : IO World := do
  let files ← settings.paths.mapM fun path => return (path, ← readPath path)
  let input ←
    if settings.file.isNone then readToEnd (← IO.getStdin) ByteArray.empty
    else pure ByteArray.empty
  let logFilter ← IO.getEnv "RUST_LOG"
  return { file := fun path => (files.lookup path).getD (.error .missing), input, logFilter }

end CellAlign.Command

open CellAlign.Command

/-- Runs the command with its arguments; the answer is the exit code. -/
def main (arguments : List String) : IO UInt32 := do
  let world ←
    match Settings.ofTexts arguments with
    | .ok settings => worldFor settings
    | .error _ =>
      pure { file := fun _ => .error .missing, input := ByteArray.empty, logFilter := none }
  let outcome := CellAlign.Command.outcome arguments world
  IO.eprint outcome.errors
  IO.print outcome.output
  return outcome.exitCode.toUInt32
