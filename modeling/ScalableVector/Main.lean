import ScalableVector.Command.Run

/-!
# The command line

Reads what the task needs, runs it, and prints and writes what it leaves.
-/

open ScalableVector

partial def readAll (stream : IO.FS.Stream) (done : ByteArray) : IO ByteArray := do
  let block ← stream.read 65536
  if block.isEmpty then return done else readAll stream (done ++ block)

def environmentSetting (name : String) : IO (Option Bytes) :=
  return (← IO.getEnv name).map Bytes.ofString

/-- The content of the file with the given name, or the reason why it cannot be read. -/
def readFile (name : Bytes) : IO (Except String Bytes) := do
  try
    let content ← IO.FS.readBinFile (Text.display name)
    return .ok content.toList
  catch error => return .error (toString error)

def readInputs (names : List Bytes) : IO Inputs := do
  let standard ←
    if names.contains standardInputName then readAll (← IO.getStdin) .empty else pure .empty
  let named := names.filter (· ≠ standardInputName)
  let files ← named.mapM fun name => return (name, ← readFile name)
  return ⟨standard.toList, fun name => (files.lookup name).getD (.error "not read")⟩

def main (arguments : List String) : IO UInt32 := do
  let environment : Environment :=
    ⟨← environmentSetting "SVEASM_FEATURES", ← environmentSetting "SVEASM_VERBOSE"⟩
  let task := Task.ofArguments environment (arguments.map Bytes.ofString)
  let inputs ← readInputs ((task.map Task.inputs).toOption.getD [])
  let outcome := Task.run inputs task
  IO.eprint outcome.errors
  IO.print outcome.output
  if let some (name, content) := outcome.written then
    IO.FS.writeBinFile (Text.display name) ⟨content.toArray⟩
  return outcome.exitCode.toUInt32
