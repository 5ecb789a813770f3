/-
# `JsonProjection.Main` -- the command line program.

Reads the input, asks `Command.respondTo` what to do, and does it.  A file is written before anything is printed,
so that a write that fails can still be answered as one.
-/
import JsonProjection.Command.Run

namespace JsonProjection.Command

/-- What an action gives, or why it fails, in words. -/
def attempt {α : Type} (action : IO α) : IO (Except String α) := do
  try
    return .ok (← action)
  catch error => return .error (toString error)

/-- The bytes of the input that a command line names, if it names one. -/
def readInputOf (words : List String) : IO (Except String ByteArray) :=
  match Request.ofWords words with
  | .ok (.project options _) =>
    match options.input with
    | some path => attempt (IO.FS.readBinFile path)
    | none => attempt do (← IO.getStdin).readBinToEnd
  | _ => return .ok ByteArray.empty

/-- A file system in which the input has been read and nothing is written yet. -/
def inputOnly (input : Except String ByteArray) : FileSystem Unit where
  read _ _ := input
  create _ _ := (.ok (), ())
  fill _ _ _ := (.ok (), ())

/-- Answers a command line, and writes its file. -/
def answer (words : List String) : IO Response := do
  let input ← readInputOf words
  let logFilter ← IO.getEnv "RUST_LOG"
  let response := respondTo words ⟨inputOnly input, (), input, fun _ => "malformed JSON", logFilter⟩
  match response.written with
  | none => return response
  | some (path, text) =>
    match ← attempt (IO.FS.writeFile path text) with
    | .ok _ => return response
    | .error cause => return .failed response.stderr (.outputUnwritable path cause)

end JsonProjection.Command

/-- The program. -/
def main (args : List String) : IO UInt32 := do
  let response ← JsonProjection.Command.answer args
  let stdout ← IO.getStdout
  let stderr ← IO.getStderr
  for text in response.stderr do
    stderr.putStrLn text
  stdout.putStr response.stdout
  stdout.flush
  return UInt32.ofNat response.code
