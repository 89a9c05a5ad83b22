import WasmHost.CommandLine.Run

/-!
# The program

Reads the files that a command line asks for, and prints what comes of it.
-/

open WasmHost.CommandLine

/-- Why a file cannot be read. -/
def readFailure : IO.Error → String
  | .noFileOrDirectory .. => "No such file or directory (os error 2)"
  | .permissionDenied .. => "Permission denied (os error 13)"
  | .inappropriateType .. => "Is a directory (os error 21)"
  | e => toString e

/-- Reads a file, or tells why it cannot be read. -/
def readContent (path : String) : IO (Except String ByteArray) := do
  try
    return .ok (← IO.FS.readBinFile path)
  catch e =>
    return .error (readFailure e)

/-- Reads files ahead. -/
def readAll (paths : List String) : IO Files := do
  let contents ← paths.mapM fun path => return (path, ← readContent path)
  return fun path => (contents.lookup path).getD (.error "not read")

def main (words : List String) : IO UInt32 := do
  let env ← IO.getEnv "WASMBRIDGE_CONFIG"
  let request := read env words
  let report := request.report (← readAll request.paths) env
  (← IO.getStdout).putStr report.out
  (← IO.getStderr).putStr report.err
  return UInt32.ofNat report.exit
