import GrammarNetwork.CommandLine

/-! The program: reads the file, and writes what the run gives. -/

open GrammarNetwork

/-- The content of a file, or the reason why it cannot be read. -/
def readSource (path : String) : IO (Except String String) := do
  try
    return .ok (← IO.FS.readFile path)
  catch error =>
    match error with
    | .noFileOrDirectory .. => return .error noSuchFile
    | other => return .error (toString other)

def main (arguments : List String) : IO UInt32 := do
  match CommandLine.readOptions arguments with
  | .error message =>
      IO.eprintln s!"error: {message}"
      return 2
  | .ok options =>
      let output := CommandLine.run options (← readSource options.grammar)
      IO.print output.out
      IO.eprint output.err
      return UInt32.ofNat output.status
