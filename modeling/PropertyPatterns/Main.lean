import PropertyPatterns.CommandLine

open PropertyPatterns

/-- The text of a file, or of the standard input for a dash; none if it cannot be read. -/
def readSource (source : String) : IO (Option String) := do
  try
    if source = "-" then
      let input ← IO.getStdin
      let bytes ← input.readBinToEnd
      return String.fromUTF8? bytes
    else
      return some (← IO.FS.readFile source)
  catch _ => return none

def printResult (r : CommandLine.Result) : IO UInt32 := do
  IO.print r.stdout
  IO.eprint r.stderr
  return UInt32.ofNat r.exitCode

def main (args : List String) : IO UInt32 := do
  match CommandLine.run args with
  | .finished r => printResult r
  | .reading source next =>
    let text ← readSource source
    printResult (next text)
