import SelfDescribing.Inspect

/-!
# The command line

Reads the named file, carries out the request and prints the outcome.
-/

/-- The bytes of a file, or none if it cannot be read. -/
def fileBytes (path : String) : IO (Option (List UInt8)) := do
  try
    return some (← IO.FS.readBinFile path).toList
  catch _ =>
    return none

/-- Run the command line. -/
def main (args : List String) : IO UInt32 := do
  let outcome ← SelfDescribing.Request.run fileBytes (SelfDescribing.Request.parse args)
  IO.print outcome.output
  IO.eprint outcome.errors
  return outcome.code.toUInt32
