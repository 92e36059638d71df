import PropertyPath.Demo

/-!
# The command line

Prints the demonstration. A fault goes to standard error, and the program fails.
-/

open PropertyPath

def main : IO UInt32 := do
  match Demo.lines with
  | .ok lines =>
    lines.forM IO.println
    return 0
  | .error fault =>
    IO.eprintln ("Error: " ++ fault.listing.oneLine)
    return 1
