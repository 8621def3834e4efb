import TracedGrammar.CommandLine.Response

/-!
# The program

Runs a command line on the files and the standard input of the system. Nothing is decided here: the
response says what to print and how to end.
-/

namespace TracedGrammar.CommandLine

/-- The text that an action fetches; there is none if the action fails or yields no UTF-8. -/
def fetchText (bytes : IO ByteArray) : IO (Option String) := do
  try
    return String.fromUTF8? (← bytes)
  catch _ => return none

/-- The files and the standard input of the system. -/
def systemLibrary : Library IO where
  file path := fetchText (IO.FS.readBinFile path)
  standardInput := fetchText do (← IO.getStdin).readBinToEnd

/-- Prints a response, and yields the exit status. -/
def Response.print (response : Response) : IO UInt32 := do
  (← IO.getStdout).putStr response.output
  match response.ending with
  | .done => pure ()
  | .failed diagnostic => IO.eprintln (diagnostic.kind.code ++ "\n" ++ diagnostic.display)
  | .misused => IO.eprint usage
  return response.ending.status

end TracedGrammar.CommandLine

open TracedGrammar.CommandLine in
/-- Runs the program on the words of its command line. -/
def main (words : List String) : IO UInt32 := do
  (← respond systemLibrary words).print
