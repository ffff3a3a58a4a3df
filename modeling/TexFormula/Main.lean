import TexFormula.Cli.Duration
import TexFormula.Cli.Report

/-!
# The program

Reads the arguments, times the two steps, prints the report and ends with its exit code. Arguments
that are in error end the program with code 2.
-/

namespace TexFormula

def timed {α : Type} (step : Unit → α) : IO (α × String) := do
  let start ← IO.monoNanosNow
  let result ← IO.lazyPure step
  let stop ← IO.monoNanosNow
  return (result, durationText (stop - start))

def printFormula (options : Options) : IO UInt32 := do
  let (tokens, tokenTime) ← timed fun _ => tokenize options.source
  let (tree, treeTime) ← timed fun _ => tokens.toOption.map (parseTokens options.limit)
  let outcome := report options ⟨tokenTime, treeTime⟩ tokens
    fun tokens => tree.getD (parseTokens options.limit tokens)
  (← IO.getStdout).putStr outcome.stdout
  (← IO.getStderr).putStr outcome.stderr
  return outcome.exitCode.toUInt32

end TexFormula

open TexFormula in
def main (arguments : List String) : IO UInt32 := do
  match Request.ofArguments arguments with
  | .ok .version =>
    IO.println versionLine
    return 0
  | .ok (.parse options) => printFormula options
  | .error error =>
    IO.eprintln ("error: " ++ error.message ++ "\n\nUsage: texpr [OPTIONS] <EXPRESSION>")
    return 2
