import Vivarium.Json.Report
import Vivarium.Scalar.Binary64
/-!
# The command line

Run the demonstration for the number of ticks in the environment variable `CF_TICKS`, and print
what it reports, a line each.
-/
namespace Vivarium

/-- A value as it stands in a line. -/
def valueText : Json Float → String
  | .int n => toString n
  | .real x => toString x
  | .str s => s
  | _ => ""

/-- A report as a line: its severity, its message and the values it tells. -/
def reportLine (r : Report Float) : String :=
  " ".intercalate (r.severity.label :: r.message :: r.fields.map fun f => f.1 ++ "=" ++ valueText f.2)

end Vivarium

def main : IO UInt32 := do
  let setting ← IO.getEnv "CF_TICKS"
  let result : Except Vivarium.RunError (List (Vivarium.Report Float)) :=
    Vivarium.Demo.run (Vivarium.Demo.ticks setting)
  match result with
  | .ok reports =>
    for r in reports do
      IO.println (Vivarium.reportLine r)
    return 0
  | .error e =>
    IO.eprintln ("Error: " ++ e.message)
    return 1
