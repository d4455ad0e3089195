import Std.Time.Format
import SkyResolver.Program

/-! The program on a real machine. It has no connection to a network, so every request to a catalog
or to the index fails, and what can be answered without them is answered. -/
namespace SkyResolver
open SkyResolver.Http

/-- True when an action comes to its end without an error. -/
def succeeds {α : Type} (action : IO α) : IO Bool := do
  try
    let _ ← action
    pure true
  catch _ => pure false

def localHost : Host IO where
  pathExists path := succeeds (IO.FS.Handle.mk path .read)
  isFile path := succeeds (IO.FS.readBinFile path)
  home := IO.getEnv "HOME"
  read path := do
    try return some (← IO.FS.readBinFile path)
    catch _ => pure none
  openLog path := succeeds (IO.FS.Handle.mk path .append)

def yearNow : IO Int := do
  try return (← Std.Time.PlainDate.now).year.toInt
  catch _ => pure earliestYear

end SkyResolver

/-- Runs the program; answers go to the standard output, and what went wrong to the standard error.
-/
def main (words : List String) : IO UInt32 := do
  let around : SkyResolver.Surroundings Unit :=
    ⟨SkyResolver.Http.unreachable, (), fun _ => 0, ← SkyResolver.yearNow⟩
  let report ← SkyResolver.runProgram SkyResolver.localHost around words
  IO.print report.output
  match report.failure with
  | some failure => IO.eprintln ("Error: " ++ failure.message)
  | none => pure ()
  pure report.exitCode.toUInt32
