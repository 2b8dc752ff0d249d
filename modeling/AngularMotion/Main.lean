import AngularMotion.Playback.Options

/-!
# The command line

Plays back a spin with the given options and prints the report.
-/

open AngularMotion

def main (arguments : List String) : IO UInt32 := do
  match Playback.Settings.standard.ofArguments arguments with
  | .error fault =>
    IO.eprintln fault.message
    return 2
  | .ok settings =>
    let report := Playback.run Setup.double.working settings
    for line in report.lines Quantity.text (·.value) do
      IO.println line
    match report.failure with
    | some fault =>
      IO.eprintln ((fault.message? Quantity.text).getD "A whole number is too large.")
      return 1
    | none => return 0
