/-
ReleaseNotes/Main.lean

The program.

Arguments come from the command line.  Git itself is not started here: standard
input holds a transcript of its answers, as `ReleaseNotes.Transcript` describes
it.
-/
import ReleaseNotes.CommandLine.Run
import ReleaseNotes.Transcript

open ReleaseNotes

/-- All that is left of a stream. -/
partial def readAll (input : IO.FS.Stream) : IO String := do
  let line ← input.getLine
  if line.isEmpty then return line
  return line ++ (← readAll input)

def main (args : List String) : IO UInt32 := do
  let transcript ← readAll (← IO.getStdin)
  match CommandLine.run (Transcript.repository transcript.toList) (args.map String.toList) with
  | .ok o =>
    IO.print (String.ofList o.stdout)
    IO.eprint (String.ofList o.stderr)
    return o.exitCode.toUInt32
  | .error e =>
    IO.eprintln (String.ofList e.message)
    return 1
