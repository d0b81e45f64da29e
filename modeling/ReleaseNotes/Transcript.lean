/-
ReleaseNotes/Transcript.lean

A repository known from a transcript.

A transcript has lines such as `$ git tag --sort=-creatordate`, each followed
by what that command printed.  A command that the transcript does not show is
one that failed.  Of a command shown several times the first showing counts.

Main fact: a command behind its mark is answered by the lines below it
(`answers_command`).
-/
import ReleaseNotes.Repository

namespace ReleaseNotes

namespace Transcript

/-- What a line that shows a command begins with. -/
def mark : Text := "$ git ".toList

/-- The command that a line shows. -/
def command? (line : Text) : Option Text :=
  if mark.isPrefixOf line then some (line.drop mark.length) else none

/-- The lines in front of the first command, and each command with the lines
below it. -/
def split : List Text → List Text × List (Text × List Text)
  | [] => ([], [])
  | line :: rest =>
    match command? line, split rest with
    | some c, (printed, shown) => ([], (c, printed) :: shown)
    | none, (printed, shown) => (line :: printed, shown)

/-- What a list of lines says that a command printed. -/
def answer? (lines : List Text) (command : Text) : Option (List Text) :=
  (split lines).2.lookup command

/-- The repository that a transcript shows. -/
def repository (transcript : Text) : Repository := fun arguments =>
  (answer? (Text.lines transcript) ([' '].intercalate arguments)).map ['\n'].intercalate

/-- A command behind its mark is answered by the lines below it. -/
theorem answers_command (command : Text) (printed : List Text)
    (h : ∀ line ∈ printed, command? line = none) :
    answer? ((mark ++ command) :: printed) command = some printed := by
  have hp : split printed = (printed, []) := by
    induction printed with
    | nil => rfl
    | cons line rest ih =>
      simp [split, h line (by simp), ih fun l hl => h l (List.mem_cons_of_mem _ hl)]
  have hc : command? (mark ++ command) = some command := by
    simp [command?]
  simp [answer?, split, hc, hp]

end Transcript

end ReleaseNotes
