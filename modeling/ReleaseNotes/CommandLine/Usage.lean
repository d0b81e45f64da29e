/-
ReleaseNotes/CommandLine/Usage.lean

The account that the program gives of itself.

The options are described in a table of two columns, the second of which says
what an option is for and what its default is.
-/
import ReleaseNotes.CommandLine.Names

namespace ReleaseNotes

namespace CommandLine

/-- The name of the program. -/
def program : Text := "release-changelog".toList

/-- The version of the program. -/
def programVersion : Text := "1.0.0".toList

/-- Program and version. -/
def versionLine : Text :=
  program ++ '/' :: programVersion ++ ['\n']

/-- An option in the table: how it is written, its purpose, its default. -/
structure Row where
  usage : Text
  purpose : Text
  default? : Option Text

/-- The table of the options. -/
def rows : List Row :=
  ⟨"-h, --help".toList, "Display this message".toList, none⟩
    :: ⟨"-v, --version".toList, "Display version number".toList, none⟩
    :: ValueOption.all.map fun o => ⟨o.usage, o.purpose, o.default?⟩

/-- The width of the first column. -/
def columnWidth : Nat :=
  (rows.map (·.usage.length)).foldl max 0

/-- A text filled up with spaces. -/
def padded (width : Nat) (s : Text) : Text :=
  s ++ List.replicate (width - s.length) ' '

/-- The line of an option. -/
def Row.line (r : Row) : Text :=
  let remark :=
    match r.default? with
    | some d => "(default: ".toList ++ d ++ [')']
    | none => []
  "  ".toList ++ padded columnWidth r.usage ++ "  ".toList ++ r.purpose ++ ' ' :: remark

/-- How the program is used. -/
def helpLines : List Text :=
  [program ++ '/' :: programVersion,
    [],
    "Usage:".toList,
    "  $ ".toList ++ program ++ [' '],
    [],
    "Commands:".toList,
    "    Print the changelog section of a release".toList,
    [],
    "For more info, run any command with the `--help` flag:".toList,
    "  $ ".toList ++ program ++ " --help".toList,
    [],
    "Options:".toList] ++ rows.map Row.line

/-- How the program is used, as text. -/
def help : Text :=
  helpLines.flatMap (· ++ ['\n'])

end CommandLine

end ReleaseNotes
