/-
ReleaseNotes/Commit.lean

Commits as the log lists them.

The log has one line per commit: abbreviated hash, subject and author name,
with `||` between them.  A subject may hold the separator itself, so the hash
ends at the first occurrence and the author begins after the last one; a line
whose first and last occurrence are the same is no commit.  Occurrences may
overlap: of `|||` the first starts one place before the last.

Main fact: a line with no separator is no commit (`ofLine?_eq_none`).
-/
import ReleaseNotes.Text.Blank
import ReleaseNotes.Text.Search

namespace ReleaseNotes

/-- A commit of the log. -/
structure Commit where
  /-- The abbreviated hash. -/
  hash : Text
  /-- The subject. -/
  message : Text
  /-- The author's name. -/
  author : Text
deriving DecidableEq, Repr

namespace Commit

/-- What stands between the fields of a log line. -/
def separator : Text := ['|', '|']

/-- The `--pretty` argument that makes git print such lines. -/
def logFormat : Text :=
  "--pretty=format:%h".toList ++ separator ++ "%s".toList ++ separator ++ "%an".toList

/-- The commit on a log line.  Hash and author lose their blank margins, the
message is kept as it is. -/
def ofLine? (line : Text) : Option Commit :=
  match Text.firstIndex? separator line, Text.lastIndex? separator line with
  | some first, some last =>
    if first = last then none
    else some
      { hash := Text.trim (line.take first)
        message := (line.take last).drop (first + separator.length)
        author := Text.trim (line.drop (last + separator.length)) }
  | _, _ => none

theorem ofLine?_eq_none {line : Text} (h : Text.firstIndex? separator line = none) :
    ofLine? line = none := by
  simp [ofLine?, h]

/-- The line that lists a commit. -/
def toLine (c : Commit) : Text :=
  c.hash ++ separator ++ c.message ++ separator ++ c.author

end Commit

end ReleaseNotes
