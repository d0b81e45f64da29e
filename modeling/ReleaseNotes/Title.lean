/-
ReleaseNotes/Title.lean

The title that a commit message gives.

In this order a message loses its references `(#n)` and `#n`, the end of its
last line from `Merge pull request` on, the end of its last line from `from`
on, its references `PR n`, and its blank margins; then its first character
becomes a capital.  Each step works on what the step before left.

Main fact: a cut shortens the message to a prefix of it (`cut_isPrefix`).
-/
import ReleaseNotes.Reference
import ReleaseNotes.Text.Lines
import ReleaseNotes.Text.Uppercase

namespace ReleaseNotes

namespace Title

/-- The message without its hash references. -/
def withoutHashes (message : Text) : Text :=
  Text.erase Reference.hashToken (Text.erase Reference.bracketToken message)

/-- The message up to the first `word` of its last line. -/
def cut (word : Text) (message : Text) : Text :=
  Text.front message ++ Text.before word (Text.lastLine message)

/-- The phrase that opens the subject of a merge commit. -/
def mergePhrase : Text := "Merge pull request".toList

/-- The word before the name of the branch that was merged. -/
def branchWord : Text := "from".toList

/-- The message without the tail that merging leaves. -/
def withoutMergeTail (message : Text) : Text :=
  cut branchWord (cut mergePhrase message)

/-- What a title is made of, with its margins. -/
def substance (message : Text) : Text :=
  Text.erase Reference.wordToken (withoutMergeTail (withoutHashes message))

/-- The title of a message, which may be empty. -/
def ofMessage (message : Text) : Text :=
  Text.capitalize (Text.trim (substance message))

theorem ofMessage_nil : ofMessage [] = [] := by
  decide

/-- A cut shortens the message to a prefix of it. -/
theorem cut_isPrefix (word message : Text) : cut word message <+: message := by
  have h := (List.prefix_append_right_inj (Text.front message)).2
    (Text.before_isPrefix word (Text.lastLine message))
  rwa [Text.front_append_lastLine] at h

/-- Without the tail that merging leaves the message is a prefix of itself. -/
theorem withoutMergeTail_isPrefix (message : Text) : withoutMergeTail message <+: message :=
  (cut_isPrefix branchWord _).trans (cut_isPrefix mergePhrase message)

end Title

end ReleaseNotes
