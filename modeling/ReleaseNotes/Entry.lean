/-
ReleaseNotes/Entry.lean

Entries of the release notes: one for each commit of the log that has a title.

Main facts: an entry has a title (`title_ne_nil_of_ofCommit?`), and entries
are collected line by line (`ofLines_append`), never more than there are lines
(`length_ofLines_le`).
-/
import ReleaseNotes.Commit
import ReleaseNotes.Title

namespace ReleaseNotes

/-- An entry of the release notes. -/
structure Entry where
  title : Text
  author : Text
  /-- The number of the pull request, if the commit names one. -/
  number : Option Text
deriving DecidableEq, Repr

namespace Entry

/-- The entry of a commit, unless its title is empty. -/
def ofCommit? (c : Commit) : Option Entry :=
  let title := Title.ofMessage c.message
  if title = [] then none
  else some { title, author := c.author, number := Reference.number? c.message }

/-- The entry of a log line. -/
def ofLine? (line : Text) : Option Entry :=
  (Commit.ofLine? line).bind ofCommit?

/-- The entries of the lines of a log, in their order. -/
def ofLines (lines : List Text) : List Entry :=
  lines.filterMap ofLine?

theorem ofCommit?_eq_some_iff {c : Commit} {e : Entry} :
    ofCommit? c = some e ↔ Title.ofMessage c.message ≠ []
      ∧ e = ⟨Title.ofMessage c.message, c.author, Reference.number? c.message⟩ := by
  by_cases h : Title.ofMessage c.message = []
  · simp [ofCommit?, h]
  · simp [ofCommit?, h, eq_comm]

/-- A commit whose message gives no title has no entry. -/
theorem ofCommit?_eq_none {c : Commit} (h : Title.ofMessage c.message = []) :
    ofCommit? c = none := by
  simp [ofCommit?, h]

theorem title_ne_nil_of_ofCommit? {c : Commit} {e : Entry} (h : ofCommit? c = some e) :
    e.title ≠ [] := by
  obtain ⟨ht, he⟩ := ofCommit?_eq_some_iff.1 h
  simpa only [he] using ht

@[simp] theorem ofLines_append (xs ys : List Text) :
    ofLines (xs ++ ys) = ofLines xs ++ ofLines ys :=
  List.filterMap_append

theorem length_ofLines_le (lines : List Text) : (ofLines lines).length ≤ lines.length :=
  List.length_filterMap_le _ _

end Entry

end ReleaseNotes
