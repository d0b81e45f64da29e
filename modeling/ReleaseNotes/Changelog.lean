/-
ReleaseNotes/Changelog.lean

The changelog of a release.

To find the range of a release the repository is asked for its tags and for
the release's own tag.  If the tag is missing, it is asked for the branch too,
HEAD takes the place of a missing branch, and a warning tells which commits
are taken instead.  Then the log of the range gives the entries.

Main facts: the calls of a build in their order (`calls_changelog`), and a
changelog has at most as many entries as commits (`length_entries_le`).
-/
import ReleaseNotes.Markdown
import ReleaseNotes.Repository
import ReleaseNotes.Text.Paint

namespace ReleaseNotes

/-! ### Warnings -/

/-- The wording of a warning. -/
def Warning.message : Warning → Text
  | branchNotFound branch =>
    "⚠️  Branch \"".toList ++ branch ++ "\" not found, using HEAD".toList
  | tagNotFound tag range =>
    "⚠️  Tag \"".toList ++ tag ++ "\" not found, using ".toList ++ range.describe

/-- The line that shows a warning. -/
def Warning.line (w : Warning) : Text :=
  Colour.yellow.paint w.message ++ ['\n']

/-! ### The range of a release -/

/-- The branch that is used unless another one is given. -/
def defaultBranch : Text := "main".toList

/-- The limit that is used unless another one is given. -/
def defaultLimit : Rat := 50

/-- A release of a repository. -/
structure Release where
  tag : Text
  branch : Text := defaultBranch
  limit : Rat := defaultLimit
  directory : Directory := .current

namespace Release

variable (repo : Repository) (r : Release)

/-- The reference of the release's tag. -/
def tagReference : Text := "refs/tags/".toList ++ r.tag

/-- The reference of the release's branch. -/
def branchReference : Text := "refs/heads/".toList ++ r.branch

/-- What stands for a branch that is missing. -/
def head : Text := "HEAD".toList

/-- The branch to compare with when the tag is missing. -/
def usableBranch : Session Text := do
  if ← repo.hasReference r.directory r.branchReference then
    return r.branch
  Session.warn (.branchNotFound r.branch)
  return head

/-- The range of a release whose tag is missing. -/
def untaggedRange (tags : List Text) : Session CommitRange := do
  let branch ← r.usableBranch repo
  let range := CommitRange.choose false tags r.tag branch r.limit
  Session.warn (.tagNotFound r.tag range)
  return range

/-- The range of a release. -/
def range : Session CommitRange := do
  let tags ← repo.tags r.directory
  if ← repo.hasReference r.directory r.tagReference then
    return CommitRange.choose true tags r.tag r.branch r.limit
  r.untaggedRange repo tags

end Release

/-! ### Summaries -/

/-- A count of commits and the range that they are from, in one line; `skipped`
tells how many of them have no entry. -/
def summaryLine (count : Text) (singular : Bool) (range : CommitRange) (skipped : Option Text) :
    Text :=
  "Found ".toList ++ Colour.yellow.paint count
    ++ (if singular then " commit".toList else " commits".toList)
    ++ " in ".toList ++ Colour.cyan.paint range.describe
    ++ (match skipped with
      | some n => Colour.gray.paint (" (".toList ++ n ++ " skipped)".toList)
      | none => [])

/-- Counts of commits and entries, where that of commits may be any number. -/
structure Tally where
  commits : Rat
  entries : Nat
  range : CommitRange

namespace Tally

/-- By how much there are more commits than entries. -/
def skipped (t : Tally) : Rat :=
  Number.minus t.commits t.entries

/-- What was counted, in one line. -/
def summary (t : Tally) : Text :=
  summaryLine (Number.render t.commits) (Number.isSingular t.commits) t.range
    (if 0 < t.skipped then some (Number.render t.skipped) else none)

end Tally

/-! ### The changelog -/

/-- The changelog of a release. -/
structure Changelog where
  /-- The section of the release. -/
  markdown : Text
  /-- How many commits the log lists. -/
  commits : Nat
  entries : List Entry
  range : CommitRange
deriving DecidableEq, Repr

namespace Changelog

/-- The changelog of a release, from the lines of the log of its range. -/
def ofLines (address tag : Text) (range : CommitRange) (lines : List Text) : Changelog :=
  let entries := Entry.ofLines lines
  ⟨Markdown.releaseSection address tag entries, lines.length, entries, range⟩

/-- How many commits have no entry. -/
def skipped (c : Changelog) : Nat :=
  c.commits - c.entries.length

/-- What was found, in one line. -/
def summary (c : Changelog) : Text :=
  summaryLine (Number.digitsOf c.commits) (c.commits = 1) c.range
    (if c.skipped = 0 then none else some (Number.digitsOf c.skipped))

theorem length_entries_le (address tag : Text) (range : CommitRange) (lines : List Text) :
    (ofLines address tag range lines).entries.length
      ≤ (ofLines address tag range lines).commits :=
  Entry.length_ofLines_le lines

end Changelog

namespace Release

variable (repo : Repository) (r : Release)

/-- Build the changelog of a release; `address` is where its links lead. -/
def changelog (address : Text) : Session Changelog := do
  let range ← r.range repo
  let lines ← repo.commitLines r.directory range
  return Changelog.ofLines address r.tag range lines

/-- The calls of a build: the tags, the release's tag, the branch if that tag
is missing, and the log of the range. -/
theorem calls_changelog (address : Text) :
    (r.changelog repo address).calls
      = [⟨Repository.tagArguments, r.directory⟩,
          ⟨Repository.probeArguments r.tagReference, r.directory⟩]
        ++ (if (repo.hasReference r.directory r.tagReference).result then []
          else [⟨Repository.probeArguments r.branchReference, r.directory⟩])
        ++ [⟨(r.range repo).result.logArguments, r.directory⟩] := by
  have hb : (r.usableBranch repo).calls
      = [⟨Repository.probeArguments r.branchReference, r.directory⟩] := by
    by_cases h : (repo.hasReference r.directory r.branchReference).result = true <;>
      simp [usableBranch, h]
  by_cases h : (repo.hasReference r.directory r.tagReference).result = true <;>
    simp [changelog, range, untaggedRange, h, hb]

end Release

end ReleaseNotes
