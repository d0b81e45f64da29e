/-
ReleaseNotes/Markdown.lean

The section of a release in Markdown: a heading with the tag, then one item for
each entry, or a remark that there are none.  An item ends with a link to the
pull request, in parentheses that stay empty when there is no number.

Main facts: slashes at the end of the repository's address do not matter
(`base_append_slash`), and the address of links does not end in one
(`getLast?_base`).
-/
import ReleaseNotes.Entry

namespace ReleaseNotes

namespace Markdown

/-- The address of the repository that links lead to, unless another one is given. -/
def defaultAddress : Text :=
  "https://github.com/microsoft/durabletask-dotnet".toList

/-- The address of a repository without slashes at its end. -/
def base (address : Text) : Text :=
  (address.reverse.dropWhile (· == '/')).reverse

/-- The link to a pull request; nothing without a number. -/
def link (address : Text) (number : Option Text) : Text :=
  match Text.present? number with
  | some n => "[#".toList ++ n ++ "](".toList ++ base address ++ "/pull/".toList ++ n ++ [')']
  | none => []

/-- The heading of a release. -/
def heading (tag : Text) : Text :=
  "## ".toList ++ tag

/-- The remark in place of entries. -/
def noEntries : Text :=
  "*(No commits found in range)*".toList

/-- The item of an entry. -/
def item (address : Text) (e : Entry) : Text :=
  "- ".toList ++ e.title ++ " by ".toList ++ e.author ++ " (".toList
    ++ link address e.number ++ [')']

/-- The lines below the heading. -/
def items (address : Text) (entries : List Entry) : List Text :=
  if entries = [] then [noEntries] else entries.map (item address)

/-- The section of a release. -/
def releaseSection (address tag : Text) (entries : List Entry) : Text :=
  ['\n'].intercalate (heading tag :: items address entries)

@[simp] theorem base_append_slash (address : Text) : base (address ++ ['/']) = base address := by
  simp [base]

theorem getLast?_base (address : Text) : (base address).getLast? ≠ some '/' := by
  intro h
  rw [base, List.getLast?_reverse] at h
  have := List.head?_dropWhile_not (· == '/') address.reverse
  rw [h] at this
  simp at this

end Markdown

end ReleaseNotes
