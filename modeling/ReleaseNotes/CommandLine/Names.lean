/-
ReleaseNotes/CommandLine/Names.lean

The options that the program knows, and how their names are spelled.

Five options take a value.  In a typed name a dash between two small letters
may stand for a capital, so `--repo-url` and `--repoUrl` are one option; `-h`
and `-v` are short for `--help` and `--version`.  Behind a dot a name goes on
with fields, which keep their spelling.  Some names are reserved: those of the
operations that every collection has and that need something to work on.

Main fact: the other form of a switch is a form of a switch
(`mem_switches_of_otherForm?`).
-/
import ReleaseNotes.Changelog
import ReleaseNotes.CommandLine.Typed
import ReleaseNotes.Setting.Fields

namespace ReleaseNotes

namespace CommandLine

/-- The options that take a value. -/
inductive ValueOption
  | tag
  | branch
  | limit
  | address
  | directory
deriving DecidableEq, Repr

namespace ValueOption

/-- All of them, in the order in which they are described and checked. -/
def all : List ValueOption := [tag, branch, limit, address, directory]

/-- The name under which an option's value is kept. -/
def name : ValueOption → Text
  | tag => "tag".toList
  | branch => "branch".toList
  | limit => "limit".toList
  | address => "repoUrl".toList
  | directory => "cwd".toList

/-- How an option is written, with a word for its value. -/
def usage : ValueOption → Text
  | tag => "--tag <name>".toList
  | branch => "--branch <name>".toList
  | limit => "--limit <count>".toList
  | address => "--repo-url <url>".toList
  | directory => "--cwd <path>".toList

/-- What an option is for. -/
def purpose : ValueOption → Text
  | tag => "Release tag to describe".toList
  | branch => "Base branch when the tag is missing".toList
  | limit => "Max commits when no previous tag exists".toList
  | address => "Repository URL for pull request links".toList
  | directory => "Repository directory (default: current)".toList

/-- The value of an option that is not given, if the option always has one. -/
def default? : ValueOption → Option Text
  | tag => none
  | branch => some defaultBranch
  | limit => none
  | address => some Markdown.defaultAddress
  | directory => none

end ValueOption

/-- The switches, each with its short form. -/
def switches : List (Text × Text) :=
  [(['h'], "help".toList), (['v'], "version".toList)]

/-- Whether an option takes no value. -/
def isSwitch (name : Text) : Bool :=
  switches.any fun s => s.1 == name || s.2 == name

/-- The other form of a switch. -/
def otherForm? (name : Text) : Option Text :=
  switches.findSome? fun s =>
    if s.1 = name then some s.2 else if s.2 = name then some s.1 else none

/-- Whether the program knows an option.  Under the name `--` are the arguments
behind the separator. -/
def isKnown (name : Text) : Bool :=
  isSwitch name || name == separator || ValueOption.all.any (·.name == name)

/-- Whether a name is reserved. -/
def isReserved (name : Text) : Bool :=
  name ∈ Setting.argumentNames

/-- Whether a character is a small letter of the English alphabet. -/
def isSmall (c : Char) : Bool :=
  'a' ≤ c && c ≤ 'z'

/-- A name with a capital for each dash between two small letters, where no
letter is on both sides of a dash. -/
def joined : Text → Text
  | a :: '-' :: b :: s =>
    if isSmall a && isSmall b then a :: b.toUpper :: joined s else a :: joined ('-' :: b :: s)
  | a :: s => a :: joined s
  | [] => []

/-- A typed name in parts: the name of the option, and the fields behind it. -/
def pathOf (typed : Text) : List Text :=
  match typed.splitOn '.' with
  | [] => []
  | name :: fields => joined name :: fields

theorem pathOf_ne_nil (typed : Text) : pathOf typed ≠ [] := by
  unfold pathOf
  split
  · rename_i h
    exact absurd h (List.splitOnP_ne_nil _ _)
  · simp

/-- The other form of a switch is a form of a switch. -/
theorem mem_switches_of_otherForm? {name other : Text} (h : otherForm? name = some other) :
    other ∈ [['h'], "help".toList, ['v'], "version".toList] := by
  obtain ⟨s, hs, he⟩ := List.exists_of_findSome?_eq_some h
  have hm : other = s.1 ∨ other = s.2 := by
    split at he
    · exact .inr (Option.some.inj he).symm
    · split at he
      · exact .inl (Option.some.inj he).symm
      · cases he
  have hs : s = (['h'], "help".toList) ∨ s = (['v'], "version".toList) := by
    simpa [switches] using hs
  rcases hs with rfl | rfl <;> rcases hm with rfl | rfl <;> simp

end CommandLine

end ReleaseNotes
