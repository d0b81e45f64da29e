/-
ReleaseNotes/Repository.lean

Asking a git repository.

A repository is known by its answers: for the arguments of git, what git
prints, or nothing when it fails.  What is found out by asking is a `Session`:
a result together with the calls that led to it and the warnings given on the
way.  Sessions are put together in order, and calls and warnings add up.

A call is never started when its directory is no path, or when the path or an
argument holds the character U+0000; it fails, and is recorded like any other.

Main facts: results, calls and warnings of a composed session (`result_bind`,
`calls_bind`, `warnings_bind`), and each question is exactly one call
(`calls_tags`, `calls_hasReference`, `calls_commitLines`).
-/
import ReleaseNotes.CommitRange
import ReleaseNotes.Setting.Basic
import ReleaseNotes.Text.Lines

namespace ReleaseNotes

/-- What git prints for given arguments, or nothing when it fails. -/
abbrev Repository := List Text → Option Text

/-- Where git is run. -/
inductive Directory
  /-- The directory that the program was started in. -/
  | current
  | path (p : Text)
  /-- A value that is no path. -/
  | invalid (value : Setting)
deriving Repr

/-- Whether a text can be handed to git. -/
def canPass (t : Text) : Bool :=
  !t.contains '\x00'

/-- Whether git can be started there. -/
def Directory.isValid : Directory → Bool
  | current => true
  | path p => canPass p
  | invalid _ => false

/-- A call of git. -/
structure Call where
  arguments : List Text
  directory : Directory
deriving Repr

/-- Whether a call can be started at all. -/
def Call.canStart (c : Call) : Bool :=
  c.directory.isValid && c.arguments.all canPass

/-- What the program warns of. -/
inductive Warning
  | branchNotFound (branch : Text)
  | tagNotFound (tag : Text) (range : CommitRange)
deriving DecidableEq, Repr

/-- A result, with the calls and warnings that led to it. -/
structure Session (α : Type) where
  result : α
  calls : List Call
  warnings : List Warning

namespace Session

variable {α β : Type}

/-- A result that takes no call. -/
def done (a : α) : Session α := ⟨a, [], []⟩

/-- Go on with what a session found out. -/
def andThen (x : Session α) (f : α → Session β) : Session β :=
  let y := f x.result
  ⟨y.result, x.calls ++ y.calls, x.warnings ++ y.warnings⟩

instance : Monad Session where
  pure := done
  bind := andThen

@[simp] theorem result_pure (a : α) : (pure a : Session α).result = a := rfl

@[simp] theorem calls_pure (a : α) : (pure a : Session α).calls = [] := rfl

@[simp] theorem warnings_pure (a : α) : (pure a : Session α).warnings = [] := rfl

@[simp] theorem result_bind (x : Session α) (f : α → Session β) :
    (x >>= f).result = (f x.result).result := rfl

@[simp] theorem calls_bind (x : Session α) (f : α → Session β) :
    (x >>= f).calls = x.calls ++ (f x.result).calls := rfl

@[simp] theorem warnings_bind (x : Session α) (f : α → Session β) :
    (x >>= f).warnings = x.warnings ++ (f x.result).warnings := rfl

/-- Give a warning. -/
def warn (w : Warning) : Session Unit := ⟨(), [], [w]⟩

@[simp] theorem calls_warn (w : Warning) : (warn w).calls = [] := rfl

@[simp] theorem warnings_warn (w : Warning) : (warn w).warnings = [w] := rfl

/-- Apply a function to the result. -/
def mapResult (f : α → β) (x : Session α) : Session β :=
  ⟨f x.result, x.calls, x.warnings⟩

end Session

namespace Repository

variable (repo : Repository) (dir : Directory)

/-- Call git; the answer has no blanks at its end. -/
def ask (arguments : List Text) : Session (Option Text) :=
  let call : Call := ⟨arguments, dir⟩
  ⟨if call.canStart then (repo arguments).map Text.trimEnd else none, [call], []⟩

@[simp] theorem calls_ask (arguments : List Text) :
    (repo.ask dir arguments).calls = [⟨arguments, dir⟩] := rfl

@[simp] theorem warnings_ask (arguments : List Text) :
    (repo.ask dir arguments).warnings = [] := rfl

/-- The arguments that list the tags, newest first. -/
def tagArguments : List Text :=
  ["tag".toList, "--sort=-creatordate".toList]

/-- The arguments that look up a reference. -/
def probeArguments (reference : Text) : List Text :=
  ["rev-parse".toList, "--verify".toList, "--quiet".toList, reference]

/-- The tag names in a listing. -/
def tagNames (listing : Text) : List Text :=
  ((Text.lines listing).map Text.trim).filter (· ≠ [])

/-- The lines of a log that are not blank. -/
def commitLinesOf (log : Text) : List Text :=
  (Text.lines log).filter fun line => Text.trim line ≠ []

/-- The tags, newest first; none when git fails. -/
def tags : Session (List Text) :=
  (repo.ask dir tagArguments).mapResult fun answer => (answer.map tagNames).getD []

/-- Whether the repository has a reference: git finds it and prints something. -/
def hasReference (reference : Text) : Session Bool :=
  (repo.ask dir (probeArguments reference)).mapResult fun answer =>
    (Text.present? answer).isSome

/-- The lines that list the commits of a range; none when git fails. -/
def commitLines (range : CommitRange) : Session (List Text) :=
  (repo.ask dir range.logArguments).mapResult fun answer => (answer.map commitLinesOf).getD []

@[simp] theorem calls_tags : (repo.tags dir).calls = [⟨tagArguments, dir⟩] := rfl

@[simp] theorem calls_hasReference (reference : Text) :
    (repo.hasReference dir reference).calls = [⟨probeArguments reference, dir⟩] := rfl

@[simp] theorem calls_commitLines (range : CommitRange) :
    (repo.commitLines dir range).calls = [⟨range.logArguments, dir⟩] := rfl

@[simp] theorem warnings_tags : (repo.tags dir).warnings = [] := rfl

@[simp] theorem warnings_hasReference (reference : Text) :
    (repo.hasReference dir reference).warnings = [] := rfl

@[simp] theorem warnings_commitLines (range : CommitRange) :
    (repo.commitLines dir range).warnings = [] := rfl

end Repository

end ReleaseNotes
