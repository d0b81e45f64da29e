/-
ReleaseNotes/CommandLine/Run.lean

A run of the program.

Standard output gets the changelog, and standard error gets everything else: a
line that says what is being done, the warnings, and at the end a line that
says how it went.  A run that fails prints no changelog and has exit code 1.

Main facts: a run exits with 0 exactly when nothing stopped it (`exitCode_outcome`),
and to what is done for given options the arguments behind `--` do not matter
(`compose_append_separator`).
-/
import ReleaseNotes.CommandLine.Usage
import ReleaseNotes.CommandLine.Values

namespace ReleaseNotes

namespace CommandLine

/-- What a run leaves behind. -/
structure Outcome where
  exitCode : Nat
  stdout : Text
  stderr : Text
  calls : List Call

/-! ### What is printed -/

/-- The line that says what is being done. -/
def startLine : Text :=
  Colour.yellow.paint ['-'] ++ " Reading git history...\n".toList

/-- The line that ends a run that went well. -/
def successLine (c : Changelog) : Text :=
  Colour.green.paint "✔".toList ++ ' ' :: c.summary ++ ['\n']

/-- The lines that end a run that was stopped. -/
def failureLines (f : Fault) : Text :=
  Colour.red.paint "✖".toList ++ " Failed\n".toList ++ Colour.brightRed.paint "\nError:".toList
    ++ ' ' :: f.message ++ ['\n']

/-- The changelog as it is printed. -/
def document (c : Changelog) : Text :=
  "# Changelog\n\n".toList ++ c.markdown ++ ['\n']

/-- What a session leaves behind, whether a changelog or a fault came of it. -/
def outcome (s : Session (Except Fault Changelog)) : Outcome :=
  let told := startLine ++ s.warnings.flatMap Warning.line
  match s.result with
  | .ok c => ⟨0, document c, told ++ successLine c, s.calls⟩
  | .error f => ⟨1, [], told ++ failureLines f, s.calls⟩

/-! ### What is done -/

/-- The changelog of a release, with links to `address`.  Without an address
that is a text there must be no link. -/
def linked (repo : Repository) (r : Release) (address : Option Text) :
    Session (Except Fault Changelog) :=
  match address with
  | some u => (r.changelog repo u).mapResult .ok
  | none => (r.changelog repo Markdown.defaultAddress).mapResult fun c =>
      if c.entries.any (·.number.isSome) then .error .addressNotText else .ok c

/-- The changelog that the options ask for. -/
def compose (repo : Repository) (args : List Text) (o : Options) :
    Session (Except Fault Changelog) :=
  match releaseOf args o with
  | .ok r => linked repo r (addressOf? o.address)
  | .error f => .done (.error f)

/-- Run the program with the given arguments. -/
def run (repo : Repository) (args : List Text) : Except UsageError Outcome := do
  match ← read args with
  | .explain withHelp withVersion =>
    let text := (if withHelp then help else []) ++ (if withVersion then versionLine else [])
    return ⟨0, text, [], []⟩
  | .compose o => return outcome (compose repo args o)

/-! ### Small facts -/

/-- A run exits with 0 exactly when nothing stopped it. -/
theorem exitCode_outcome (s : Session (Except Fault Changelog)) :
    (outcome s).exitCode = 0 ↔ ∃ c, s.result = .ok c := by
  unfold outcome
  split <;> simp_all

/-- A run that is asked for a changelog has an outcome. -/
theorem run_of_read {args : List Text} {o : Options} (h : read args = .ok (.compose o))
    (repo : Repository) : run repo args = .ok (outcome (compose repo args o)) := by
  rw [run, h]
  rfl

theorem compose_append_separator (repo : Repository) (args extra : List Text) (o : Options) :
    compose repo (args ++ separator :: extra) o = compose repo args o := by
  simp only [compose, releaseOf, lastTyped?_append_separator]

end CommandLine

end ReleaseNotes
