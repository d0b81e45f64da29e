/-
ReleaseNotes/CommandLine/Typed.lean

The value typed for an option, as it stands on the command line.

An argument `--name` has the next argument as its value, unless that begins
with a dash; an argument `--name=value` has the text behind the sign, which may
be empty.  The last value counts, a later occurrence without a value changes
nothing, and nothing is looked at from the first argument `--` on.

Main facts: one argument at a time (`lastTyped?_cons`), and arguments behind
`--` do not matter (`lastTyped?_append_separator`).
-/
import ReleaseNotes.Text.Basic

namespace ReleaseNotes

namespace CommandLine

/-- The argument that ends the options. -/
def separator : Text := ['-', '-']

/-- The arguments behind the separator. -/
def behindSeparator (args : List Text) : List Text :=
  (args.dropWhile (· ≠ separator)).drop 1

/-- Whether an argument begins with a dash. -/
def isDashed (arg : Text) : Bool :=
  arg.head? == some '-'

/-- An option as it is typed. -/
def flag (name : Text) : Text :=
  '-' :: '-' :: name

/-- The value that the argument `arg` gives to the option `name`, `next` being
the argument behind it. -/
def typedAt? (name arg : Text) (next : Option Text) : Option Text :=
  if arg = flag name then next.filter (!isDashed ·)
  else if (flag name ++ ['=']).isPrefixOf arg then some (arg.drop ((flag name).length + 1))
  else none

/-- The last value typed for the option `name`. -/
def lastTyped? (name : Text) : List Text → Option Text
  | [] => none
  | arg :: rest =>
    if arg = separator then none
    else (lastTyped? name rest).or (typedAt? name arg rest.head?)

theorem lastTyped?_cons {arg : Text} (h : arg ≠ separator) (name : Text) (rest : List Text) :
    lastTyped? name (arg :: rest) = (lastTyped? name rest).or (typedAt? name arg rest.head?) := by
  simp [lastTyped?, h]

/-- A separator is no value, so what precedes it has no value behind it. -/
theorem typedAt?_separator (name arg : Text) :
    typedAt? name arg (some separator) = typedAt? name arg none := rfl

/-- Arguments behind the separator do not matter. -/
theorem lastTyped?_append_separator (name : Text) (args extra : List Text) :
    lastTyped? name (args ++ separator :: extra) = lastTyped? name args := by
  induction args with
  | nil => simp [lastTyped?]
  | cons arg rest ih =>
    simp only [List.cons_append, lastTyped?, ih]
    cases rest with
    | nil => simp [typedAt?_separator]
    | cons next rest => rfl

end CommandLine

end ReleaseNotes
