/-
ReleaseNotes/CommandLine/Occurrence.lean

The options that occur on a command line, and the other arguments among them.

Every argument with a leading dash is one occurrence of an option or several:

* behind the dashes, `no-` and a name switch that option off;
* otherwise a name goes up to the first `=` behind its first character, and
  what follows the sign is the value.  Without a value, or with an empty one,
  the next argument is the value, unless it begins with a dash too;
* two dashes make one option of the name, any other number of dashes one option
  of each character, of which the last has the value.

An argument without a dash that is no value is a plain argument.  All of them
are kept under the name `_`.  An argument `--` ends the options.

Main fact: arguments behind `--` do not matter (`occurrences_append_separator`).
-/
import ReleaseNotes.CommandLine.Typed

namespace ReleaseNotes

namespace CommandLine

/-- How an option is given. -/
inductive Given
  /-- Without a value. -/
  | alone
  /-- Switched off. -/
  | negated
  | value (text : Text)
  /-- As an argument without a dash. -/
  | plain (text : Text)
deriving DecidableEq, Repr

/-- The name of the plain arguments. -/
def plainName : Text := ['_']

/-- An option with the way it is given, or a plain argument. -/
structure Occurrence where
  name : Text
  given : Given
deriving DecidableEq, Repr

/-- The name and the value in an argument without its dashes; the value is
empty when there is none. -/
def nameAndValue : Text → Text × Text
  | [] => ([], [])
  | c :: s => (c :: s.takeWhile (· != '='), (s.dropWhile (· != '=')).drop 1)

/-- One option of each character, the last one given as said. -/
def cluster (given : Given) : Text → List Occurrence
  | [] => []
  | [c] => [⟨[c], given⟩]
  | c :: s => ⟨[c], .alone⟩ :: cluster given s

/-- The options of a name behind so many dashes. -/
def spread (dashes : Nat) (name : Text) (given : Given) : List Occurrence :=
  if dashes = 2 then [⟨name, given⟩] else cluster given name

/-- The number of dashes at the start of an argument. -/
def dashCount (arg : Text) : Nat :=
  (arg.takeWhile (· == '-')).length

/-- The beginning of a name that switches an option off. -/
def negation : Text := "no-".toList

/-- The name that `text` switches off. -/
def negated? (text : Text) : Option Text :=
  if negation.isPrefixOf text then some (text.drop negation.length) else none

/-- The options in one argument, `next` being the argument behind it, and
whether they take that as their value. -/
def readArgument (arg : Text) (next : Option Text) : List Occurrence × Bool :=
  let dashes := dashCount arg
  let text := arg.drop dashes
  if dashes = 0 then ([⟨plainName, .plain arg⟩], false)
  else
    match negated? text, nameAndValue text, next.filter (!isDashed ·) with
    | some name, _, _ => ([⟨name, .negated⟩], false)
    | none, (name, c :: value), _ => (spread dashes name (.value (c :: value)), false)
    | none, (name, []), some value => (spread dashes name (.value value), true)
    | none, (name, []), none => (spread dashes name .alone, false)

/-- The options in a list of arguments, whose first one may already be taken
as a value. -/
def occurrencesFrom (taken : Bool) : List Text → List Occurrence
  | [] => []
  | arg :: rest =>
    if taken then occurrencesFrom false rest
    else if arg = separator then []
    else
      let (found, takes) := readArgument arg rest.head?
      found ++ occurrencesFrom takes rest

/-- The options that occur in a list of arguments, in order. -/
def occurrences (args : List Text) : List Occurrence :=
  occurrencesFrom false args

theorem readArgument_separator (arg : Text) :
    readArgument arg (some separator) = readArgument arg none := rfl

/-- An option takes nothing as its value when there is nothing. -/
theorem readArgument_none (arg : Text) : (readArgument arg none).2 = false := by
  simp only [readArgument]
  split
  · rfl
  · split <;> simp_all

/-- Arguments behind the separator do not matter. -/
theorem occurrences_append_separator (args extra : List Text) :
    occurrences (args ++ separator :: extra) = occurrences args := by
  have h : ∀ taken, (args = [] → taken = false) →
      occurrencesFrom taken (args ++ separator :: extra) = occurrencesFrom taken args := by
    induction args with
    | nil => intro taken ht; simp [ht rfl, occurrencesFrom]
    | cons arg rest ih =>
      intro taken _
      cases taken with
      | true => simpa [occurrencesFrom] using ih false fun _ => rfl
      | false =>
        have hr : readArgument arg (rest ++ separator :: extra).head?
            = readArgument arg rest.head? := by
          cases rest with
          | nil => exact readArgument_separator arg
          | cons next rest => rfl
        have ht : rest = [] → (readArgument arg rest.head?).2 = false := by
          rintro rfl
          exact readArgument_none arg
        simp only [List.cons_append, occurrencesFrom, hr, ih _ ht, ih false fun _ => rfl]
  exact h false fun _ => rfl

end CommandLine

end ReleaseNotes
