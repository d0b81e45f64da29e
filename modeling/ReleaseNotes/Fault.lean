/-
ReleaseNotes/Fault.lean

What can go wrong, and how it is worded.

A `UsageError` is found on the command line before anything is done.  A `Fault`
stops a run that was asked for properly.  Git failing is a fault only for a
caller who asks git a single question: a changelog is built from whatever
answers there are.
-/
import ReleaseNotes.Text.Basic

namespace ReleaseNotes

/-- What stops a run. -/
inductive Fault
  | gitFailed
  | missingTag
  /-- The limit, as it was given, is no positive whole number. -/
  | invalidLimit (given : Text)
  /-- The limit is neither a number nor a text. -/
  | limitNotText
  /-- The address of the repository is no text. -/
  | addressNotText
  /-- The tag is a list whose last value cannot be asked for. -/
  | tagNotList
  /-- A list or a record has no text. -/
  | noText
  /-- The text of a list is too long. -/
  | textTooLong
deriving DecidableEq, Repr

/-- The wording of a fault. -/
def Fault.message : Fault → Text
  | gitFailed => "Command failed: git".toList
  | missingTag => "Missing required option \"--tag <name>\".".toList
  | invalidLimit given =>
    "Invalid limit \"".toList ++ given ++ "\". Expected a positive integer.".toList
  | limitNotText => "limit.trim is not a function".toList
  | addressNotText => "repositoryUrl.replace is not a function".toList
  | tagNotList => "tag.at is not a function".toList
  | noText => "Cannot convert object to primitive value".toList
  | textTooLong => "Invalid string length".toList

/-- What is wrong with a command line. -/
inductive UsageError
  | unknownOption (name : Text)
  /-- An option that needs a value has none; `usage` shows how it is written. -/
  | missingValue (usage : Text)
  /-- A field is put into a value that has no fields; `kind` and `value` describe it. -/
  | noFields (field kind value : Text)
  /-- A field is put where there is one that cannot be changed. -/
  | fixedField (field kind value : Text)
  /-- A list is given a size that no list has. -/
  | invalidSize
  /-- An option has a name that is reserved. -/
  | reservedName
  /-- An argument that is no option comes when such arguments are switched off. -/
  | plainRefused
deriving DecidableEq, Repr

/-- An option's name with its dashes: two, or one when the name is short. -/
def dashed (name : Text) : Text :=
  if 1 < Text.units name then '-' :: '-' :: name else '-' :: name

/-- A value as an error shows it. -/
def described (kind value : Text) : Text :=
  kind ++ " '".toList ++ value ++ ['\'']

/-- The wording of a usage error. -/
def UsageError.message : UsageError → Text
  | unknownOption name => "Unknown option `".toList ++ dashed name ++ ['`']
  | missingValue usage => "option `".toList ++ usage ++ "` value is missing".toList
  | noFields field kind value =>
    "Cannot create property '".toList ++ field ++ "' on ".toList ++ described kind value
  | fixedField field kind value =>
    "Cannot assign to read only property '".toList ++ field ++ "' of ".toList
      ++ described kind value
  | invalidSize => "Invalid array length".toList
  | reservedName => "arr.shift is not a function".toList
  | plainRefused => "out._.push is not a function".toList

end ReleaseNotes
