/-
ReleaseNotes/CommandLine/Options.lean

What a command line asks for.

The values found on the command line are put into one record, which starts with
the arguments behind the separator and the defaults.  A name with fields puts
its value at the end of a path inside that record.

A request for help is met whatever else is asked for.  Otherwise every option
must be known, and every option that takes a value must have one: an option
that is only switched on or off has none.
-/
import ReleaseNotes.CommandLine.Stored
import ReleaseNotes.Setting.Fields

namespace ReleaseNotes

namespace CommandLine

/-! ### The record of all options -/

/-- The options that have a value without being given. -/
def defaults : List (Text × Setting) :=
  ValueOption.all.filterMap fun o => o.default?.map fun t => (o.name, .text t)

/-- A record that starts with the arguments behind the separator. -/
def record (rest : List Text) (fields : List (Text × Setting)) : Setting :=
  .table none ((separator, .list (rest.map .text)) :: fields)

/-- Put a value into the record of all options. -/
def enter (s : Setting) (entry : List Text × Setting) : Except UsageError Setting :=
  s.place entry.1 entry.2

/-- The options of a command line, as a record. -/
def settings (args : List Text) : Except UsageError Setting :=
  let found := occurrences args
  if refusesPlain false found then .error .plainRefused
  else if found.any fun o => isReserved o.name then .error .reservedName
  else (entries found).foldlM enter (record (behindSeparator args) defaults)

/-- The first unknown option. -/
def unknown? (s : Setting) : Option Text :=
  (Setting.arranged (s.ownFields.map (·.1))).find? (!isKnown ·)

/-- The first option that should have a value and is only on or off. -/
def valueless? (s : Setting) : Option ValueOption :=
  ValueOption.all.find? fun o => (s.get? o.name).any (·.isFlag)

/-! ### What is asked for -/

/-- The values of the options, as far as they are given or have a default. -/
structure Options where
  tag : Option Setting
  branch : Option Setting
  limit : Option Setting
  address : Option Setting
  directory : Option Setting

/-- What a command line asks for. -/
inductive Invocation
  /-- An account of the program: how it is used, and maybe its version. -/
  | explain (help version : Bool)
  | compose (options : Options)

/-- Whether a switch is on. -/
def isOn (s : Setting) (name : Text) : Bool :=
  (s.get? name).any (·.isOn)

/-- What the options ask for. -/
def invocationOf (s : Setting) : Except UsageError Invocation :=
  let help := isOn s "help".toList
  let version := isOn s "version".toList
  if help || version then .ok (.explain help version)
  else
    match unknown? s, valueless? s with
    | some name, _ => .error (.unknownOption name)
    | none, some o => .error (.missingValue o.usage)
    | none, none =>
      let get (o : ValueOption) := s.get? o.name
      .ok (.compose ⟨get .tag, get .branch, get .limit, get .address, get .directory⟩)

/-- What a command line asks for. -/
def read (args : List Text) : Except UsageError Invocation := do
  invocationOf (← settings args)

end CommandLine

end ReleaseNotes
