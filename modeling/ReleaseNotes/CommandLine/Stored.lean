/-
ReleaseNotes/CommandLine/Stored.lean

The values that the occurrences of an option add up to.

The first value of an option is kept as it is, further ones make a list; an
occurrence that switches the option off forgets what was there before.  The two
forms of a switch have one value, that of the form used first.  `_` is the name
of the plain arguments, and never the name of an option; neither is
`__proto__`.

A value is kept under the name as it was typed, so `repo-url` and `repoUrl`
are kept apart here and meet later, by their common spelling: `entries` lists
each spelling once, at the place of its first use, with the value of the name
that was first used last.  Names that are positions come before all others.

Plain arguments can be switched off by `--no-_`; a further one is an error then.

Main fact: the value of a name is that after its last occurrence
(`storedAt_eq_some_iff`).
-/
import ReleaseNotes.CommandLine.Names
import ReleaseNotes.CommandLine.Occurrence

namespace ReleaseNotes

namespace CommandLine

/-! ### Values of one name -/

/-- The value that one occurrence gives.  The value of a switch is off when it
says so or is empty, and on otherwise. -/
def Given.setting (switch : Bool) : Given → Setting
  | .alone => .flag true
  | .negated => .flag false
  | .value t => if switch then .flag (t ≠ "false".toList ∧ t ≠ []) else Setting.ofText t
  | .plain t => .text t

/-- A further value besides those there are. -/
def join (old : Option Setting) (new : Setting) : Setting :=
  match old with
  | none => new
  | some (.list items) => .list (items ++ [new])
  | some s => .list [s, new]

/-- The value of an option after one more occurrence.  Where an operation of
all collections has the option's name, it counts as a first value. -/
def Occurrence.update (old : Option Setting) (o : Occurrence) : Setting :=
  match o.given with
  | .negated => .flag false
  | given => join (old.or (Setting.operation? false o.name)) (given.setting (isSwitch o.name))

/-- The value kept under a typed name, if the name is used. -/
def storedAt (found : List Occurrence) (name : Text) : Option Setting :=
  (found.filter (·.name = name)).foldl (fun old o => some (o.update old)) none

/-! ### Names in use -/

/-- Whether a typed name is one of an option. -/
def isOptionName (name : Text) : Bool :=
  name ≠ plainName ∧ name ≠ Setting.behindName

/-- The names of options that occur, each once. -/
def usedNames (found : List Occurrence) : List Text :=
  Setting.arranged ((found.map (·.name)).filter isOptionName).eraseDups

/-- The names with a value: those used, and the other forms of switches used. -/
def names (found : List Occurrence) : List Text :=
  let used := usedNames found
  used ++ (used.filterMap otherForm?).filter (· ∉ used)

/-- The form of a switch that was used first; other options have one form. -/
def leader (found : List Occurrence) (name : Text) : Text :=
  ((usedNames found).find? fun n => n = name ∨ otherForm? n = some name).getD name

/-- The value of a typed name or of the other form of it. -/
def valueOf? (found : List Occurrence) (name : Text) : Option Setting :=
  storedAt found (leader found name)

/-- Each spelled name with its value. -/
def entries (found : List Occurrence) : List (List Text × Setting) :=
  ((names found).map pathOf).eraseDups.filterMap fun path =>
    (((names found).filter (pathOf · = path)).getLast?.bind (valueOf? found)).map (path, ·)

/-! ### Plain arguments -/

/-- Whether an occurrence adds a plain argument: an argument without a dash, or
the value of a switch that is neither `true` nor `false`. -/
def Occurrence.addsPlain (o : Occurrence) : Bool :=
  match o.given with
  | .plain _ => true
  | .value t => isSwitch o.name && t ≠ "true".toList && t ≠ "false".toList
  | _ => false

/-- Whether there is a plain argument while they are switched off, which they
are at first if `off` says so. -/
def refusesPlain (off : Bool) : List Occurrence → Bool
  | [] => false
  | o :: rest =>
    if o.addsPlain then off || refusesPlain off rest
    else if o.name = plainName then refusesPlain (o.given = .negated) rest
    else refusesPlain off rest

/-! ### Small facts -/

theorem update_of_negated {o : Occurrence} (h : o.given = .negated) (old : Option Setting) :
    o.update old = .flag false := by
  rw [Occurrence.update, h]

theorem update_of_ne_negated {o : Occurrence} (hop : Setting.operation? false o.name = none)
    (h : o.given ≠ .negated) (old : Option Setting) :
    o.update old = join old (o.given.setting (isSwitch o.name)) := by
  unfold Occurrence.update
  rw [hop, Option.or_none]
  split
  · exact absurd ‹_› h
  · rfl

theorem update_none {o : Occurrence} (h : Setting.operation? false o.name = none) :
    o.update none = o.given.setting (isSwitch o.name) := by
  unfold Occurrence.update
  split
  · rename_i hg
    rw [hg, Given.setting]
  · rw [h]
    rfl

/-- The stored value is the one after the last occurrence of the name. -/
theorem storedAt_eq_some_iff {found : List Occurrence} {name : Text} {s : Setting} :
    storedAt found name = some s ↔ ∃ before o,
      found.filter (·.name = name) = before ++ [o]
        ∧ o.update (before.foldl (fun old o => some (o.update old)) none) = s := by
  rw [storedAt]
  rcases List.eq_nil_or_concat (found.filter (·.name = name)) with e | ⟨before, o, e⟩
  · simp [e]
  · rw [e, List.concat_eq_append, List.foldl_append]
    constructor
    · intro h
      exact ⟨before, o, rfl, Option.some.inj h⟩
    · rintro ⟨before', o', he, hs⟩
      obtain ⟨rfl, hl⟩ := List.append_inj' he rfl
      obtain rfl := List.head_eq_of_cons_eq hl
      exact congrArg some hs

end CommandLine

end ReleaseNotes
