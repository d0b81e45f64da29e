/-
ReleaseNotes/CommandLine/Values.lean

Tag, limit, branch, directory and repository address from the values of their
options.

Main facts: a limit is accepted exactly when it is a positive whole number
(`checkLimit_eq_ok_iff`), and a tag that is accepted is not blank
(`tagName_ne_nil`).
-/
import ReleaseNotes.CommandLine.Options
import ReleaseNotes.Setting.Text

namespace ReleaseNotes

namespace CommandLine

/-! ### The limit -/

/-- Whether a number is a positive whole number. -/
def isCount (x : Rat) : Bool :=
  x.den == 1 && 0 < x.num

/-- A limit that is a positive whole number; `given` is how it was given. -/
def checkLimit (given : Text) (x : Option Rat) : Except Fault Rat :=
  match x.filter isCount with
  | some n => .ok n
  | none => .error (.invalidLimit given)

/-- The limit that an option's value stands for; a text may have blank margins. -/
def limitOf : Option Setting → Except Fault Rat
  | none => .ok defaultLimit
  | some (.number x) => checkLimit (Number.render x) (some x)
  | some (.text t) => checkLimit t (Number.read? t)
  | some _ => .error .limitNotText

theorem checkLimit_eq_ok_iff {given : Text} {x : Option Rat} {n : Rat} :
    checkLimit given x = .ok n ↔ x = some n ∧ isCount n = true := by
  unfold checkLimit
  split
  · rename_i m h
    have := Option.filter_eq_some_iff.1 h
    constructor
    · rintro ⟨⟩
      exact this
    · rintro ⟨rfl, -⟩
      simpa using (Option.some.inj this.1).symm
  · rename_i h
    refine ⟨nofun, fun ⟨hx, hc⟩ => ?_⟩
    exact absurd (Option.filter_eq_some_iff.2 ⟨hx, hc⟩) (by simp [h])

/-! ### The tag -/

/-- Of several values the last one, if there is one. -/
def lastValue : Setting → Except Fault (Option Setting)
  | .list items => .ok items.getLast?
  | .table (some n) own =>
    let s := Setting.table (some n) own
    if s.hides Setting.placeName then .error .tagNotList
    else .ok (if n = 0 then none else s.item? (n - 1))
  | value => .ok (some value)

/-- The text that an option's value stands for; without a value it is empty. -/
def textOf : Option Setting → Except Fault Text
  | none => .ok []
  | some s => s.toText

/-- A tag without its blank margins, unless nothing is left. -/
def checkTag (given : Text) : Except Fault Text :=
  match Text.trim given with
  | [] => .error .missingTag
  | tag => .ok tag

/-- The tag that an option's value stands for, without blank margins. -/
def tagName (value : Option Setting) : Except Fault Text := do
  let last ← match value with
    | none => .ok none
    | some s => lastValue s
  checkTag (← textOf last)

theorem ne_nil_of_checkTag {given tag : Text} (h : checkTag given = .ok tag) : tag ≠ [] := by
  unfold checkTag at h
  split at h
  · cases h
  · rename_i hn
    cases h
    exact hn

theorem tagName_ne_nil {value : Option Setting} {tag : Text} (h : tagName value = .ok tag) :
    tag ≠ [] := by
  simp only [tagName, bind, Except.bind] at h
  repeat' split at h
  all_goals first | cases h | exact ne_nil_of_checkTag h

/-! ### Branch, directory and address -/

/-- The branch that an option's value stands for. -/
def branchName : Option Setting → Except Fault Text
  | none => .ok defaultBranch
  | some s => s.toText

/-- The directory that an option's value stands for. -/
def directoryOf : Option Setting → Directory
  | none => .current
  | some (.text p) => .path p
  | some value => .invalid value

/-- The repository address that an option's value stands for, if it is a text. -/
def addressOf? : Option Setting → Option Text
  | none => some Markdown.defaultAddress
  | some (.text u) => some u
  | some _ => none

/-! ### The release -/

/-- The release that a command line asks for.  Tag and branch are taken as they
are typed; where nothing is typed for them, from the value of the option. -/
def releaseOf (args : List Text) (o : Options) : Except Fault Release := do
  let typed (name : ValueOption) := lastTyped? name.name args
  let tag ← tagName (((typed .tag).map Setting.text).or o.tag)
  let branch ← match typed .branch with
    | some b => .ok b
    | none => branchName o.branch
  let limit ← limitOf o.limit
  return { tag, branch, limit, directory := directoryOf o.directory }

end CommandLine

end ReleaseNotes
