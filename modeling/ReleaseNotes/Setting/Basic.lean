/-
ReleaseNotes/Setting/Basic.lean

Values that options take on the command line.

An option without a value is a flag.  A typed text that reads as a number is
kept as the number; any other text is kept as it is.  An option given several
times has the list of its values.  One whose name goes on behind a dot has a
table: a record, or a list that is filled by position and may have gaps.

Two kinds of value are typed by nobody.  Every collection comes with operations,
which are found by name as fields are, and behind all values of a kind lies a
common ground.

Main fact: typed text becomes a number exactly when it reads as one
(`ofText_eq_number_iff`).
-/
import ReleaseNotes.Number.Decimal
import ReleaseNotes.Number.Numeral

namespace ReleaseNotes

/-- The kinds of value that have a common ground. -/
inductive Ground
  /-- Flags, numbers, texts and operations. -/
  | words
  | lists
  | records
deriving DecidableEq, Repr

/-- The value of an option. -/
inductive Setting
  | flag (on : Bool)
  | number (x : Rat)
  | text (t : Text)
  /-- The values of an option that is given several times. -/
  | list (items : List Setting)
  /-- Fields by name.  With a size it is a list, whose positions are fields. -/
  | table (size : Option Nat) (fields : List (Text × Setting))
  /-- An operation that comes with every collection. -/
  | operation (name : Text)
  /-- What lies behind all values of a kind. -/
  | common (ground : Ground)
deriving Repr

namespace Setting

/-- The value of typed text. -/
def ofText (t : Text) : Setting :=
  match Number.read? t with
  | some x => number x
  | none => text t

theorem ofText_eq_number_iff {t : Text} {x : Rat} :
    ofText t = number x ↔ Number.read? t = some x := by
  unfold ofText
  split <;> simp_all

theorem ofText_eq_text_iff {t s : Text} : ofText t = text s ↔ Number.read? t = none ∧ t = s := by
  unfold ofText
  split <;> simp_all

/-- A record without fields. -/
def empty : Setting := table none []

/-- Whether a value counts as given and not switched off. -/
def isOn : Setting → Bool
  | flag on => on
  | number x => x != 0
  | text t => !t.isEmpty
  | _ => true

/-- Whether a value is only on or off. -/
def isFlag : Setting → Bool
  | flag _ => true
  | _ => false

/-- Whether a value is a text. -/
def isText : Setting → Bool
  | text _ => true
  | _ => false

/-- Whether a value is a list or a record. -/
def isCollection : Setting → Bool
  | list _ => true
  | table _ _ => true
  | _ => false

end Setting

end ReleaseNotes
