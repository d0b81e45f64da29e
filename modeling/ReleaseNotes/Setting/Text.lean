/-
ReleaseNotes/Setting/Text.lean

Values as text.

A flag, a number and a text are written as they are.  A list is written as its
items with commas between them, a gap as nothing, and every record in the same
way.  What puts a value where an operation is looked for gets in the way: a
collection whose `toString` is hidden has no text, and a list whose `join` is
hidden is written as records are.

Main facts: the texts of items are found one by one (`itemTexts_eq_mapM`), and
what is joined are the texts of the fields that a value shows
(`lookup_shownTexts`).
-/
import ReleaseNotes.Setting.Fields

namespace ReleaseNotes

namespace Setting

/-- The remark that stands for a record. -/
def recordText : Text := "[object Object]".toList

/-- The remark that stands for a list whose items are not joined. -/
def listText : Text := "[object Array]".toList

/-- The most commas that a text may have. -/
def longest : Nat := Nat.pow 2 29 - 24

/-- The size that a field stands for, from its value and its text. -/
def fieldSize (value : Setting) (given : Except Fault Text) : Except Fault Nat :=
  match value with
  | flag on => .ok on.toNat
  | number x => .ok x.floor.toNat
  | _ => do
    match Number.measure? (← given) with
    | some (.finite x) => .ok x.floor.toNat
    | some (.infinite false) => .error .textTooLong
    | _ => .ok 0

/-- How many items a value has as far as it is taken for a list, from the texts
of its fields. -/
def extent (s : Setting) (texts : List (Text × Except Fault Text)) : Except Fault Nat :=
  match s.fields.lookup sizeName with
  | some value => fieldSize value ((texts.lookup sizeName).getD (.ok []))
  | none => .ok 0

/-- The texts at the first `extent` positions, with commas between them. -/
def joined (extent : Nat) (texts : List (Text × Except Fault Text)) : Except Fault Text :=
  if longest < extent - 1 then .error .textTooLong
  else
    [','].intercalate <$> (List.range extent).mapM fun n =>
      (texts.lookup (Number.digitsOf n)).getD (.ok [])

/-- The text of a table whose fields have the given texts. -/
def tableText (s : Setting) (texts : List (Text × Except Fault Text)) : Except Fault Text :=
  if s.hides textName then .error .noText
  else if !s.isListLike then .ok recordText
  else if s.hides joinName then .ok (if s.size?.isSome then listText else recordText)
  else do joined (← s.extent texts) texts

mutual

/-- A value as text. -/
def toText : Setting → Except Fault Text
  | flag on => .ok (if on then "true".toList else "false".toList)
  | number x => .ok (Number.render x)
  | text t => .ok t
  | list items => [','].intercalate <$> itemTexts items
  | table size own => tableText (table size own) (ownTexts own ++ textsBehind own)
  | operation name => .ok (operationText name)
  | common ground => .ok (if ground = .lists then [] else recordText)

/-- The texts of the items of a list. -/
def itemTexts : List Setting → Except Fault (List Text)
  | [] => .ok []
  | s :: rest => do
    let t ← toText s
    return t :: (← itemTexts rest)

/-- The text of each item, under its position. -/
def numberedTexts (n : Nat) : List Setting → List (Text × Except Fault Text)
  | [] => []
  | s :: rest => (Number.digitsOf n, toText s) :: numberedTexts (n + 1) rest

/-- The text of each of a table's fields. -/
def ownTexts : List (Text × Setting) → List (Text × Except Fault Text)
  | [] => []
  | (name, s) :: rest => (name, toText s) :: ownTexts rest

/-- The texts of the fields behind a table. -/
def textsBehind : List (Text × Setting) → List (Text × Except Fault Text)
  | [] => []
  | (name, s) :: rest => if name = behindName then shownTexts s else textsBehind rest

/-- The texts of the fields that a value shows, without its size. -/
def shownTexts : Setting → List (Text × Except Fault Text)
  | list items => numberedTexts 0 items
  | table _ own => ownTexts own ++ textsBehind own
  | _ => []

end

/-! ### Small facts -/

theorem itemTexts_eq_mapM (items : List Setting) : itemTexts items = items.mapM toText := by
  induction items with
  | nil => simp [itemTexts, pure, Except.pure]
  | cons s rest ih => simp [itemTexts, ih]

theorem lookup_ownTexts (own : List (Text × Setting)) (name : Text) :
    (ownTexts own).lookup name = (own.lookup name).map toText := by
  induction own with
  | nil => rfl
  | cons f rest ih =>
    obtain ⟨other, s⟩ := f
    cases h : name == other <;> simp [ownTexts, List.lookup_cons, h, ih]

theorem lookup_numberedTexts (n : Nat) (items : List Setting) (name : Text) :
    (numberedTexts n items).lookup name
      = (((items.zipIdx n).map fun item => (Number.digitsOf item.2, item.1)).lookup name).map
          toText := by
  induction items generalizing n with
  | nil => rfl
  | cons s rest ih =>
    cases h : name == Number.digitsOf n <;> simp [numberedTexts, List.lookup_cons, h, ih]

mutual

/-- The texts that a value shows are those of the fields that it shows. -/
theorem lookup_shownTexts {name : Text} (h : name ≠ sizeName) (s : Setting) :
    (shownTexts s).lookup name = (s.fields.lookup name).map toText := by
  match s with
  | list items =>
    simp [shownTexts, fields, List.lookup_append, lookup_sizeField h, lookup_numberedTexts,
      numbered]
  | table size own =>
    simp [shownTexts, fields, List.lookup_append, lookup_sizeField h, lookup_ownTexts,
      lookup_textsBehind h own, Option.map_or]
  | common ground => simp [shownTexts, fields, lookup_sizeField h]
  | flag _ | number _ | text _ | operation _ => simp [shownTexts, fields]

theorem lookup_textsBehind {name : Text} (h : name ≠ sizeName) (own : List (Text × Setting)) :
    (textsBehind own).lookup name = ((fieldsBehind own).lookup name).map toText := by
  match own with
  | [] => rfl
  | (other, s) :: rest =>
    by_cases hb : other = behindName
    · simp [textsBehind, fieldsBehind, hb, lookup_shownTexts h s]
    · simp [textsBehind, fieldsBehind, hb, lookup_textsBehind h rest]

end

end Setting

end ReleaseNotes
