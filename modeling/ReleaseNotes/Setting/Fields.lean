/-
ReleaseNotes/Setting/Fields.lean

Values with fields.

A field of a table is found under its name.  A list has its items under their
positions, and its size under `length`.  The field `__proto__` holds a
collection that stands behind the table: what the table lacks is looked up
there.  Last come the operations that every collection has.  Where no collection
stands behind a value, its common ground does.

A value is put at the end of a path of fields, and what the path lacks is made
on the way: a list for a field that is a number above minus one, a record for
any other.  Flags, numbers and texts take no fields.  A text has its characters
and its `length`, an operation its `name` and `length`, and those are fixed.

Main facts: a record holds what was put into it last (`get?_put_self`), other
names are not touched (`get?_put_of_ne`), and arranging names loses none and
adds none (`mem_arranged`).
-/
import ReleaseNotes.Fault
import ReleaseNotes.Setting.Basic

namespace ReleaseNotes

namespace Setting

/-! ### Names of fields -/

/-- The position that a field name stands for, if it is one: a numeral without
needless zeros, below 2^32 - 1. -/
def position? (field : Text) : Option Nat :=
  (Number.digits? 10 field).filter fun n =>
    Number.digitsOf n = field ∧ n < Nat.pow 2 32 - 1

/-- The field that holds the size of a list. -/
def sizeName : Text := "length".toList

/-- The field that holds the collection behind a table. -/
def behindName : Text := "__proto__".toList

/-- Names in the order in which a table has them: positions by size, then the
others as they come. -/
def arranged (names : List Text) : List Text :=
  ((names.filterMap position?).mergeSort (· ≤ ·)).map Number.digitsOf
    ++ names.filter (position? · = none)

/-- Whether a field makes the value around it a list: it denotes a number above
minus one. -/
def isListField (field : Text) : Bool :=
  (Number.measure? field).any (·.isAbove (-1))

/-! ### Operations -/

/-- The field that makes a collection of the same kind. -/
def makerName : Text := "constructor".toList

/-- The field that gives a collection as text. -/
def textName : Text := "toString".toList

/-- The field that joins the items of a list. -/
def joinName : Text := "join".toList

/-- The field that gives the item at a place of a list. -/
def placeName : Text := "at".toList

/-- The operations of every collection that need nothing besides it. -/
def bareNames : List Text :=
  [textName, "toLocaleString".toList, "valueOf".toList]

/-- The operations of every collection that need something to work on. -/
def argumentNames : List Text :=
  [makerName, "hasOwnProperty".toList, "isPrototypeOf".toList, "propertyIsEnumerable".toList,
    "__defineGetter__".toList, "__defineSetter__".toList, "__lookupGetter__".toList,
    "__lookupSetter__".toList]

/-- The operations of lists only. -/
def listNames : List Text :=
  [joinName, placeName, "concat".toList, "copyWithin".toList, "entries".toList, "every".toList,
    "fill".toList, "filter".toList, "find".toList, "findIndex".toList, "findLast".toList,
    "findLastIndex".toList, "flat".toList, "flatMap".toList, "forEach".toList,
    "includes".toList, "indexOf".toList, "keys".toList, "lastIndexOf".toList, "map".toList,
    "pop".toList, "push".toList, "reduce".toList, "reduceRight".toList, "reverse".toList,
    "shift".toList, "slice".toList, "some".toList, "sort".toList, "splice".toList,
    "toReversed".toList, "toSorted".toList, "toSpliced".toList, "unshift".toList,
    "values".toList, "with".toList]

/-- The operation that a field name stands for, of a list or of any collection. -/
def operation? (ofList : Bool) (field : Text) : Option Setting :=
  if field = makerName then some (operation (if ofList then "Array".toList else "Object".toList))
  else if field ∈ bareNames ++ argumentNames ∨ ofList ∧ field ∈ listNames then
    some (operation field)
  else none

/-- An operation as text. -/
def operationText (name : Text) : Text :=
  "function ".toList ++ name ++ "() \x7b [native code] \x7d".toList

/-- Whether a field of an operation cannot be changed. -/
def isFixedOperationField (name field : Text) : Bool :=
  field = sizeName ∨ field = "name".toList
    ∨ field = "prototype".toList ∧ name ∈ ["Array".toList, "Object".toList]

/-! ### Looking up fields -/

/-- Items with their positions as names. -/
def numbered (items : List Setting) : List (Text × Setting) :=
  items.zipIdx.map fun item => (Number.digitsOf item.2, item.1)

/-- The size of a list. -/
def size? : Setting → Option Nat
  | list items => some items.length
  | table size _ => size
  | _ => none

/-- The fields that a value has itself. -/
def ownFields : Setting → List (Text × Setting)
  | list items => numbered items
  | table _ fields => fields
  | _ => []

/-- The size of a list as a field. -/
def sizeField (size : Option Nat) : List (Text × Setting) :=
  (size.map fun n : Nat => (sizeName, number n)).toList

mutual

/-- The fields of a value, nearest first: its own ones, then those behind it. -/
def fields : Setting → List (Text × Setting)
  | list items => sizeField items.length ++ numbered items
  | table size own => sizeField size ++ own ++ fieldsBehind own
  | common ground => sizeField (if ground = .lists then some 0 else none)
  | _ => []

/-- The fields behind a table that has fields itself. -/
def fieldsBehind : List (Text × Setting) → List (Text × Setting)
  | [] => []
  | (name, value) :: rest => if name = behindName then fields value else fieldsBehind rest

end

/-- Whether a value is a list or has one behind it. -/
def isListLike : Setting → Bool
  | list _ => true
  | table size own => size.isSome || own.any (·.1 = behindName)
  | common ground => ground = .lists
  | _ => false

/-- The ground behind a value; that of records is behind all others. -/
def ground (s : Setting) : Ground :=
  match s with
  | list _ => .lists
  | table size _ => if size.isSome then .lists else .records
  | common _ => .records
  | _ => .words

/-- The value in a field, if there is one. -/
def get? (s : Setting) (field : Text) : Option Setting :=
  (s.fields.lookup field).or
    (if field = behindName then some (common s.ground) else operation? s.isListLike field)

/-- Whether a field is something else than the operation of that name. -/
def hides (s : Setting) (field : Text) : Bool :=
  match s.fields.lookup field with
  | none => false
  | some (operation _) => false
  | some _ => true

/-- The item at a position, if there is one. -/
def item? (s : Setting) (n : Nat) : Option Setting :=
  s.fields.lookup (Number.digitsOf n)

/-- The items of a list, with its gaps. -/
def items (s : Setting) : List (Option Setting) :=
  (List.range (s.size?.getD 0)).map s.item?

/-! ### Putting values into fields -/

/-- Fields with one replaced, or added at the end. -/
def setField (field : Text) (value : Setting) :
    List (Text × Setting) → List (Text × Setting)
  | [] => [(field, value)]
  | (name, old) :: rest =>
    if name = field then (name, value) :: rest else (name, old) :: setField field value rest

/-- Whether a text has a field already: one of its UTF-16 units, or its size. -/
def isTextField (t field : Text) : Bool :=
  field = sizeName || (position? field).any (· < Text.units t)

/-- The number of items that a list can be given, if the value is one. -/
def listSize? : Setting → Option Nat
  | flag on => some on.toNat
  | number x =>
    if x.den = 1 ∧ 0 ≤ x.num ∧ x.num < Nat.pow 2 32 then some x.num.toNat else none
  | _ => none

/-- The fields that are left in a list of `n` items. -/
def truncated (n : Nat) (own : List (Text × Setting)) : List (Text × Setting) :=
  own.filter fun f => (position? f.1).all (· < n)

/-- Put a value into a list of `n` items.  A new size drops what lies beyond it,
and a position beyond the size makes the list longer. -/
def putList (n : Nat) (own : List (Text × Setting)) (field : Text) (value : Setting) :
    Except UsageError Setting :=
  if field = sizeName then
    match listSize? value with
    | some m => .ok (table (some m) (truncated m own))
    | none => .error .invalidSize
  else
    let n' := ((position? field).map (· + 1)).getD 0
    .ok (table (some (max n n')) (setField field value own))

/-- Put a value behind another one; only collections stand behind others, and
only behind collections. -/
def putBehind (s value : Setting) : Setting :=
  if s.isCollection && value.isCollection then
    table s.size? (setField behindName value s.ownFields)
  else s

/-- Put a value into a field.  A common ground is shared by all values of its kind,
so what is put there would show in all of them; this is not kept track of.  But
behind all records there must be no text, because every name of an option is
looked up there. -/
def put (s : Setting) (field : Text) (value : Setting) : Except UsageError Setting :=
  if field = behindName then .ok (s.putBehind value)
  else
    match s with
    | flag on => .error (.noFields field "boolean".toList
        (if on then "true".toList else "false".toList))
    | number x => .error (.noFields field "number".toList (Number.render x))
    | text t =>
      if isTextField t field then .error (.fixedField field "string".toList t)
      else .error (.noFields field "string".toList t)
    | list items => putList items.length (numbered items) field value
    | table (some n) own => putList n own field value
    | table none own => .ok (table none (setField field value own))
    | operation name =>
      if isFixedOperationField name field then
        .error (.fixedField field "function".toList (operationText name))
      else .ok s
    | common ground =>
      if ground = .records ∧ value.isText then .error .reservedName else .ok s

/-- The value in a field, or a new one that is to have the field `next`. -/
def inner (s : Setting) (field next : Text) : Setting :=
  (s.get? field).getD (if isListField next then list [] else empty)

/-- Put a value at the end of a path of fields.  What a field holds is put back
into it before anything further on is changed, so the first field that cannot
be changed gives the error. -/
def place (s : Setting) (path : List Text) (value : Setting) : Except UsageError Setting :=
  match path with
  | [] => .ok value
  | [field] => s.put field value
  | field :: next :: rest => do
    let found := s.inner field next
    let s ← s.put field found
    s.put field (← found.place (next :: rest) value)

/-! ### Small facts -/

theorem digitsOf_of_position? {field : Text} {n : Nat} (h : position? field = some n) :
    Number.digitsOf n = field := by
  have := (Option.filter_eq_some_iff.1 h).2
  simp only [decide_eq_true_eq] at this
  exact this.1

/-- Arranging names loses none and adds none. -/
theorem mem_arranged {name : Text} {names : List Text} : name ∈ arranged names ↔ name ∈ names := by
  simp only [arranged, List.mem_append, List.mem_map, List.mem_mergeSort, List.mem_filterMap,
    List.mem_filter, decide_eq_true_eq]
  constructor
  · rintro (⟨n, ⟨field, hf, hn⟩, rfl⟩ | h)
    · rwa [digitsOf_of_position? hn]
    · exact h.1
  · intro h
    cases hp : position? name with
    | none => exact .inr ⟨h, rfl⟩
    | some n => exact .inl ⟨n, ⟨name, h, hp⟩, digitsOf_of_position? hp⟩

theorem lookup_sizeField {name : Text} (h : name ≠ sizeName) (size : Option Nat) :
    (sizeField size).lookup name = none := by
  cases size <;> simp [sizeField, List.lookup_cons, beq_eq_false_iff_ne.2 h]

theorem lookup_setField_self (field : Text) (value : Setting) (own : List (Text × Setting)) :
    (setField field value own).lookup field = some value := by
  induction own with
  | nil => simp [setField]
  | cons f rest ih =>
    obtain ⟨name, old⟩ := f
    by_cases h : name = field
    · simp [setField, h]
    · simp [setField, h, List.lookup_cons, ih, beq_eq_false_iff_ne.2 (Ne.symm h)]

theorem lookup_setField_of_ne {field other : Text} (h : other ≠ field) (value : Setting)
    (own : List (Text × Setting)) :
    (setField field value own).lookup other = own.lookup other := by
  induction own with
  | nil => simp [setField, List.lookup_cons, beq_eq_false_iff_ne.2 h]
  | cons f rest ih =>
    obtain ⟨name, old⟩ := f
    by_cases hf : name = field
    · subst hf
      simp [setField, List.lookup_cons, beq_eq_false_iff_ne.2 h]
    · simp [setField, hf, List.lookup_cons, ih]

theorem mem_names_setField {name field : Text} {value : Setting} {own : List (Text × Setting)}
    (h : name ∈ (setField field value own).map (·.1)) : name = field ∨ name ∈ own.map (·.1) := by
  induction own with
  | nil => exact .inl (by simpa [setField] using h)
  | cons f rest ih =>
    obtain ⟨other, old⟩ := f
    by_cases ho : other = field
    · exact .inr (by simpa [setField, ho] using h)
    · simp only [setField, ho, if_false, List.map_cons, List.mem_cons] at h ⊢
      rcases h with rfl | h
      · exact .inr (.inl rfl)
      · rcases ih h with h | h
        · exact .inl h
        · exact .inr (.inr h)

theorem fieldsBehind_setField {field : Text} (h : field ≠ behindName) (value : Setting)
    (own : List (Text × Setting)) : fieldsBehind (setField field value own) = fieldsBehind own := by
  induction own with
  | nil => simp [setField, fieldsBehind, h]
  | cons f rest ih =>
    obtain ⟨name, old⟩ := f
    by_cases hf : name = field
    · simp [setField, hf, fieldsBehind, h]
    · simp [setField, hf, fieldsBehind, ih]

theorem any_setField_behind {field : Text} (h : field ≠ behindName) (value : Setting)
    (own : List (Text × Setting)) :
    (setField field value own).any (·.1 = behindName) = own.any (·.1 = behindName) := by
  induction own with
  | nil => simp [setField, h]
  | cons f rest ih =>
    obtain ⟨name, old⟩ := f
    by_cases hf : name = field
    · simp [setField, hf]
    · simp only [setField, hf, if_false, List.any_cons, ih]

/-- A record holds what was put into it last. -/
theorem get?_put_self {own : List (Text × Setting)} {field : Text} {value s : Setting}
    (hb : field ≠ behindName) (h : (table none own).put field value = .ok s) :
    s.get? field = some value := by
  simp only [put, hb, if_false] at h
  cases h
  simp [get?, fields, sizeField, List.lookup_append, lookup_setField_self]

/-- Putting a value into a record does not touch other names. -/
theorem get?_put_of_ne {own : List (Text × Setting)} {field other : Text} {value s : Setting}
    (hb : field ≠ behindName) (hn : other ≠ field) (h : (table none own).put field value = .ok s) :
    s.get? other = (table none own).get? other := by
  simp only [put, hb, if_false] at h
  cases h
  simp [get?, fields, sizeField, ground, isListLike, List.lookup_append, lookup_setField_of_ne hn,
    fieldsBehind_setField hb, any_setField_behind hb]

end Setting

end ReleaseNotes
