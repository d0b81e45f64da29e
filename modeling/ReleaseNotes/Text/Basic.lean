/-
ReleaseNotes/Text/Basic.lean

Text as a list of characters, and its length in UTF-16 units.

Every rule of this library (blank margins, separators, references, options)
looks at a text from its first character on, so a text is the list of its
characters: the rules are recursions on it, and proofs are inductions on it.

A character takes one UTF-16 unit, or two above U+FFFF.  Units are counted in
two places only: the colouring of terminal text leaves the first units of the
text alone, and the name of an option is long when it has two units or more.

Main fact: a cut after `n` units loses nothing (`splitUnits_append`).
-/

namespace ReleaseNotes

/-- A text: its characters in order. -/
abbrev Text := List Char

instance : LawfulBEq Text := inferInstanceAs (LawfulBEq (List Char))

namespace Text

/-- UTF-16 units of one character. -/
def unitsOf (c : Char) : Nat :=
  if 0xFFFF < c.toNat then 2 else 1

/-- UTF-16 units of a text. -/
def units : Text → Nat
  | [] => 0
  | c :: s => unitsOf c + units s

/-- Cut a text at the first character that starts at unit `n` or later. -/
def splitUnits : Nat → Text → Text × Text
  | _, [] => ([], [])
  | n, c :: s =>
    if n = 0 then ([], c :: s)
    else
      let (front, rest) := splitUnits (n - unitsOf c) s
      (c :: front, rest)

/-- A text that is there and is not empty. -/
def present? : Option Text → Option Text
  | some (c :: s) => some (c :: s)
  | _ => none

/-! ### Small facts -/

theorem present?_eq_some {o : Option Text} {s : Text} (h : present? o = some s) :
    o = some s ∧ s ≠ [] := by
  unfold present? at h
  split at h
  · cases h
    exact ⟨rfl, List.cons_ne_nil _ _⟩
  · cases h

/-- The two parts of a cut make up the text. -/
theorem splitUnits_append (n : Nat) (s : Text) :
    (splitUnits n s).1 ++ (splitUnits n s).2 = s := by
  induction s generalizing n with
  | nil => rfl
  | cons c s ih =>
    by_cases h : n = 0
    · simp [splitUnits, h]
    · simp [splitUnits, h, ih]

end Text

end ReleaseNotes
