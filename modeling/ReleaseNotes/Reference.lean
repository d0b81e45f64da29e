/-
ReleaseNotes/Reference.lean

References to pull requests in a message.

A message names a pull request by `#` and digits, in parentheses or not, or by
`PR`, blanks or none, and digits.  Each of the three spellings is a token whose
length the functions here measure; a title is what is left without them.  The
number of a pull request is read more freely: blanks may follow `#` as well.

Main fact: the number read from a message is a non-empty run of digits
(`number?_eq_some`).
-/
import ReleaseNotes.Text.Blank
import ReleaseNotes.Text.Search

namespace ReleaseNotes

namespace Reference

/-- The digits at the start of a text. -/
def digits (s : Text) : Text :=
  s.takeWhile Char.isDigit

/-! ### Tokens -/

/-- The length of `#` and digits at the start of a text. -/
def hashToken : Text → Nat
  | '#' :: s => if digits s = [] then 0 else (digits s).length + 1
  | _ => 0

/-- The length of `#` and digits in parentheses at the start of a text. -/
def bracketToken : Text → Nat
  | '(' :: s =>
    if hashToken s ≠ 0 ∧ (s.drop (hashToken s)).head? = some ')' then hashToken s + 2 else 0
  | _ => 0

/-- The length of `PR`, blanks and digits at the start of a text. -/
def wordToken : Text → Nat
  | 'P' :: 'R' :: s =>
    let number := digits (Text.trimStart s)
    if number = [] then 0 else (s.takeWhile Text.isBlank).length + number.length + 2
  | _ => 0

/-! ### Numbers -/

/-- What follows the mark of a reference at the start of a text. -/
def afterMark? : Text → Option Text
  | '#' :: s => some s
  | 'P' :: 'R' :: s => some s
  | _ => none

/-- The number of the reference that starts a text. -/
def numberAt? (s : Text) : Option Text :=
  Text.present? ((afterMark? s).map fun t => digits (Text.trimStart t))

/-- The number of the first reference in a message. -/
def number? : Text → Option Text
  | [] => none
  | c :: s => (numberAt? (c :: s)).or (number? s)

theorem numberAt?_eq_some {s d : Text} (h : numberAt? s = some d) :
    d ≠ [] ∧ ∀ c ∈ d, c.isDigit = true := by
  obtain ⟨ho, hd⟩ := Text.present?_eq_some h
  obtain ⟨t, -, rfl⟩ := Option.map_eq_some_iff.1 ho
  exact ⟨hd, fun c hc => List.all_eq_true.1 List.all_takeWhile c hc⟩

/-- The number of a pull request has a digit, and nothing else. -/
theorem number?_eq_some {s d : Text} (h : number? s = some d) :
    d ≠ [] ∧ ∀ c ∈ d, c.isDigit = true := by
  induction s with
  | nil => cases h
  | cons c s ih =>
    rcases Option.or_eq_some_iff.1 h with h | ⟨-, h⟩
    · exact numberAt?_eq_some h
    · exact ih h

end Reference

end ReleaseNotes
