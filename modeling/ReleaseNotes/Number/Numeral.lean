/-
ReleaseNotes/Number/Numeral.lean

Reading a number from text.

Between blank margins stands nothing, which is zero, or one numeral:

* a mark `0x`, `0o` or `0b`, in either case, and digits of that base;
* a decimal numeral: a sign or none, digits with or without a point among or
  around them (at least one digit), and an exponent or none;
* a sign or none, and the word `Infinity`.

`measure?` gives the number of the format nearest to what the numeral denotes,
or says on which side the numeral lies outside the format.  `read?` gives a
number only; a text that is no numeral, or lies outside the format, has none.

Main fact: blank margins do not matter (`read?_trim`).
-/
import ReleaseNotes.Number.Nearest
import ReleaseNotes.Text.Blank

namespace ReleaseNotes

namespace Number

/-- What a numeral denotes. -/
inductive Measure
  /-- A number of the format. -/
  | finite (x : Rat)
  /-- Something too large for the format, in magnitude. -/
  | infinite (negative : Bool)
deriving DecidableEq, Repr

namespace Measure

/-- The number, if it is one of the format. -/
def finite? : Measure → Option Rat
  | finite x => some x
  | infinite _ => none

/-- What was rounded, or the side on which it lies outside the format. -/
def ofRounded (negative : Bool) : Option Rat → Measure
  | some x => finite x
  | none => infinite negative

/-- Whether it is greater than a number of the format. -/
def isAbove (bound : Rat) : Measure → Bool
  | finite x => bound < x
  | infinite negative => !negative

end Measure

/-! ### Whole numerals -/

/-- The value of a digit in the given base. -/
def digitValue? (base : Nat) (c : Char) : Option Nat :=
  let n := c.toNat
  let value? :=
    if '0'.toNat ≤ n ∧ n ≤ '9'.toNat then some (n - '0'.toNat)
    else if 'a'.toNat ≤ n ∧ n ≤ 'z'.toNat then some (n - 'a'.toNat + 10)
    else if 'A'.toNat ≤ n ∧ n ≤ 'Z'.toNat then some (n - 'A'.toNat + 10)
    else none
  value?.filter (· < base)

/-- The value of digits in the given base, continuing from `start`. -/
def digitsFrom? (base : Nat) (start : Nat) : Text → Option Nat
  | [] => some start
  | c :: s => do digitsFrom? base (start * base + (← digitValue? base c)) s

/-- The value of one or more digits in the given base. -/
def digits? (base : Nat) : Text → Option Nat
  | [] => none
  | s => digitsFrom? base 0 s

/-- The base that a mark stands for. -/
def base? : Char → Option Nat
  | 'x' | 'X' => some 16
  | 'o' | 'O' => some 8
  | 'b' | 'B' => some 2
  | _ => none

/-- The base and the digits of a numeral with a base mark. -/
def marked? : Text → Option (Nat × Text)
  | '0' :: mark :: s => (base? mark).map (·, s)
  | _ => none

/-! ### Decimal numerals -/

/-- A sign or none, and what follows: whether it is negative, and the rest. -/
def sign : Text → Bool × Text
  | '-' :: s => (true, s)
  | '+' :: s => (false, s)
  | s => (false, s)

/-- An integer of decimal digits, with a sign or none. -/
def integer? (s : Text) : Option Int :=
  let (negative, t) := sign s
  (digits? 10 t).map fun n => if negative then -(n : Int) else n

/-- The exponent behind the digits of a decimal numeral; nothing is zero. -/
def exponent? : Text → Option Int
  | [] => some 0
  | c :: s => if c = 'e' ∨ c = 'E' then integer? s else none

/-- The digits before and after the point, and what follows them. -/
def point (s : Text) : Text × Text × Text :=
  match s.dropWhile Char.isDigit with
  | '.' :: t => (s.takeWhile Char.isDigit, t.takeWhile Char.isDigit, t.dropWhile Char.isDigit)
  | t => (s.takeWhile Char.isDigit, [], t)

/-- The word for a number outside the format. -/
def infinity : Text := "Infinity".toList

/-- What a decimal numeral denotes. -/
def decimal? (s : Text) : Option Measure :=
  let (negative, t) := sign s
  if t = infinity then some (.infinite negative)
  else do
    let (whole, fraction, rest) := point t
    let c ← digits? 10 (whole ++ fraction)
    let e ← exponent? rest
    return .ofRounded negative
      (ofDecimal? (if negative then -(c : Int) else c) (e - fraction.length))

/-! ### Numerals -/

/-- What a numeral without margins denotes. -/
def numeral? (s : Text) : Option Measure :=
  match marked? s with
  | some (base, digits) => (digits? base digits).map fun n => .ofRounded false (ofNat? n)
  | none => decimal? s

/-- What a text denotes. -/
def measure? (s : Text) : Option Measure :=
  match Text.trim s with
  | [] => some (.finite 0)
  | t => numeral? t

/-- The number that a text denotes. -/
def read? (s : Text) : Option Rat :=
  (measure? s).bind Measure.finite?

@[simp] theorem measure?_trim (s : Text) : measure? (Text.trim s) = measure? s := by
  simp [measure?]

/-- Blank margins do not matter. -/
@[simp] theorem read?_trim (s : Text) : read? (Text.trim s) = read? s := by
  simp [read?]

end Number

end ReleaseNotes
