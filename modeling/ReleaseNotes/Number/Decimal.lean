/-
ReleaseNotes/Number/Decimal.lean

Numbers as decimal text.

A number is written with the fewest digits that read back as the number, and of
several such decimals with the nearest one.  `shortest` looks for it on grids
of one, two, … seventeen digits: on each grid only the two neighbours of the
number can be read back as it, and the nearer neighbour is tried first.

How the digits are laid out is said by one record, `Layout`: a number is written
in full when it has up to 21 places before the point, or its first digit at one
of the first six places after it; any other number has an exponent.

Main fact: the two neighbours on a grid are the rounded-down quotient and its
successor (`nearer_or_farther`).
-/
import ReleaseNotes.Number.Nearest
import ReleaseNotes.Text.Basic

namespace ReleaseNotes

namespace Number

/-! ### The digits -/

/-- The decimal number `coefficient * 10 ^ exponent`. -/
structure Decimal where
  coefficient : Nat
  exponent : Int
deriving DecidableEq, Repr

/-- The exponent of the greatest power of ten that is at most `a / b`, for
positive `a` and `b`. -/
def floorLogTen (a b : Nat) : Int :=
  let e : Int := digitCount a - digitCount b
  if powerAtMost 10 a b e then e else e - 1

/-- The multiple of `10 ^ e` nearest to `a / b`, as a coefficient. -/
def nearer (a b : Nat) (e : Int) : Nat :=
  roundDiv (scaled 10 a b e).1 (scaled 10 a b e).2

/-- The other neighbour of `a / b` among the multiples of `10 ^ e`. -/
def farther (a b : Nat) (e : Int) : Nat :=
  let down := (scaled 10 a b e).1 / (scaled 10 a b e).2
  if nearer a b e = down then down + 1 else down

/-- The two neighbours are the rounded-down quotient and its successor. -/
theorem nearer_or_farther (a b : Nat) (e : Int) :
    let down := (scaled 10 a b e).1 / (scaled 10 a b e).2
    (nearer a b e = down ∧ farther a b e = down + 1)
      ∨ (nearer a b e = down + 1 ∧ farther a b e = down) := by
  intro down
  by_cases h : nearer a b e = down
  · exact Or.inl ⟨h, by simp [farther, h, down]⟩
  · exact Or.inr ⟨(roundDiv_eq_or _ _).resolve_left h, by simp [farther, h, down]⟩

/-- The decimal with the last digit at `10 ^ e` that reads back as `a / b`. -/
def onGrid? (a b : Nat) (e : Int) : Option Decimal :=
  if ofDecimal? (nearer a b e) e = some (mkRat a b) then some ⟨nearer a b e, e⟩
  else if ofDecimal? (farther a b e) e = some (mkRat a b) then some ⟨farther a b e, e⟩
  else none

/-- Seventeen digits tell any two numbers of the format apart. -/
def enoughDigits : Nat := 17

/-- The shortest decimal that reads back as the positive number `a / b`, and
the nearest one of that length. -/
def shortest (a b : Nat) : Decimal :=
  let top := floorLogTen a b
  let grids := (List.range enoughDigits).map fun n : Nat => top - n
  (grids.findSome? (onGrid? a b)).getD
    ⟨nearer a b (top - (enoughDigits - 1)), top - (enoughDigits - 1)⟩

/-! ### The layout -/

/-- How the digits of a number are laid out. -/
structure Layout where
  /-- The most places before the point that are written in full. -/
  whole : Int
  /-- The last place after the point at which a first digit needs no exponent. -/
  fraction : Int
deriving DecidableEq, Repr

/-- A number is written in full up to 21 places before the point, and with its
first digit up to the sixth place after it. -/
def Layout.plain : Layout := ⟨21, 6⟩

/-- The digits without the zeros at their end. -/
def significant (digits : Text) : Text :=
  (digits.reverse.dropWhile (· == '0')).reverse

/-- A whole number in decimal. -/
def digitsOf (n : Nat) : Text :=
  Nat.toDigits 10 n

/-- The exponent mark, the sign and the digits of a power of ten. -/
def exponentText (e : Int) : Text :=
  'e' :: (if e < 0 then '-' else '+') :: digitsOf e.natAbs

/-- The digits `0.d₁d₂… * 10 ^ point`, of which the last is no zero, laid out
as `layout` says. -/
def Layout.place (layout : Layout) (digits : Text) (point : Int) : Text :=
  if digits.length ≤ point ∧ point ≤ layout.whole then
    digits ++ List.replicate (point - digits.length).toNat '0'
  else if 0 < point ∧ point ≤ layout.whole then
    digits.take point.toNat ++ '.' :: digits.drop point.toNat
  else if -layout.fraction < point ∧ point ≤ 0 then
    '0' :: '.' :: List.replicate (-point).toNat '0' ++ digits
  else
    match digits with
    | d :: e :: rest => d :: '.' :: e :: rest ++ exponentText (point - 1)
    | _ => digits ++ exponentText (point - 1)

/-- A decimal number as text. -/
def Layout.decimal (layout : Layout) (d : Decimal) : Text :=
  let digits := digitsOf d.coefficient
  layout.place (significant digits) (digits.length + d.exponent)

/-- A number as text. -/
def render (x : Rat) : Text :=
  let magnitude := Layout.plain.decimal (shortest x.num.natAbs x.den)
  if x.num = 0 then ['0']
  else if x.num < 0 then '-' :: magnitude
  else magnitude

/-! ### Counts -/

/-- The magnitude of the shortest decimal of a number. -/
def decimalMagnitude (x : Rat) : Rat :=
  let d := shortest x.num.natAbs x.den
  mkRat (d.coefficient * Nat.pow 10 d.exponent.toNat) (Nat.pow 10 (-d.exponent).toNat)

/-- Whether a count is spoken of in the singular: rounded to three decimal
places, it is one or minus one. -/
def isSingular (x : Rat) : Bool :=
  x.num != 0 && mkRat 9995 10000 ≤ decimalMagnitude x && decimalMagnitude x < mkRat 10005 10000

/-- The number of the format nearest to a difference, or the first number when
the difference lies outside the format. -/
def minus (x y : Rat) : Rat :=
  (nearest? (x - y)).getD x

end Number

end ReleaseNotes
