/-
ReleaseNotes/Number/Nearest.lean

Numbers of limited precision.

A number of the program is a rational number that fits a binary format: 53
significant bits, no bit below 2^-1074, magnitude below 2^1024.  `nearest?`
gives the number of the format next to a rational; half way between two it is
the one whose last bit is zero.  There is one zero.

All arithmetic is exact, on numerator and denominator: a fraction `a / b`
divided by a power of the base stays a fraction (`scaled`), and `roundDiv` is
the only place where something is rounded.

Main facts: `roundDiv` rounds down or to the next integer (`roundDiv_eq_or`), is
exact on multiples (`roundDiv_mul`) and never off by more than a half
(`roundDiv_le`, `le_roundDiv`).
-/

namespace ReleaseNotes

namespace Number

/-! ### Rounded quotients -/

/-- The integer nearest to `a / b`; half way between two, the even one. -/
def roundDiv (a b : Nat) : Nat :=
  if 2 * (a % b) < b then a / b
  else if b < 2 * (a % b) then a / b + 1
  else a / b + a / b % 2

/-- A quotient is rounded down or to the next integer. -/
theorem roundDiv_eq_or (a b : Nat) : roundDiv a b = a / b ∨ roundDiv a b = a / b + 1 := by
  unfold roundDiv
  split
  · exact Or.inl rfl
  · split
    · exact Or.inr rfl
    · omega

theorem roundDiv_mul (a : Nat) {b : Nat} (hb : 0 < b) : roundDiv (a * b) b = a := by
  simp [roundDiv, hb]

/-- A rounded quotient is at most a half above the quotient. -/
theorem roundDiv_le (a b : Nat) : 2 * (roundDiv a b * b) ≤ 2 * a + b := by
  have h := Nat.div_add_mod a b
  rw [Nat.mul_comm] at h
  have hm : a / b % 2 < 2 := Nat.mod_lt _ (by decide)
  unfold roundDiv
  split
  · omega
  · split
    · rw [Nat.add_mul]; omega
    · rcases (by omega : a / b % 2 = 0 ∨ a / b % 2 = 1) with e | e <;> rw [e, Nat.add_mul] <;> omega

/-- A rounded quotient is at most a half below the quotient. -/
theorem le_roundDiv (a : Nat) {b : Nat} (hb : 0 < b) : 2 * a ≤ 2 * (roundDiv a b * b) + b := by
  have h := Nat.div_add_mod a b
  rw [Nat.mul_comm] at h
  have hm : a % b < b := Nat.mod_lt _ hb
  unfold roundDiv
  split
  · omega
  · split
    · rw [Nat.add_mul]; omega
    · rw [Nat.add_mul]; omega

/-! ### Powers of a base below a fraction -/

/-- The fraction `a / b` divided by `base ^ e`, as numerator and denominator. -/
def scaled (base a b : Nat) (e : Int) : Nat × Nat :=
  (a * Nat.pow base (-e).toNat, b * Nat.pow base e.toNat)

/-- Whether `base ^ e` is at most `a / b`. -/
def powerAtMost (base a b : Nat) (e : Int) : Bool :=
  (scaled base a b e).2 ≤ (scaled base a b e).1

/-- The exponent of the greatest power of two that is at most `a / b`, for
positive `a` and `b`. -/
def floorLogTwo (a b : Nat) : Int :=
  let e : Int := a.log2 - b.log2
  if powerAtMost 2 a b e then e else e - 1

/-! ### The binary format -/

/-- Significant bits. -/
def precision : Nat := 53

/-- The exponent of the lowest bit. -/
def lowestBit : Int := -1074

/-- Magnitudes stay below this power of two. -/
def magnitudeBits : Nat := 1024

/-- The exponent of the last bit that a number near `a / b` has. -/
def lastBit (a b : Nat) : Int :=
  max (floorLogTwo a b - (precision - 1)) lowestBit

/-- The number of the format nearest to the magnitude `a / b`, without an upper
limit. -/
def nearestMagnitude (a b : Nat) : Rat :=
  let e := lastBit a b
  let (p, q) := scaled 2 a b e
  mkRat (roundDiv p q * Nat.pow 2 e.toNat) (Nat.pow 2 (-e).toNat)

/-- The number of the format nearest to `x`, unless it is too large. -/
def nearest? (x : Rat) : Option Rat :=
  let y := nearestMagnitude x.num.natAbs x.den
  if x.num = 0 then some 0
  else if y < 2 ^ magnitudeBits then some (if x.num < 0 then -y else y)
  else none

/-! ### Decimal fractions -/

/-- The number of decimal digits of `n`. -/
def digitCount (n : Nat) : Nat :=
  (Nat.toDigits 10 n).length

/-- Decimal exponents beyond this are outside the format on either side. -/
def decimalReach : Int := 400

/-- The number of the format nearest to `c * 10 ^ e`.  Far outside the format
the answer is known from the count of digits alone, and no power is formed. -/
def ofDecimal? (c : Int) (e : Int) : Option Rat :=
  let top := digitCount c.natAbs + e
  if c = 0 then some 0
  else if decimalReach < top then none
  else if top < -decimalReach then some 0
  else nearest? (mkRat (c * Nat.pow 10 e.toNat) (Nat.pow 10 (-e).toNat))

/-- The number of the format nearest to a whole number. -/
def ofNat? (n : Nat) : Option Rat :=
  nearest? n

end Number

end ReleaseNotes
