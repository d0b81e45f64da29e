/-
ReleaseNotes/Proofs/WrittenWhole.lean

Whole numbers of the format as text.

What is written for a whole number `n` of the format is its shortest decimal
`c * 10^k`, in full if it has up to 21 digits:

    render n = digitsOf (c * 10^k)        for n < 10^21,

and with an exponent from 10^21 on.  The digits that are left out and the zeros that
are put in their place add up to the digits of `c * 10^k`, so what is written is a
numeral; it denotes `n` where `n` is its own shortest decimal, and otherwise another
number that reads as `n`.

Main results: what is written below 10^21 and above (`exists_render_eq`,
`exponentMark_mem_render`), and which numbers are written as they are
(`isNumeral_render_iff`); up to 53 bits all of them are (`render_of_lt`).
-/
import ReleaseNotes.Proofs.ShortestWhole

namespace ReleaseNotes

namespace Number

variable {c k m n : Nat} {s : Text}

/-! ### Numerals -/

/-- One or more decimal digits, which denote `n`. -/
structure IsNumeral (n : Nat) (s : Text) : Prop where
  ne_nil : s ≠ []
  isDigit : ∀ c ∈ s, c.isDigit = true
  ofDigitChars : Nat.ofDigitChars 10 s 0 = n

theorem isDigit_of_mem_digitsOf {d : Char} (h : d ∈ digitsOf n) : d.isDigit = true :=
  Nat.isDigit_of_mem_toDigits (by decide) (by decide) h

theorem isNumeral_digitsOf_iff : IsNumeral n (digitsOf m) ↔ m = n := by
  constructor
  · exact fun h => Nat.ofDigitChars_ten_toDigits.symm.trans h.ofDigitChars
  · rintro rfl
    exact ⟨Nat.toDigits_ne_nil, fun c => isDigit_of_mem_digitsOf, Nat.ofDigitChars_ten_toDigits⟩

/-- A power of ten puts zeros behind the digits. -/
theorem digitsOf_mul_pow (hc : 0 < c) (k : Nat) :
    digitsOf (c * 10 ^ k) = digitsOf c ++ List.replicate k '0' := by
  induction k with
  | zero => simp
  | succ k ih =>
    have h := Nat.toDigits_append_toDigits (b := 10) (n := c * 10 ^ k) (d := 0) (by decide)
      (Nat.mul_pos hc (Nat.pow_pos (by decide))) (by decide)
    calc digitsOf (c * 10 ^ (k + 1))
        = digitsOf (10 * (c * 10 ^ k) + 0) := by
          rw [Nat.pow_succ, ← Nat.mul_assoc, Nat.mul_comm 10, Nat.add_zero]
      _ = digitsOf (c * 10 ^ k) ++ ['0'] := h.symm
      _ = digitsOf c ++ List.replicate (k + 1) '0' := by
          rw [ih, List.append_assoc, ← List.replicate_succ']

theorem digitCount_mul_pow (hc : 0 < c) (k : Nat) : digitCount (c * 10 ^ k) = digitCount c + k := by
  have h := congrArg List.length (digitsOf_mul_pow hc k)
  rwa [List.length_append, List.length_replicate] at h

/-! ### The layout of a whole number -/

/-- What is left out of the digits are zeros at their end. -/
theorem exists_significant_append (s : Text) : ∃ z, s = significant s ++ List.replicate z '0' := by
  refine ⟨(s.reverse.takeWhile (· == '0')).length, ?_⟩
  have hz : s.reverse.takeWhile (· == '0')
      = List.replicate (s.reverse.takeWhile (· == '0')).length '0' :=
    List.eq_replicate_iff.2 ⟨rfl, fun c hc => by
      simpa using List.all_eq_true.1 List.all_takeWhile c hc⟩
  have h := congrArg List.reverse
    (List.takeWhile_append_dropWhile (p := (· == '0')) (l := s.reverse))
  rw [List.reverse_append, List.reverse_reverse, hz, List.reverse_replicate] at h
  exact h.symm

/-- Where there is room up to the point, zeros fill it. -/
theorem place_of_le {point : Int} (h : s.length ≤ point) (hw : point ≤ 21) :
    Layout.plain.place s point = s ++ List.replicate (point - s.length).toNat '0' := by
  unfold Layout.place
  exact if_pos ⟨h, hw⟩

/-- Where there is no room up to the point, there is an exponent. -/
theorem exponentMark_mem_place {point : Int} (h : 21 < point) :
    'e' ∈ Layout.plain.place s point := by
  have hw : ¬ point ≤ Layout.plain.whole := Int.not_le.2 h
  have hp : ¬ point ≤ 0 := by omega
  unfold Layout.place
  rw [if_neg fun h => hw h.2, if_neg fun h => hw h.2, if_neg fun h => hp h.2]
  split <;> simp [exponentText]

theorem decimal_natCast (c k : Nat) : Layout.plain.decimal ⟨c, k⟩
    = Layout.plain.place (significant (digitsOf c)) ((digitsOf c).length + k) := rfl

theorem decimal_of_le (hc : 0 < c) (h : digitCount c + k ≤ 21) :
    Layout.plain.decimal ⟨c, k⟩ = digitsOf (c * 10 ^ k) := by
  obtain ⟨z, hz⟩ := exists_significant_append (digitsOf c)
  have hlen : (digitsOf c).length = (significant (digitsOf c)).length + z := by
    have h := congrArg List.length hz
    rwa [List.length_append, List.length_replicate] at h
  have hcount : (digitsOf c).length + k ≤ 21 := h
  -- the zeros that are left out and those of the power are put back together
  have hzeros : ((digitsOf c).length + k - (significant (digitsOf c)).length : Int).toNat
      = z + k := by
    omega
  calc Layout.plain.decimal ⟨c, k⟩
      = significant (digitsOf c) ++ List.replicate (z + k) '0' := by
        rw [decimal_natCast, place_of_le (by omega) (by omega), hzeros]
    _ = digitsOf c ++ List.replicate k '0' := by
        rw [← List.replicate_append_replicate, ← List.append_assoc, ← hz]
    _ = digitsOf (c * 10 ^ k) := (digitsOf_mul_pow hc k).symm

theorem exponentMark_mem_decimal (h : 21 < digitCount c + k) :
    'e' ∈ Layout.plain.decimal ⟨c, k⟩ := by
  have hcount : 21 < (digitsOf c).length + k := h
  rw [decimal_natCast]
  exact exponentMark_mem_place (by omega)

/-! ### Whole numbers as text -/

theorem render_natCast (hn : 0 < n) : render n = Layout.plain.decimal (shortest n 1) := by
  have h0 : ¬ ((n : Rat).num = 0) := by simpa using Nat.ne_of_gt hn
  have hneg : ¬ ((n : Rat).num < 0) := by simp
  simp only [render, if_neg h0, if_neg hneg]
  simp

theorem nearestWhole_pow_layout : nearestWhole (10 ^ 21) = 10 ^ 21 :=
  nearestWhole_of_dvd (by decide +kernel)

/-- **Below 10^21 a whole number is written as the digits of a number that reads as
it**, which is the number itself exactly when no rounder number reads as it. -/
theorem exists_render_eq (hn : 0 < n) (hr : ReadsAs n n) (h : n < 10 ^ 21) :
    ∃ m, render n = digitsOf m ∧ ReadsAs m n ∧ (m = n ↔ IsRoundest n) := by
  obtain ⟨c, k, hs, hshort⟩ := exists_isShortest hn hr
  have hlt : c * 10 ^ k < 10 ^ 21 := (hshort.lt_pow_iff hn nearestWhole_pow_layout).2 h
  have hc : 0 < c := Nat.pos_of_mul_pos_right (hshort.readsAs.pos hn)
  refine ⟨c * 10 ^ k, ?_, hshort.readsAs, hshort.eq_iff hn hr⟩
  rw [render_natCast hn, hs]
  refine decimal_of_le hc ?_
  rw [← digitCount_mul_pow hc]
  exact (digitCount_le_iff (by decide)).2 hlt

/-- **From 10^21 on a number is written with an exponent.** -/
theorem exponentMark_mem_render (hr : ReadsAs n n) (h : 10 ^ 21 ≤ n) : 'e' ∈ render n := by
  have hn : 0 < n := Nat.lt_of_lt_of_le (by decide) h
  obtain ⟨c, k, hs, hshort⟩ := exists_isShortest hn hr
  have hle : ¬ c * 10 ^ k < 10 ^ 21 :=
    mt (hshort.lt_pow_iff hn nearestWhole_pow_layout).1 (Nat.not_lt.2 h)
  have hc : 0 < c := Nat.pos_of_mul_pos_right (hshort.readsAs.pos hn)
  rw [render_natCast hn, hs]
  refine exponentMark_mem_decimal (Nat.lt_of_not_le fun hcount => hle ?_)
  rw [← digitCount_mul_pow hc] at hcount
  exact (digitCount_le_iff (by decide)).1 hcount

theorem forall_isDigit_render_iff (hn : 0 < n) (hr : ReadsAs n n) :
    (∀ c ∈ render n, c.isDigit = true) ↔ n < 10 ^ 21 := by
  constructor
  · intro h
    refine Nat.lt_of_not_le fun hle => ?_
    have he : 'e'.isDigit = false := by decide
    have := h 'e' (exponentMark_mem_render hr hle)
    rw [he] at this
    cases this
  · intro h
    obtain ⟨m, hm, -⟩ := exists_render_eq hn hr h
    rw [hm]
    exact fun c => isDigit_of_mem_digitsOf

/-- **A whole number is written as it is exactly when it is less than 10^21 and no
rounder number reads as it.** -/
theorem isNumeral_render_iff (hn : 0 < n) (hr : ReadsAs n n) :
    IsNumeral n (render n) ↔ n < 10 ^ 21 ∧ IsRoundest n := by
  have hdigits := forall_isDigit_render_iff hn hr
  by_cases h : n < 10 ^ 21
  · obtain ⟨m, hm, -, hround⟩ := exists_render_eq hn hr h
    rw [hm, isNumeral_digitsOf_iff, hround]
    exact ⟨fun hr => ⟨h, hr⟩, And.right⟩
  · exact ⟨fun hnum => absurd (hdigits.1 hnum.isDigit) h, fun hlt => absurd hlt.1 h⟩

theorem readsAs_self_of_lt (h : n < 2 ^ precision) : ReadsAs n n := by
  refine readsAs_iff.2 ⟨nearestWhole_of_lt h, Nat.lt_of_lt_of_le h ?_⟩
  exact Nat.pow_le_pow_right (by decide) (by decide)

/-- Up to 53 bits a whole number is written as its digits. -/
theorem render_of_lt (h : n < 2 ^ precision) : render n = digitsOf n := by
  rcases Nat.eq_zero_or_pos n with rfl | hn
  · rfl
  · have hbits : (2 : Nat) ^ precision < 10 ^ 21 := by decide
    obtain ⟨m, hm, -, hround⟩ :=
      exists_render_eq hn (readsAs_self_of_lt h) (Nat.lt_trans h hbits)
    rw [hm, hround.2 (isRoundest_of_lt h)]

end Number

end ReleaseNotes
