/-
ReleaseNotes/Proofs/WholeNumbers.lean

The whole numbers among the numbers of the format.

From 2^53 on a number of the format has fewer bits than it has places, so its
lowest bits are zero.  `lowBit n` is the place of the lowest bit that a number as
great as `n` can have, and `nearestWhole n` the multiple of it nearest to `n`:

    nearest? n = some (nearestWhole n)    for nearestWhole n < 2^1024.

Rounding keeps the order: numbers with the same low bit are rounded on one grid,
and between numbers of different sizes there is a power of two, which is on both
grids.

Main results: the equation above (`nearest?_natCast`), rounding keeps the order
(`nearestWhole_mono`), whole numbers that come from rounding or from reading a
text are rounded already (`readsAs_self_of_nearest?`, `readsAs_self_of_read?`).
-/
import Mathlib.Algebra.Order.Ring.Rat
import Mathlib.Data.Nat.Cast.Order.Ring
import ReleaseNotes.Number.Numeral

namespace ReleaseNotes

namespace Number

variable {a b c k m n : Nat}

/-! ### Rounded quotients -/

theorem roundDiv_mono (b : Nat) (h : a ≤ c) : roundDiv a b ≤ roundDiv c b := by
  have hq : a / b ≤ c / b := Nat.div_le_div_right h
  rcases Nat.lt_or_eq_of_le hq with hq | hq
  · -- rounding up from a smaller quotient does not pass a greater one
    have ha := roundDiv_eq_or a b
    have hc := roundDiv_eq_or c b
    omega
  · have hr : a % b ≤ c % b := by
      have hda := Nat.div_add_mod a b
      have hdc := Nat.div_add_mod c b
      rw [hq] at hda
      omega
    unfold roundDiv
    rw [hq]
    repeat' split
    all_goals omega

/-- A multiple that is less than half a step away is the rounded one. -/
theorem roundDiv_mul_eq (hd : b ∣ n) (hle : 2 * m < 2 * n + b) (hge : 2 * n < 2 * m + b) :
    roundDiv m b * b = n := by
  have hb : 0 < b := by omega
  obtain ⟨k, rfl⟩ := hd
  have hup := roundDiv_le m b
  have hdown := le_roundDiv m hb
  have h1 : roundDiv m b < k + 1 := by
    refine Nat.lt_of_mul_lt_mul_left (a := b) ?_
    rw [Nat.mul_comm b, Nat.mul_add]
    omega
  have h2 : k < roundDiv m b + 1 := by
    refine Nat.lt_of_mul_lt_mul_left (a := b) ?_
    rw [Nat.mul_add, Nat.mul_comm b (roundDiv m b)]
    omega
  rw [Nat.mul_comm, (by omega : roundDiv m b = k)]

/-! ### The lowest bit -/

/-- The place of the lowest bit that a number of the format as great as `n` has. -/
def lowBit (n : Nat) : Nat :=
  2 ^ (n.log2 - (precision - 1))

theorem lowBit_pos (n : Nat) : 0 < lowBit n :=
  Nat.two_pow_pos _

theorem log2_mono (h : m ≤ n) : m.log2 ≤ n.log2 := by
  rcases Nat.eq_zero_or_pos m with rfl | hm
  · exact Nat.zero_le _
  · exact (Nat.le_log2 (by omega)).2 (Nat.le_trans (Nat.log2_self_le (by omega)) h)

theorem lowBit_dvd_lowBit (h : m ≤ n) : lowBit m ∣ lowBit n :=
  Nat.pow_dvd_pow 2 (Nat.sub_le_sub_right (log2_mono h) _)

theorem lowBit_dvd_two_pow (h : n.log2 ≤ k) : lowBit n ∣ 2 ^ k :=
  Nat.pow_dvd_pow 2 (by omega)

theorem lowBit_of_lt (h : n < 2 ^ precision) : lowBit n = 1 := by
  have hl : n.log2 ≤ precision - 1 := by
    rcases Nat.eq_zero_or_pos n with rfl | hn
    · exact Nat.zero_le _
    · exact Nat.le_of_lt_succ ((Nat.log2_lt (by omega)).2 h)
  rw [lowBit, Nat.sub_eq_zero_of_le hl, Nat.pow_zero]

/-- A number has at most 53 bits above its low bit. -/
theorem lt_lowBit_mul (n : Nat) : n < lowBit n * 2 ^ precision := by
  rw [lowBit, ← Nat.pow_add]
  exact Nat.lt_of_lt_of_le Nat.lt_log2_self
    (Nat.pow_le_pow_right (by decide) (by unfold precision; omega))

/-- A number too great for 53 bits has 53 bits from its low bit on. -/
theorem lowBit_mul_le (h : 2 ^ precision ≤ n) : lowBit n * 2 ^ (precision - 1) ≤ n := by
  have hn : n ≠ 0 := by
    have := Nat.two_pow_pos precision
    omega
  have hl : precision ≤ n.log2 := (Nat.le_log2 hn).2 h
  rw [lowBit, ← Nat.pow_add, Nat.sub_add_cancel (by omega)]
  exact Nat.log2_self_le hn

/-! ### The nearest number -/

/-- The whole number of the format nearest to a whole number, without an upper
limit. -/
def nearestWhole (n : Nat) : Nat :=
  roundDiv n (lowBit n) * lowBit n

theorem lowBit_dvd_nearestWhole (n : Nat) : lowBit n ∣ nearestWhole n :=
  Dvd.intro_left _ rfl

theorem nearestWhole_of_dvd (h : lowBit n ∣ n) : nearestWhole n = n := by
  obtain ⟨k, hk⟩ := h
  have hr : roundDiv (k * lowBit n) (lowBit n) = k := roundDiv_mul k (lowBit_pos n)
  rw [Nat.mul_comm k, ← hk] at hr
  rw [nearestWhole, hr, Nat.mul_comm, ← hk]

theorem nearestWhole_of_lt (h : n < 2 ^ precision) : nearestWhole n = n :=
  nearestWhole_of_dvd (by rw [lowBit_of_lt h]; exact Nat.one_dvd n)

/-- Rounding up does not pass a multiple of the low bit. -/
theorem nearestWhole_le (h : n ≤ c) (hd : lowBit n ∣ c) : nearestWhole n ≤ c := by
  obtain ⟨k, rfl⟩ := hd
  have hr := roundDiv_mono (lowBit n) h
  rw [Nat.mul_comm (lowBit n) k, roundDiv_mul k (lowBit_pos n)] at hr
  rw [nearestWhole, Nat.mul_comm (lowBit n) k]
  exact Nat.mul_le_mul_right _ hr

/-- Rounding down does not pass a multiple of the low bit. -/
theorem le_nearestWhole (h : c ≤ n) (hd : lowBit n ∣ c) : c ≤ nearestWhole n := by
  obtain ⟨k, rfl⟩ := hd
  have hr := roundDiv_mono (lowBit n) h
  rw [Nat.mul_comm (lowBit n) k, roundDiv_mul k (lowBit_pos n)] at hr
  rw [nearestWhole, Nat.mul_comm (lowBit n) k]
  exact Nat.mul_le_mul_right _ hr

/-- **Rounding keeps the order.** -/
theorem nearestWhole_mono (h : m ≤ n) : nearestWhole m ≤ nearestWhole n := by
  rcases Nat.eq_zero_or_pos n with rfl | hn
  · rw [Nat.le_zero.1 h]
  · rcases Nat.lt_or_eq_of_le (log2_mono h) with hl | hl
    · -- the power of two between the two numbers is on the grids of both
      calc nearestWhole m
          ≤ 2 ^ (m.log2 + 1) :=
            nearestWhole_le (Nat.le_of_lt Nat.lt_log2_self) (lowBit_dvd_two_pow (Nat.le_succ _))
        _ ≤ 2 ^ n.log2 := Nat.pow_le_pow_right (by decide) hl
        _ ≤ nearestWhole n :=
            le_nearestWhole (Nat.log2_self_le (by omega)) (lowBit_dvd_two_pow (Nat.le_refl _))
    · have hb : lowBit m = lowBit n := by rw [lowBit, hl, lowBit]
      rw [nearestWhole, nearestWhole, hb]
      exact Nat.mul_le_mul_right _ (roundDiv_mono _ h)

/-! ### Rounding of whole numbers -/

theorem floorLogTwo_one (hn : n ≠ 0) : floorLogTwo n 1 = n.log2 := by
  have hp : powerAtMost 2 n 1 n.log2 = true := by
    simpa [powerAtMost, scaled, Nat.pow_eq] using Nat.log2_self_le hn
  have h1 : (1 : Nat).log2 = 0 := by decide
  simp [floorLogTwo, h1, hp]

/-- What is rounded is the number of lowest bits in a fraction. -/
theorem nearestMagnitude_eq (a b : Nat) : nearestMagnitude a b
    = (roundDiv (a * 2 ^ (-lastBit a b).toNat) (b * 2 ^ (lastBit a b).toNat) : Rat)
      * 2 ^ (lastBit a b).toNat / 2 ^ (-lastBit a b).toNat := by
  simp only [nearestMagnitude, scaled, Nat.pow_eq, Rat.mkRat_eq_div]
  push_cast
  rfl

theorem nearestMagnitude_one (hn : n ≠ 0) : nearestMagnitude n 1 = nearestWhole n := by
  have hbit : lastBit n 1 = (n.log2 : Int) - 52 := by
    have h1 : lowestBit = -1074 := rfl
    have h2 : precision = 53 := rfl
    rw [lastBit, floorLogTwo_one hn]
    omega
  rw [nearestMagnitude_eq, hbit, Nat.one_mul]
  by_cases hl : 52 ≤ n.log2
  · have hneg : (-((n.log2 : Int) - 52)).toNat = 0 := by omega
    have hpos : ((n.log2 : Int) - 52).toNat = n.log2 - 52 := by omega
    rw [hneg, hpos, Nat.pow_zero, Nat.mul_one, pow_zero, div_one, nearestWhole]
    push_cast [lowBit]
    rfl
  · -- all bits fit, and nothing is rounded
    have hlt : n < 2 ^ precision := (Nat.log2_lt hn).1 (by unfold precision; omega)
    have hpos : ((n.log2 : Int) - 52).toNat = 0 := by omega
    have hr := roundDiv_mul (n * 2 ^ (-((n.log2 : Int) - 52)).toNat) Nat.one_pos
    rw [Nat.mul_one] at hr
    rw [hpos, Nat.pow_zero, hr, pow_zero, mul_one, nearestWhole_of_lt hlt]
    push_cast
    exact mul_div_cancel_right₀ _ (pow_ne_zero _ two_ne_zero)

@[simp] theorem nearestWhole_zero : nearestWhole 0 = 0 :=
  nearestWhole_of_lt (by decide)

/-- **A whole number is rounded to a whole number.** -/
theorem nearest?_natCast (n : Nat) : nearest? (n : Rat)
    = if nearestWhole n < 2 ^ magnitudeBits then some (nearestWhole n : Rat) else none := by
  rcases Nat.eq_zero_or_pos n with rfl | hn
  · simp [nearest?]
  · have hnum : (n : Rat).num.natAbs = n := by simp
    have hden : (n : Rat).den = 1 := by simp
    have hlt : (nearestWhole n : Rat) < 2 ^ magnitudeBits
        ↔ nearestWhole n < 2 ^ magnitudeBits := by
      exact_mod_cast Iff.rfl
    have hneg : ¬ (n : Rat).num < 0 := by simp
    have hzero : ¬ (n : Rat).num = 0 := by simpa using Nat.ne_of_gt hn
    simp only [nearest?, hnum, hden, nearestMagnitude_one (Nat.ne_of_gt hn), if_neg hneg,
      if_neg hzero, hlt]

/-! ### Numbers that read as others -/

/-- The whole number `m`, when it is read, gives the number `n` of the format. -/
def ReadsAs (m n : Nat) : Prop :=
  nearest? (m : Rat) = some (n : Rat)

theorem readsAs_iff : ReadsAs m n ↔ nearestWhole m = n ∧ n < 2 ^ magnitudeBits := by
  rw [ReadsAs, nearest?_natCast]
  by_cases h : nearestWhole m < 2 ^ magnitudeBits
  · rw [if_pos h, Option.some.injEq, Nat.cast_inj]
    exact ⟨fun he => ⟨he, he ▸ h⟩, And.left⟩
  · rw [if_neg h]
    refine ⟨nofun, ?_⟩
    rintro ⟨rfl, hlt⟩
    exact absurd hlt h

/-- What lies between two numbers that read alike reads as they do. -/
theorem ReadsAs.of_le_of_le (ha : ReadsAs a n) (hb : ReadsAs b n) (h1 : a ≤ m) (h2 : m ≤ b) :
    ReadsAs m n := by
  obtain ⟨ha, hlt⟩ := readsAs_iff.1 ha
  obtain ⟨hb, -⟩ := readsAs_iff.1 hb
  have hl := nearestWhole_mono h1
  have hr := nearestWhole_mono h2
  exact readsAs_iff.2 ⟨by omega, hlt⟩

theorem ReadsAs.pos (h : ReadsAs m n) (hn : 0 < n) : 0 < m := by
  rcases Nat.eq_zero_or_pos m with rfl | hm
  · have := (readsAs_iff.1 h).1
    rw [nearestWhole_zero] at this
    omega
  · exact hm

/-- Up to 53 bits nothing else reads as a number. -/
theorem ReadsAs.eq_of_lt (h : ReadsAs m n) (hn : n < 2 ^ precision) : m = n := by
  obtain ⟨h, -⟩ := readsAs_iff.1 h
  have htop : nearestWhole (2 ^ precision) = 2 ^ precision :=
    nearestWhole_of_dvd (lowBit_dvd_two_pow (by rw [Nat.log2_two_pow]))
  have hm : m < 2 ^ precision := by
    refine Nat.lt_of_not_le fun hle => ?_
    have := nearestWhole_mono hle
    omega
  rw [← h, nearestWhole_of_lt hm]

/-! ### Whole numbers that were rounded -/

/-- A comparison of fractions with powers of two depends on the difference of the
exponents only. -/
theorem mul_two_pow_lt {u v p q : Nat} (h : a * 2 ^ u < b * 2 ^ v) (hl : p + v ≤ q + u) :
    a * 2 ^ p < b * 2 ^ q := by
  have h1 : a * 2 ^ u * 2 ^ p < b * 2 ^ v * 2 ^ p :=
    Nat.mul_lt_mul_of_pos_right h (Nat.two_pow_pos p)
  have h2 : b * 2 ^ (p + v) ≤ b * 2 ^ (q + u) :=
    Nat.mul_le_mul_left b (Nat.pow_le_pow_right (by decide) hl)
  refine Nat.lt_of_mul_lt_mul_right (a := 2 ^ u) ?_
  calc a * 2 ^ p * 2 ^ u
      = a * 2 ^ u * 2 ^ p := Nat.mul_right_comm a _ _
    _ < b * 2 ^ v * 2 ^ p := h1
    _ = b * 2 ^ (p + v) := by rw [Nat.mul_assoc, ← Nat.pow_add, Nat.add_comm v]
    _ ≤ b * 2 ^ (q + u) := h2
    _ = b * 2 ^ q * 2 ^ u := by rw [Nat.mul_assoc, ← Nat.pow_add]

/-- A fraction is less than the power of two above it. -/
theorem lt_floorLogTwo (hb : b ≠ 0) : a * 2 ^ (-(floorLogTwo a b + 1)).toNat
    < b * 2 ^ (floorLogTwo a b + 1).toNat := by
  unfold floorLogTwo
  simp only
  split
  · refine mul_two_pow_lt (u := b.log2) (v := a.log2 + 1) ?_ (by omega)
    calc a * 2 ^ b.log2
        < 2 ^ (a.log2 + 1) * 2 ^ b.log2 :=
          Nat.mul_lt_mul_of_pos_right Nat.lt_log2_self (Nat.two_pow_pos _)
      _ ≤ 2 ^ (a.log2 + 1) * b := Nat.mul_le_mul_left _ (Nat.log2_self_le hb)
      _ = b * 2 ^ (a.log2 + 1) := Nat.mul_comm _ _
  · rename_i h
    simpa [powerAtMost, scaled, Nat.pow_eq] using h

/-- What is rounded has at most 53 bits, or it is the power of two above them. -/
theorem roundDiv_le_two_pow (hb : b ≠ 0) :
    roundDiv (a * 2 ^ (-lastBit a b).toNat) (b * 2 ^ (lastBit a b).toNat) ≤ 2 ^ precision := by
  have hl : floorLogTwo a b + 1 ≤ lastBit a b + precision := by
    unfold lastBit precision
    omega
  have h := mul_two_pow_lt (p := (-lastBit a b).toNat) (q := (lastBit a b).toNat + precision)
    (lt_floorLogTwo (a := a) hb) (by omega)
  have hq := Nat.pos_iff_ne_zero.2
    (Nat.mul_ne_zero hb (Nat.ne_of_gt (Nat.two_pow_pos (lastBit a b).toNat)))
  have hlt : a * 2 ^ (-lastBit a b).toNat / (b * 2 ^ (lastBit a b).toNat) < 2 ^ precision := by
    rw [Nat.div_lt_iff_lt_mul hq, Nat.mul_comm (2 ^ precision), Nat.mul_assoc, ← Nat.pow_add]
    exact h
  have := roundDiv_eq_or (a * 2 ^ (-lastBit a b).toNat) (b * 2 ^ (lastBit a b).toNat)
  omega

/-- So many lowest bits, up to 53 places, make a number of the format. -/
theorem lowBit_dvd_mul (h : k ≤ 2 ^ precision) (e : Nat) : lowBit (k * 2 ^ e) ∣ k * 2 ^ e := by
  rcases Nat.lt_or_eq_of_le h with h | rfl
  · -- the low bit is at most the place of the last of the bits
    refine Nat.dvd_trans ?_ (Nat.dvd_mul_left (2 ^ e) k)
    refine Nat.pow_dvd_pow 2 ?_
    rcases Nat.eq_zero_or_pos (k * 2 ^ e) with h0 | h0
    · rw [h0]
      exact Nat.zero_le _
    · have hl : (k * 2 ^ e).log2 < precision + e := by
        rw [Nat.log2_lt (by omega), Nat.pow_add]
        exact Nat.mul_lt_mul_of_pos_right h (Nat.two_pow_pos e)
      unfold precision at hl ⊢
      omega
  · rw [← Nat.pow_add]
    exact lowBit_dvd_two_pow (by rw [Nat.log2_two_pow])

/-- A rounded fraction that is whole is a number of the format. -/
theorem lowBit_dvd_of_nearestMagnitude (hb : b ≠ 0) (h : nearestMagnitude a b = n) :
    lowBit n ∣ n := by
  rw [nearestMagnitude_eq] at h
  have hr := roundDiv_le_two_pow (a := a) hb
  generalize roundDiv _ _ = r at h hr
  have hne : (2 : Rat) ^ (-lastBit a b).toNat ≠ 0 := pow_ne_zero _ two_ne_zero
  rw [div_eq_iff hne] at h
  have h : r * 2 ^ (lastBit a b).toNat = n * 2 ^ (-lastBit a b).toNat := by exact_mod_cast h
  rcases Int.le_total 0 (lastBit a b) with he | he
  · rw [(by omega : (-lastBit a b).toNat = 0), Nat.pow_zero, Nat.mul_one] at h
    rw [← h]
    exact lowBit_dvd_mul hr _
  · -- below the point nothing is left, so the number is at most 2^53
    rw [(by omega : (lastBit a b).toNat = 0), Nat.pow_zero, Nat.mul_one] at h
    have hn : n ≤ 2 ^ precision :=
      Nat.le_trans (Nat.le_mul_of_pos_right n (Nat.two_pow_pos _)) (h ▸ hr)
    simpa using lowBit_dvd_mul hn 0

theorem readsAs_zero : ReadsAs 0 0 :=
  readsAs_iff.2 ⟨nearestWhole_zero, Nat.two_pow_pos _⟩

theorem nearestMagnitude_nonneg (a b : Nat) : 0 ≤ nearestMagnitude a b := by
  rw [nearestMagnitude_eq]
  exact div_nonneg (mul_nonneg (Nat.cast_nonneg _) (pow_nonneg zero_le_two _))
    (pow_nonneg zero_le_two _)

/-- **A rounded number that is whole is rounded already.** -/
theorem readsAs_self_of_nearest? {x : Rat} (h : nearest? x = some (n : Rat)) : ReadsAs n n := by
  rcases Nat.eq_zero_or_pos n with rfl | hn
  · exact readsAs_zero
  · have hpos : (0 : Rat) < n := by exact_mod_cast hn
    simp only [nearest?] at h
    split at h
    · -- zero is rounded to zero
      rw [← Option.some.inj h] at hpos
      exact absurd hpos (lt_irrefl 0)
    · split at h
      · rename_i hlt
        have hy : nearestMagnitude x.num.natAbs x.den = n := by
          have h := Option.some.inj h
          split at h
          · have := nearestMagnitude_nonneg x.num.natAbs x.den
            rw [← h] at hpos
            exact absurd hpos (not_lt.2 (neg_nonpos.2 this))
          · exact h
        have hlt : n < 2 ^ magnitudeBits := by
          rw [hy] at hlt
          exact_mod_cast hlt
        have hd := lowBit_dvd_of_nearestMagnitude x.den_nz hy
        exact readsAs_iff.2 ⟨nearestWhole_of_dvd hd, hlt⟩
      · cases h

/-! ### Numbers that were read -/

theorem exists_nearest?_zero : ∃ y, nearest? y = some 0 :=
  ⟨0, by simp [nearest?]⟩

theorem exists_nearest?_of_ofDecimal? {c e : Int} {x : Rat} (h : ofDecimal? c e = some x) :
    ∃ y, nearest? y = some x := by
  simp only [ofDecimal?] at h
  split at h
  · exact Option.some.inj h ▸ exists_nearest?_zero
  · split at h
    · cases h
    · split at h
      · exact Option.some.inj h ▸ exists_nearest?_zero
      · exact ⟨_, h⟩

theorem eq_some_of_ofRounded {negative : Bool} {o : Option Rat} {x : Rat}
    (h : (Measure.ofRounded negative o).finite? = some x) : o = some x := by
  cases o with
  | none => cases h
  | some y => exact h

/-- What a text reads as is a rounded number. -/
theorem exists_nearest?_of_read? {t : Text} {x : Rat} (h : read? t = some x) :
    ∃ y, nearest? y = some x := by
  obtain ⟨m, hm, hx⟩ := Option.bind_eq_some_iff.1 h
  unfold measure? at hm
  split at hm
  · -- a blank text is zero
    rw [← Option.some.inj hm] at hx
    exact Option.some.inj hx ▸ exists_nearest?_zero
  · unfold numeral? at hm
    split at hm
    · obtain ⟨n, -, rfl⟩ := Option.map_eq_some_iff.1 hm
      exact ⟨n, eq_some_of_ofRounded hx⟩
    · simp only [decimal?] at hm
      split at hm
      · rw [← Option.some.inj hm] at hx
        cases hx
      · obtain ⟨c, -, hm⟩ := Option.bind_eq_some_iff.1 hm
        obtain ⟨e, -, hm⟩ := Option.bind_eq_some_iff.1 hm
        rw [← Option.some.inj hm] at hx
        exact exists_nearest?_of_ofDecimal? (eq_some_of_ofRounded hx)

theorem readsAs_self_of_read? {t : Text} (h : read? t = some (n : Rat)) : ReadsAs n n := by
  obtain ⟨y, hy⟩ := exists_nearest?_of_read? h
  exact readsAs_self_of_nearest? hy

end Number

end ReleaseNotes
