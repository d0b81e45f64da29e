/-
ReleaseNotes/Proofs/ShortestWhole.lean

The shortest decimal of a whole number of the format.

A decimal is looked for on the grids of the multiples of 10^k, from the place of
the first digit downwards, and the first grid that has a number which reads back
is taken.  Only the two neighbours on a grid are tried.  They are enough, because
what reads back is an interval:

    m * 10^k  ≤  neighbour  ≤  n        both ends read as n, so the neighbour does.

The search ends at the point at the latest, where the number itself is found, or
after seventeen digits, where the grid is finer than the numbers of the format are
spaced.

Main results: what the search finds (`exists_isShortest`), and when it finds the
number itself (`IsShortest.eq_iff`): when no whole number with more zeros at its end
reads as it.
-/
import ReleaseNotes.Number.Decimal
import ReleaseNotes.Proofs.WholeNumbers

namespace ReleaseNotes

namespace Number

variable {c i j k m n : Nat} {d : Decimal}

/-! ### Digits -/

theorem digitCount_le_iff (hk : 0 < k) : digitCount n ≤ k ↔ n < 10 ^ k :=
  Nat.length_toDigits_le_iff (by decide) hk

theorem digitCount_pos (n : Nat) : 0 < digitCount n :=
  Nat.length_toDigits_pos

/-- The place of the first digit, counted from the last one. -/
def firstPlace (n : Nat) : Nat :=
  digitCount n - 1

theorem lt_pow_firstPlace (n : Nat) : n < 10 ^ (firstPlace n + 1) := by
  rw [firstPlace, Nat.sub_add_cancel (digitCount_pos n)]
  exact (digitCount_le_iff (digitCount_pos n)).1 (Nat.le_refl _)

theorem pow_firstPlace_le (hn : 0 < n) : 10 ^ firstPlace n ≤ n := by
  rcases Nat.eq_zero_or_pos (firstPlace n) with h | h
  · rw [h]
    exact hn
  · refine Nat.le_of_not_lt fun hlt => ?_
    have := (digitCount_le_iff h).2 hlt
    have := digitCount_pos n
    unfold firstPlace at *
    omega

/-- The grids down to the first place are those that are at most as coarse as the
number. -/
theorem le_firstPlace_iff (hn : 0 < n) : j ≤ firstPlace n ↔ 10 ^ j ≤ n := by
  constructor
  · exact fun h => Nat.le_trans (Nat.pow_le_pow_right (by decide) h) (pow_firstPlace_le hn)
  · intro h
    have := Nat.lt_of_le_of_lt h (lt_pow_firstPlace n)
    exact Nat.le_of_lt_succ ((Nat.pow_lt_pow_iff_right (by decide)).1 this)

theorem floorLogTen_one (hn : 0 < n) : floorLogTen n 1 = firstPlace n := by
  have h1 : digitCount 1 = 1 := by decide
  have he : (digitCount n : Int) - digitCount 1 = firstPlace n := by
    have := digitCount_pos n
    unfold firstPlace
    omega
  have hp : powerAtMost 10 n 1 (firstPlace n) = true := by
    simpa [powerAtMost, scaled, Nat.pow_eq] using pow_firstPlace_le hn
  simp only [floorLogTen, he, hp, if_true]

theorem digitCount_add_le (hc : 0 < c) (h : c * 10 ^ k < 10 ^ m) : digitCount c + k ≤ m := by
  have hk : k < m := by
    refine (Nat.pow_lt_pow_iff_right (a := 10) (by decide)).1 (Nat.lt_of_le_of_lt ?_ h)
    exact Nat.le_mul_of_pos_left _ hc
  have hcount : digitCount c ≤ m - k := by
    refine (digitCount_le_iff (by omega)).2 (Nat.lt_of_mul_lt_mul_right (a := 10 ^ k) ?_)
    rw [← Nat.pow_add, Nat.sub_add_cancel (Nat.le_of_lt hk)]
    exact h
  omega

/-! ### Decimals on a grid -/

/-- A decimal without a fraction is read as the whole number that it denotes. -/
theorem ofDecimal?_natCast (h : digitCount c + k ≤ 400) :
    ofDecimal? (c : Int) (k : Int) = nearest? ((c * 10 ^ k : Nat) : Rat) := by
  rcases Nat.eq_zero_or_pos c with rfl | hc
  · simp [ofDecimal?, nearest?]
  · have hc0 : (c : Int) ≠ 0 := by omega
    have hreach : ¬ decimalReach < (digitCount c : Int) + k := by
      unfold decimalReach
      omega
    have hsmall : ¬ (digitCount c : Int) + k < -decimalReach := by
      unfold decimalReach
      omega
    have hneg : (-(k : Int)).toNat = 0 := by omega
    simp only [ofDecimal?, Int.natAbs_natCast, if_neg hc0, if_neg hreach, if_neg hsmall, hneg,
      Int.toNat_natCast, Nat.pow_eq, Nat.pow_zero, Rat.mkRat_one]
    push_cast
    rfl

/-- The neighbours of a number on a grid are not far outside the format. -/
theorem ofDecimal?_neighbour (hn : n < 2 ^ magnitudeBits) (hk : 10 ^ k ≤ n)
    (hc : c ≤ n / 10 ^ k + 1) :
    ofDecimal? (c : Int) (k : Int) = some (n : Rat) ↔ ReadsAs (c * 10 ^ k) n := by
  have hreach : 2 * 2 ^ magnitudeBits < 10 ^ 309 := by decide +kernel
  have hlt : c * 10 ^ k < 10 ^ 309 := by
    have h1 : c * 10 ^ k ≤ (n / 10 ^ k + 1) * 10 ^ k := Nat.mul_le_mul_right _ hc
    have h2 := Nat.div_mul_le_self n (10 ^ k)
    rw [Nat.add_mul] at h1
    omega
  have hcount : digitCount c + k ≤ 400 := by
    rcases Nat.eq_zero_or_pos c with rfl | hc
    · have hk : k < 309 := by
        refine (Nat.pow_lt_pow_iff_right (a := 10) (by decide)).1 ?_
        omega
      have : digitCount 0 = 1 := by decide
      omega
    · exact Nat.le_trans (digitCount_add_le hc hlt) (by decide)
  rw [ofDecimal?_natCast hcount]
  exact Iff.rfl

theorem nearer_one (n k : Nat) : nearer n 1 k = roundDiv n (10 ^ k) := by
  simp [nearer, scaled, Nat.pow_eq]

/-- The two neighbours on a grid, in the order in which they are tried. -/
theorem nearer_or_farther_one (n k : Nat) :
    nearer n 1 k = n / 10 ^ k ∧ farther n 1 k = n / 10 ^ k + 1
      ∨ nearer n 1 k = n / 10 ^ k + 1 ∧ farther n 1 k = n / 10 ^ k := by
  simpa [scaled, Nat.pow_eq] using nearer_or_farther n 1 k

/-- A grid is searched by trying its two neighbours. -/
theorem onGrid?_one (hn : n < 2 ^ magnitudeBits) (hk : 10 ^ k ≤ n) :
    (ReadsAs (nearer n 1 k * 10 ^ k) n ∧ onGrid? n 1 k = some ⟨nearer n 1 k, k⟩)
      ∨ (¬ ReadsAs (nearer n 1 k * 10 ^ k) n
        ∧ (ReadsAs (farther n 1 k * 10 ^ k) n ∧ onGrid? n 1 k = some ⟨farther n 1 k, k⟩
          ∨ ¬ ReadsAs (farther n 1 k * 10 ^ k) n ∧ onGrid? n 1 k = none)) := by
  have hself : mkRat (n : Int) 1 = (n : Rat) := by
    rw [Rat.mkRat_one]
    rfl
  have hnear : nearer n 1 k ≤ n / 10 ^ k + 1 := by
    rcases nearer_or_farther_one n k with ⟨h, -⟩ | ⟨h, -⟩ <;> omega
  have hfar : farther n 1 k ≤ n / 10 ^ k + 1 := by
    rcases nearer_or_farther_one n k with ⟨-, h⟩ | ⟨-, h⟩ <;> omega
  have h1 := ofDecimal?_neighbour hn hk hnear
  have h2 := ofDecimal?_neighbour hn hk hfar
  by_cases hr : ReadsAs (nearer n 1 k * 10 ^ k) n
  · refine .inl ⟨hr, ?_⟩
    rw [onGrid?, hself, if_pos (h1.2 hr)]
  · refine .inr ⟨hr, ?_⟩
    by_cases hr' : ReadsAs (farther n 1 k * 10 ^ k) n
    · refine .inl ⟨hr', ?_⟩
      rw [onGrid?, hself, if_neg (mt h1.1 hr), if_pos (h2.2 hr')]
    · refine .inr ⟨hr', ?_⟩
      rw [onGrid?, hself, if_neg (mt h1.1 hr), if_neg (mt h2.1 hr')]

/-- What is found on a grid reads back, and it is the nearer neighbour if that one
reads back. -/
theorem of_onGrid?_eq_some (hn : n < 2 ^ magnitudeBits) (hk : 10 ^ k ≤ n)
    (h : onGrid? n 1 k = some d) :
    d.exponent = k ∧ ReadsAs (d.coefficient * 10 ^ k) n
      ∧ (ReadsAs (roundDiv n (10 ^ k) * 10 ^ k) n → d.coefficient = roundDiv n (10 ^ k)) := by
  rw [← nearer_one]
  rcases onGrid?_one hn hk with ⟨hr, he⟩ | ⟨hr, ⟨hr', he⟩ | ⟨-, he⟩⟩
  · obtain rfl := Option.some.inj (he.symm.trans h)
    exact ⟨rfl, hr, fun _ => rfl⟩
  · obtain rfl := Option.some.inj (he.symm.trans h)
    exact ⟨rfl, hr', fun h => absurd h hr⟩
  · rw [he] at h
    cases h

/-- **Where nothing is found on a grid, nothing on it reads back.** -/
theorem of_onGrid?_eq_none (hn : ReadsAs n n) (hk : 10 ^ k ≤ n) (h : onGrid? n 1 k = none)
    (m : Nat) : ¬ ReadsAs (m * 10 ^ k) n := by
  have hnone : ¬ ReadsAs (n / 10 ^ k * 10 ^ k) n ∧ ¬ ReadsAs ((n / 10 ^ k + 1) * 10 ^ k) n := by
    rcases onGrid?_one (readsAs_iff.1 hn).2 hk with ⟨-, he⟩ | ⟨hr, ⟨-, he⟩ | ⟨hr', -⟩⟩
    · rw [he] at h
      cases h
    · rw [he] at h
      cases h
    · rcases nearer_or_farther_one n k with ⟨h1, h2⟩ | ⟨h1, h2⟩ <;> rw [h1] at hr <;>
        rw [h2] at hr'
      · exact ⟨hr, hr'⟩
      · exact ⟨hr', hr⟩
  -- a neighbour lies between the number and anything else on the grid
  intro hm
  rcases Nat.lt_or_ge (n / 10 ^ k) m with hlt | hle
  · refine hnone.2 (hn.of_le_of_le hm ?_ (Nat.mul_le_mul_right _ hlt))
    rw [Nat.mul_comm]
    exact Nat.le_of_lt (Nat.lt_mul_div_succ n (Nat.pow_pos (by decide)))
  · exact hnone.1 (hm.of_le_of_le hn (Nat.mul_le_mul_right _ hle) (Nat.div_mul_le_self n _))

/-! ### Seventeen digits -/

/-- Steps with seventeen digits are smaller than the low bit. -/
theorem lt_lowBit (h : k * 10 ^ 16 ≤ n) (hk : 0 < k) : k < lowBit n := by
  have hn := lt_lowBit_mul n
  unfold precision at hn
  omega

/-- A number of the format has no bit below the low bits of the numbers that are
less than its own low bit above it. -/
theorem lowBit_dvd_of_near (hn : lowBit n ∣ n) (hle : m < n + lowBit n) : lowBit m ∣ n := by
  rcases Nat.lt_or_ge n m with hlt | hge
  · rcases Nat.lt_or_eq_of_le (log2_mono (Nat.le_of_lt hlt)) with hl | hl
    · -- the next power of two would be less than a low bit away
      have hp : n < 2 ^ (n.log2 + 1) := Nat.lt_log2_self
      have hm : 2 ^ (n.log2 + 1) ≤ m :=
        Nat.le_trans (Nat.pow_le_pow_right (by decide) hl) (Nat.log2_self_le (by omega))
      have hd := Nat.dvd_sub (lowBit_dvd_two_pow (Nat.le_succ n.log2)) hn
      have := Nat.le_of_dvd (by omega) hd
      omega
    · rwa [lowBit, ← hl]
  · exact Nat.dvd_trans (lowBit_dvd_lowBit hge) hn

/-- **Seventeen digits tell a number of the format from all others.** -/
theorem readsAs_of_seventeen (hn : ReadsAs n n) (h : 10 ^ (k + 16) ≤ n) :
    ReadsAs (roundDiv n (10 ^ k) * 10 ^ k) n := by
  have hk : 0 < 10 ^ k := Nat.pow_pos (by decide)
  have hup := roundDiv_le n (10 ^ k)
  have hdown := le_roundDiv n hk
  rw [Nat.pow_add, Nat.mul_comm] at h
  have hr : 10 ^ 16 ≤ roundDiv n (10 ^ k) := by
    have := roundDiv_mono (10 ^ k) h
    rwa [roundDiv_mul _ hk] at this
  have hm : 10 ^ 16 * 10 ^ k ≤ roundDiv n (10 ^ k) * 10 ^ k := Nat.mul_le_mul_right _ hr
  generalize roundDiv n (10 ^ k) * 10 ^ k = m at *
  have hself : lowBit n ∣ n := by
    have := lowBit_dvd_nearestWhole n
    rwa [(readsAs_iff.1 hn).1] at this
  have hbn := lt_lowBit (n := n) (by omega) hk
  have hbm := lt_lowBit (n := m) (by omega) hk
  have hd : lowBit m ∣ n := lowBit_dvd_of_near hself (by omega)
  exact readsAs_iff.2 ⟨roundDiv_mul_eq hd (by omega) (by omega), (readsAs_iff.1 hn).2⟩

/-! ### The search -/

/-- A search through the numbers below a bound finds something at the first place
where there is something. -/
theorem findSome?_range_eq_some_iff {α : Type} {f : Nat → Option α} {x : α} {bound : Nat} :
    (List.range bound).findSome? f = some x
      ↔ ∃ i < bound, f i = some x ∧ ∀ j < i, f j = none := by
  induction bound with
  | zero => simp
  | succ bound ih =>
    rw [List.range_succ, List.findSome?_append, Option.or_eq_some_iff, ih,
      List.findSome?_eq_none_iff, List.findSome?_singleton]
    constructor
    · rintro (⟨i, hi, hx, hj⟩ | ⟨hj, hx⟩)
      · exact ⟨i, by omega, hx, hj⟩
      · exact ⟨bound, by omega, hx, fun j h => hj j (List.mem_range.2 h)⟩
    · rintro ⟨i, hi, hx, hj⟩
      rcases Nat.lt_or_eq_of_le (Nat.le_of_lt_succ hi) with hi | rfl
      · exact .inl ⟨i, hi, hx, hj⟩
      · exact .inr ⟨fun j h => hj j (List.mem_range.1 h), hx⟩

/-- The decimal `c * 10 ^ k` is what a search for the shortest one finds for `n`. -/
structure IsShortest (n c k : Nat) : Prop where
  pow_le : 10 ^ k ≤ n
  readsAs : ReadsAs (c * 10 ^ k) n
  /-- The nearer neighbour is tried first. -/
  eq_roundDiv : ReadsAs (roundDiv n (10 ^ k) * 10 ^ k) n → c = roundDiv n (10 ^ k)
  /-- Nothing on a coarser grid reads back. -/
  le_of_readsAs : ∀ m j, 10 ^ j ≤ n → ReadsAs (m * 10 ^ j) n → j ≤ k

/-- One of the grids that are searched, at the point or before it, has something. -/
theorem exists_onGrid?_ne_none (hn : 0 < n) (hr : ReadsAs n n) :
    ∃ i < enoughDigits, i ≤ firstPlace n ∧ onGrid? n 1 ((firstPlace n - i : Nat) : Int) ≠ none := by
  rcases Nat.lt_or_ge 16 (firstPlace n) with h | h
  · have hk := pow_firstPlace_le hn
    refine ⟨16, by decide, Nat.le_of_lt h, fun hnone => ?_⟩
    refine of_onGrid?_eq_none hr ((le_firstPlace_iff hn).1 (Nat.sub_le _ _)) hnone _
      (readsAs_of_seventeen hr ?_)
    rwa [Nat.sub_add_cancel (Nat.le_of_lt h)]
  · refine ⟨firstPlace n, by unfold enoughDigits; omega, Nat.le_refl _, fun hnone => ?_⟩
    rw [Nat.sub_self] at hnone
    refine of_onGrid?_eq_none hr hn hnone n ?_
    rwa [Nat.pow_zero, Nat.mul_one]

/-- **The search for the shortest decimal of a whole number of the format succeeds.** -/
theorem exists_isShortest (hn : 0 < n) (hr : ReadsAs n n) :
    ∃ c k : Nat, shortest n 1 = ⟨c, k⟩ ∧ IsShortest n c k := by
  obtain ⟨i, hi, hle, hsome⟩ := exists_onGrid?_ne_none hn hr
  let grid (i : Nat) : Option Decimal := onGrid? n 1 ((firstPlace n : Int) - i)
  have hgrid : ∀ i ≤ firstPlace n, grid i = onGrid? n 1 ((firstPlace n - i : Nat) : Int) := by
    intro i h
    show onGrid? n 1 _ = _
    rw [Int.ofNat_sub h]
  have hfind : shortest n 1
      = ((List.range enoughDigits).findSome? grid).getD
        ⟨nearer n 1 (firstPlace n - (enoughDigits - 1)), firstPlace n - (enoughDigits - 1)⟩ := by
    simp only [shortest, floorLogTen_one hn, List.findSome?_map]
    rfl
  cases e : (List.range enoughDigits).findSome? grid with
  | none =>
    rw [← hgrid i hle] at hsome
    exact absurd (List.findSome?_eq_none_iff.1 e i (List.mem_range.2 hi)) hsome
  | some d =>
    obtain ⟨l, -, hl, hbefore⟩ := findSome?_range_eq_some_iff.1 e
    -- the search ends at the grid that has something, or before it
    have hll : l ≤ firstPlace n := by
      refine Nat.le_trans (Nat.le_of_not_lt fun hlt => hsome ?_) hle
      rw [← hgrid i hle]
      exact hbefore i hlt
    rw [hgrid l hll] at hl
    have hpow : 10 ^ (firstPlace n - l) ≤ n := (le_firstPlace_iff hn).1 (Nat.sub_le _ _)
    obtain ⟨he, hread, hnear⟩ := of_onGrid?_eq_some (readsAs_iff.1 hr).2 hpow hl
    refine ⟨d.coefficient, firstPlace n - l, ?_, hpow, hread, hnear, fun m j hj hm => ?_⟩
    · rw [hfind, e, Option.getD_some, ← he]
    · -- a coarser grid was searched before, and had nothing
      refine Nat.le_of_not_lt fun hlt => ?_
      have hjl := (le_firstPlace_iff hn).2 hj
      have hnone := hbefore (firstPlace n - j) (by omega)
      rw [hgrid _ (Nat.sub_le _ _), Nat.sub_sub_self hjl] at hnone
      exact of_onGrid?_eq_none hr hj hnone m hm

/-! ### Numbers that are their own shortest decimals -/

/-- No whole number with more zeros at its end reads as `n`. -/
def IsRoundest (n : Nat) : Prop :=
  ∀ m j, ReadsAs (m * 10 ^ j) n → 10 ^ j ∣ n

/-- Up to 53 bits every number is its own shortest decimal. -/
theorem isRoundest_of_lt (h : n < 2 ^ precision) : IsRoundest n := by
  intro m j hm
  rw [← hm.eq_of_lt h]
  exact Nat.dvd_mul_left _ _

/-- A number of one digit and zeros is not so near to the next power of ten that
this power reads as it. -/
theorem not_readsAs_pow_succ (hc : c < 10) : ¬ ReadsAs (10 ^ (k + 1)) (c * 10 ^ k) := by
  intro h
  obtain ⟨h, -⟩ := readsAs_iff.1 h
  have hpow : 0 < 10 ^ k := Nat.pow_pos (by decide)
  have hle : c * 10 ^ k ≤ 9 * 10 ^ k := Nat.mul_le_mul_right _ (Nat.le_of_lt_succ hc)
  have hnear := le_roundDiv (10 ^ (k + 1)) (lowBit_pos (10 ^ (k + 1)))
  rw [← nearestWhole, h] at hnear
  rcases Nat.lt_or_ge (10 ^ (k + 1)) (2 ^ precision) with hlt | hge
  · rw [nearestWhole_of_lt hlt] at h
    omega
  · have hbits := lowBit_mul_le hge
    unfold precision at hbits
    omega

/-- **The search finds the number itself exactly when no rounder number reads as
it.** -/
theorem IsShortest.eq_iff (h : IsShortest n c k) (hn : 0 < n) (hr : ReadsAs n n) :
    c * 10 ^ k = n ↔ IsRoundest n := by
  constructor
  · intro he m j hm
    rcases Nat.lt_or_ge n (10 ^ j) with hlt | hle
    · -- then the next power of ten reads as the number, which has one digit and zeros
      have hfirst : n < 10 ^ (firstPlace n + 1) := lt_pow_firstPlace n
      have hnext : ReadsAs (10 ^ (firstPlace n + 1)) n := by
        refine hr.of_le_of_le hm (Nat.le_of_lt hfirst) ?_
        refine Nat.le_trans ?_ (Nat.le_mul_of_pos_left _ ?_)
        · refine Nat.pow_le_pow_right (by decide) (Nat.lt_of_not_le fun hj => ?_)
          exact Nat.not_le_of_lt hlt ((le_firstPlace_iff hn).1 hj)
        · exact Nat.pos_of_mul_pos_right (hm.pos hn)
      have hk : k = firstPlace n := by
        refine Nat.le_antisymm ((le_firstPlace_iff hn).2 h.pow_le) ?_
        refine h.le_of_readsAs 10 _ (pow_firstPlace_le hn) ?_
        rwa [Nat.mul_comm, ← Nat.pow_succ]
      rw [← hk] at hfirst hnext
      have hc : c < 10 := by
        refine Nat.lt_of_mul_lt_mul_right (a := 10 ^ k) ?_
        rwa [he, Nat.mul_comm, ← Nat.pow_succ]
      rw [← he] at hnext
      exact absurd hnext (not_readsAs_pow_succ hc)
    · rw [← he]
      exact Nat.dvd_trans (Nat.pow_dvd_pow 10 (h.le_of_readsAs m j hle hm)) (Nat.dvd_mul_left _ _)
  · intro hround
    -- the number lies on its grid, and is its own nearer neighbour there
    have hpow : 0 < 10 ^ k := Nat.pow_pos (by decide)
    have hself : roundDiv n (10 ^ k) * 10 ^ k = n :=
      roundDiv_mul_eq (hround c k h.readsAs) (by omega) (by omega)
    rw [h.eq_roundDiv (hself.symm ▸ hr), hself]

/-- A power of ten of the format is not passed by the decimal that is found. -/
theorem IsShortest.lt_pow_iff (h : IsShortest n c k) (hn : 0 < n)
    (hp : nearestWhole (10 ^ j) = 10 ^ j) : c * 10 ^ k < 10 ^ j ↔ n < 10 ^ j := by
  obtain ⟨hread, hlt⟩ := readsAs_iff.1 h.readsAs
  constructor
  · intro hc
    refine Nat.lt_of_not_le fun hle => ?_
    have hmono := nearestWhole_mono (Nat.le_of_lt hc)
    rw [hread, hp] at hmono
    -- the number would be the power itself, and its grid would be taken
    have he : n = 10 ^ j := Nat.le_antisymm hmono hle
    have hj : j ≤ k := by
      refine h.le_of_readsAs 1 j hle (readsAs_iff.2 ⟨?_, hlt⟩)
      rw [Nat.one_mul, hp, he]
    have h1 : 10 ^ j ≤ 10 ^ k := Nat.pow_le_pow_right (by decide) hj
    have h2 : 10 ^ k ≤ c * 10 ^ k :=
      Nat.le_mul_of_pos_left _ (Nat.pos_of_mul_pos_right (h.readsAs.pos hn))
    omega
  · intro hlt
    refine Nat.lt_of_not_le fun hle => ?_
    have hmono := nearestWhole_mono hle
    omega

end Number

end ReleaseNotes
