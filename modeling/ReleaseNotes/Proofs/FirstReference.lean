/-
ReleaseNotes/Proofs/FirstReference.lean

Which reference of a message gives the number of its pull request.

A reference starts where a mark, `#` or `PR`, stands in front of a digit, with nothing but
blanks between them.  No digit is blank, so mark, blanks and number can be told apart in one
way only, and the number goes on to the last of the digits that stand together.  The message
is looked through from its first character on.  So `d` is its number exactly when

    message = front ++ mark ++ blanks ++ d ++ behind

where no reference starts in `front` and no digit starts `behind`.

Main results: the number that a reference gives (`numberAt?_eq_some_iff`), where no
reference starts there is none (`number?_eq_none_iff`), and the number of a message is that
of its first reference (`number?_of_first`).
-/
import ReleaseNotes.Proofs.RemovedTokens

namespace ReleaseNotes

theorem Text.present?_eq_some_iff {o : Option Text} {s : Text} :
    present? o = some s ↔ o = some s ∧ s ≠ [] := by
  refine ⟨present?_eq_some, ?_⟩
  rintro ⟨rfl, hne⟩
  obtain ⟨c, s, rfl⟩ := List.exists_cons_of_ne_nil hne
  rfl

namespace Reference

variable {s t d front mark blanks behind : Text} {i : Nat}

/-! ### Numbers behind blanks -/

/-- The digits of a text are all that stand at its start. -/
theorem digits_append (hd : IsNumber d) (hb : ∀ c, behind.head? = some c → c.isDigit = false) :
    digits (d ++ behind) = d := by
  cases behind with
  | nil => rw [digits, List.append_nil, List.takeWhile_eq_self_iff.2 hd.2]
  | cons c behind => exact Text.takeWhile_append_cons hd.2 (hb c rfl)

theorem trimStart_append (hb : ∀ c ∈ blanks, Text.isBlank c = true) (hd : IsNumber d)
    (t : Text) : Text.trimStart (blanks ++ (d ++ t)) = d ++ t := by
  obtain ⟨c, d, rfl⟩ := List.exists_cons_of_ne_nil hd.1
  exact Text.dropWhile_append_cons hb (isBlank_of_isDigit (hd.2 c List.mem_cons_self))

/-- What a text has for a number behind its blanks. -/
theorem digits_trimStart_iff (hne : d ≠ []) :
    digits (Text.trimStart t) = d ↔ ∃ blanks behind, t = blanks ++ (d ++ behind)
      ∧ (∀ c ∈ blanks, Text.isBlank c = true) ∧ IsNumber d
      ∧ ∀ c, behind.head? = some c → c.isDigit = false := by
  constructor
  · rintro rfl
    obtain ⟨behind, happend, hend⟩ := exists_digits_append (Text.trimStart t)
    refine ⟨t.takeWhile Text.isBlank, behind, ?_, fun _ => List.mem_takeWhile_imp,
      isNumber_digits hne, hend⟩
    rw [← happend]
    exact List.takeWhile_append_dropWhile.symm
  · rintro ⟨blanks, behind, rfl, hb, hd, hend⟩
    rw [trimStart_append hb hd, digits_append hd hend]

/-! ### References -/

/-- The marks that a reference begins with. -/
def IsMark (mark : Text) : Prop :=
  mark = ['#'] ∨ mark = ['P', 'R']

/-- A mark, blanks or none, and a digit start the text. -/
def Starts (s : Text) : Prop :=
  ∃ mark blanks x t, IsMark mark ∧ (∀ c ∈ blanks, Text.isBlank c = true)
    ∧ Char.isDigit x = true ∧ s = mark ++ blanks ++ x :: t

theorem afterMark?_eq_some_iff : afterMark? s = some t ↔ ∃ mark, IsMark mark ∧ s = mark ++ t := by
  constructor
  · intro h
    unfold afterMark? at h
    split at h
    · exact ⟨['#'], .inl rfl, congrArg ('#' :: ·) (Option.some.inj h)⟩
    · exact ⟨['P', 'R'], .inr rfl, congrArg ('P' :: 'R' :: ·) (Option.some.inj h)⟩
    · cases h
  · rintro ⟨mark, rfl | rfl, rfl⟩
    · rfl
    · rfl

/-- `d` is the number of the reference that starts a text. -/
theorem numberAt?_eq_some_iff :
    numberAt? s = some d ↔ ∃ mark blanks behind, s = mark ++ blanks ++ d ++ behind
      ∧ IsMark mark ∧ (∀ c ∈ blanks, Text.isBlank c = true) ∧ IsNumber d
      ∧ ∀ c, behind.head? = some c → c.isDigit = false := by
  rw [numberAt?, Text.present?_eq_some_iff, Option.map_eq_some_iff]
  constructor
  · rintro ⟨⟨t, ht, hd⟩, hne⟩
    obtain ⟨mark, hmark, rfl⟩ := afterMark?_eq_some_iff.1 ht
    obtain ⟨blanks, behind, rfl, hb, hnum, hend⟩ := (digits_trimStart_iff hne).1 hd
    exact ⟨mark, blanks, behind, by simp only [List.append_assoc], hmark, hb, hnum, hend⟩
  · rintro ⟨mark, blanks, behind, rfl, hmark, hb, hnum, hend⟩
    refine ⟨⟨blanks ++ (d ++ behind), ?_, ?_⟩, hnum.1⟩
    · exact afterMark?_eq_some_iff.2 ⟨mark, hmark, by simp only [List.append_assoc]⟩
    · exact (digits_trimStart_iff hnum.1).2 ⟨blanks, behind, rfl, hb, hnum, hend⟩

/-- Where a reference starts it has a number. -/
theorem starts_iff : Starts s ↔ ∃ d, numberAt? s = some d := by
  constructor
  · rintro ⟨mark, blanks, x, t, hmark, hb, hx, rfl⟩
    have hne : digits (x :: t) ≠ [] := by
      rw [digits, List.takeWhile_cons_of_pos hx]
      exact List.cons_ne_nil _ _
    obtain ⟨behind, happend, hend⟩ := exists_digits_append (x :: t)
    refine ⟨digits (x :: t), numberAt?_eq_some_iff.2
      ⟨mark, blanks, behind, ?_, hmark, hb, isNumber_digits hne, hend⟩⟩
    rw [List.append_assoc (mark ++ blanks), ← happend]
  · rintro ⟨d, hd⟩
    obtain ⟨mark, blanks, behind, rfl, hmark, hb, hnum, -⟩ := numberAt?_eq_some_iff.1 hd
    obtain ⟨x, d, rfl⟩ := List.exists_cons_of_ne_nil hnum.1
    refine ⟨mark, blanks, x, d ++ behind, hmark, hb, hnum.2 x List.mem_cons_self, ?_⟩
    rw [List.append_assoc (mark ++ blanks)]
    rfl

theorem numberAt?_eq_none_iff : numberAt? s = none ↔ ¬ Starts s := by
  rw [starts_iff, not_exists, Option.eq_none_iff_forall_ne_some]

/-! ### The first reference -/

/-- There is no number exactly when no reference starts anywhere. -/
theorem number?_eq_none_iff : number? s = none ↔ ∀ i, ¬ Starts (s.drop i) := by
  induction s with
  | nil =>
    refine ⟨fun _ i => ?_, fun _ => rfl⟩
    rw [List.drop_nil]
    exact numberAt?_eq_none_iff.1 rfl
  | cons c s ih =>
    rw [number?, Option.or_eq_none_iff, ih, numberAt?_eq_none_iff]
    constructor
    · rintro ⟨hfirst, hrest⟩ i
      cases i with
      | zero => exact hfirst
      | succ i => exact hrest i
    · exact fun h => ⟨h 0, fun i => h (i + 1)⟩

/-- The number is read at the first place where a reference starts. -/
theorem number?_eq_some_iff :
    number? s = some d ↔ ∃ i, numberAt? (s.drop i) = some d ∧ ∀ j < i, ¬ Starts (s.drop j) := by
  induction s with
  | nil =>
    refine ⟨nofun, ?_⟩
    rintro ⟨i, hi, -⟩
    rw [List.drop_nil] at hi
    cases hi
  | cons c s ih =>
    rw [number?]
    cases hfirst : numberAt? (c :: s) with
    | some e =>
      -- a reference starts here, so no later one can be the first
      have hstarts : Starts (c :: s) := starts_iff.2 ⟨e, hfirst⟩
      rw [Option.some_or]
      constructor
      · intro h
        exact ⟨0, hfirst.trans h, fun j hj => absurd hj (Nat.not_lt_zero j)⟩
      · rintro ⟨i, hi, hbefore⟩
        cases i with
        | zero => exact hfirst.symm.trans hi
        | succ i => exact absurd hstarts (hbefore 0 (Nat.succ_pos i))
    | none =>
      -- none starts here, and every place in the rest is one further on
      rw [Option.none_or, ih]
      constructor
      · rintro ⟨i, hi, hbefore⟩
        refine ⟨i + 1, hi, fun j hj => ?_⟩
        cases j with
        | zero => exact numberAt?_eq_none_iff.1 hfirst
        | succ j => exact hbefore j (Nat.lt_of_succ_lt_succ hj)
      · rintro ⟨i, hi, hbefore⟩
        cases i with
        | zero => exact absurd (hfirst.symm.trans hi) (Option.some_ne_none d).symm
        | succ i => exact ⟨i, hi, fun j hj => hbefore (j + 1) (Nat.succ_lt_succ hj)⟩

/-- The first reference of `s` and its number `d`: `mark`, `blanks` and `d` stand behind
`front`, in which no reference starts, and no more digits follow. -/
structure IsFirst (s front mark blanks d behind : Text) : Prop where
  append : front ++ mark ++ blanks ++ d ++ behind = s
  isMark : IsMark mark
  isBlank : ∀ c ∈ blanks, Text.isBlank c = true
  isNumber : IsNumber d
  ends : ∀ c, behind.head? = some c → c.isDigit = false
  first : ∀ i < front.length, ¬ Starts (s.drop i)

theorem exists_isFirst_iff :
    (∃ front mark blanks behind, IsFirst s front mark blanks d behind)
      ↔ ∃ i, numberAt? (s.drop i) = some d ∧ ∀ j < i, ¬ Starts (s.drop j) := by
  constructor
  · rintro ⟨front, mark, blanks, behind, h⟩
    refine ⟨front.length, ?_, h.first⟩
    rw [← h.append]
    simp only [List.append_assoc, List.drop_left]
    exact numberAt?_eq_some_iff.2 ⟨mark, blanks, behind, by simp only [List.append_assoc],
      h.isMark, h.isBlank, h.isNumber, h.ends⟩
  · rintro ⟨i, hi, hbefore⟩
    obtain ⟨mark, blanks, behind, hdrop, hmark, hb, hnum, hend⟩ := numberAt?_eq_some_iff.1 hi
    refine ⟨s.take i, mark, blanks, behind, ?_, hmark, hb, hnum, hend, fun j hj => ?_⟩
    · have happend := List.take_append_drop i s
      rw [hdrop] at happend
      simpa only [List.append_assoc] using happend
    · exact hbefore j (Nat.lt_of_lt_of_le hj (List.length_take_le i s))

/-- **The number of a message is that of its first reference**, and a message in which no
reference starts has none. -/
theorem number?_of_first (s : Text) :
    (∀ d, number? s = some d
        ↔ ∃ front mark blanks behind, IsFirst s front mark blanks d behind)
      ∧ (number? s = none ↔ ∀ i, ¬ Starts (s.drop i)) :=
  ⟨fun _ => number?_eq_some_iff.trans exists_isFirst_iff.symm, number?_eq_none_iff⟩

/-- A mark in front of another one, and digits of another script, give no number. -/
example : number? "##٣ # PPR\u2003012#7".toList = some "012".toList := by decide

end Reference

end ReleaseNotes
