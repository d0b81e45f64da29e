/-
ReleaseNotes/Proofs/TypedCounts.lean

A count on its way from the command line to git.

A count is typed as a numeral, with any zeros in front and blanks around it.  Read as a number
it passes the format of 53 bits, and for git and for people it is written as a numeral again:

    blanks ++ zeros ++ digitsOf n ++ blanks  --read?-->  n  --render-->  digitsOf n.

Reading takes a numeral through every case of its grammar: it has no base mark, since a digit
is none, no sign, no point and no exponent.  What is left is the value of its digits, which is
rounded to the format, and below 2^53 nothing is rounded.

Main results: what a numeral is read as (`IsNumeral.read?_eq`), and a count that is typed
reaches git unchanged (`limitOf_typedCount`).
-/
import ReleaseNotes.Proofs.JoinedLogs
import ReleaseNotes.Proofs.LimitArguments
import ReleaseNotes.Proofs.RemovedTokens

namespace ReleaseNotes

namespace Text

variable {s blanks : Text}

theorem trim_blank_append (h : ∀ c ∈ blanks, isBlank c = true) (s : Text) :
    trim (blanks ++ s) = trim s := by
  rw [trim, trimStart, List.dropWhile_append_of_pos h]
  rfl

end Text

namespace Number

variable {c : Char} {m n : Nat} {s front behind : Text}

/-! ### The value of digits -/

theorem digitValue?_of_isDigit (h : c.isDigit = true) :
    digitValue? 10 c = some (c.toNat - '0'.toNat) := by
  rw [Char.isDigit, Bool.and_eq_true, decide_eq_true_eq, decide_eq_true_eq] at h
  have hlo : '0'.toNat ≤ c.toNat := h.1
  have hhi : c.toNat ≤ '9'.toNat := h.2
  have h0 : '0'.toNat = 48 := rfl
  have h9 : '9'.toNat = 57 := rfl
  rw [digitValue?, if_pos ⟨hlo, hhi⟩, Option.filter_some, if_pos]
  rw [decide_eq_true_eq]
  omega

theorem digitsFrom?_of_isDigit (h : ∀ c ∈ s, c.isDigit = true) (start : Nat) :
    digitsFrom? 10 start s = some (Nat.ofDigitChars 10 s start) := by
  induction s generalizing start with
  | nil => rfl
  | cons c s ih =>
    obtain ⟨hc, hs⟩ := List.forall_mem_cons.1 h
    rw [digitsFrom?, digitValue?_of_isDigit hc, Nat.ofDigitChars_cons, Nat.mul_comm 10]
    exact ih hs _

/-- A digit is no base mark. -/
theorem base?_of_isDigit (h : c.isDigit = true) : base? c = none := by
  unfold base?
  split
  case h_7 => rfl
  -- the marks are letters
  all_goals cases h

/-! ### Reading a numeral -/

namespace IsNumeral

/-- Zeros in front make another numeral of the same number. -/
theorem zeros_append (h : IsNumeral n s) (k : Nat) : IsNumeral n (List.replicate k '0' ++ s) where
  ne_nil := List.append_ne_nil_of_right_ne_nil _ h.ne_nil
  isDigit := by
    refine List.forall_mem_append.2 ⟨fun c hc => ?_, h.isDigit⟩
    rw [List.eq_of_mem_replicate hc]
    rfl
  ofDigitChars := by
    rw [Nat.ofDigitChars_append, Nat.ofDigitChars_replicate_zero, Nat.mul_zero, h.ofDigitChars]

variable (h : IsNumeral n s)

include h

theorem digits?_eq : digits? 10 s = some n := by
  obtain ⟨c, t, rfl⟩ := List.exists_cons_of_ne_nil h.ne_nil
  rw [← h.ofDigitChars]
  exact digitsFrom?_of_isDigit h.isDigit 0

theorem marked?_eq : marked? s = none := by
  unfold marked?
  split
  · rename_i mark t
    rw [base?_of_isDigit (h.isDigit mark (by simp))]
    rfl
  · rfl

theorem sign_eq : sign s = (false, s) := by
  unfold sign
  split
  · exact absurd (h.isDigit '-' List.mem_cons_self) (by decide)
  · exact absurd (h.isDigit '+' List.mem_cons_self) (by decide)
  · rfl

theorem ne_infinity : s ≠ infinity := by
  rintro rfl
  exact absurd (h.isDigit 'I' (by decide)) (by decide)

/-- Nothing stands behind the digits. -/
theorem point_eq : point s = (s, [], []) := by
  have hdrop : s.dropWhile Char.isDigit = [] := List.dropWhile_eq_nil_iff.2 h.isDigit
  have htake : s.takeWhile Char.isDigit = s := List.takeWhile_eq_self_iff.2 h.isDigit
  rw [point, hdrop, htake]

theorem numeral?_eq : numeral? s = some (.ofRounded false (ofDecimal? n 0)) := by
  rw [numeral?, h.marked?_eq]
  simp only [decimal?, h.sign_eq, if_neg h.ne_infinity, h.point_eq, List.append_nil, h.digits?_eq,
    exponent?, Option.bind_eq_bind, Option.bind_some, Bool.false_eq_true, if_false]
  rfl

/-- The blanks around a numeral are not part of it. -/
theorem trim_eq (hfront : ∀ c ∈ front, Text.isBlank c = true)
    (hbehind : ∀ c ∈ behind, Text.isBlank c = true) : Text.trim (front ++ s ++ behind) = s := by
  have hsolid : ∀ c ∈ s, Text.isBlank c = false := fun c hc =>
    Reference.isBlank_of_isDigit (h.isDigit c hc)
  rw [Text.trim_append_of_blank hbehind, Text.trim_blank_append hfront]
  exact Text.trim_of_margins s (fun c hc => hsolid c (List.mem_of_head? hc))
    fun c hc => hsolid c (List.mem_of_getLast? hc)

/-- **A numeral is read as the number of the format nearest to its value.** -/
theorem read?_eq (hfront : ∀ c ∈ front, Text.isBlank c = true)
    (hbehind : ∀ c ∈ behind, Text.isBlank c = true) :
    read? (front ++ s ++ behind) = ofDecimal? n 0 := by
  obtain ⟨c, t, hs⟩ := List.exists_cons_of_ne_nil h.ne_nil
  rw [read?, measure?, h.trim_eq hfront hbehind]
  simp only [hs]
  rw [← hs, h.numeral?_eq, Option.bind_some]
  cases ofDecimal? n 0 <;> rfl

end IsNumeral

/-- Up to 53 bits nothing is rounded. -/
theorem ofDecimal?_of_lt (h : n < 2 ^ precision) : ofDecimal? n 0 = some (n : Rat) := by
  have hbits : (2 : Nat) ^ precision < 10 ^ 400 := by decide +kernel
  -- a numeral with more digits is taken to be outside the format unread
  have hcount : digitCount n ≤ 400 :=
    (digitCount_le_iff (by decide)).2 (Nat.lt_trans h hbits)
  have hread := ofDecimal?_natCast (c := n) (k := 0) hcount
  rw [Nat.pow_zero, Nat.mul_one] at hread
  exact hread.trans (readsAs_self_of_lt h)

end Number

namespace CommitRange

theorem IsCapped.describe_eq {r : CommitRange} {reference : Text} {limit : Rat}
    (h : r.IsCapped reference limit) : r.describe
      = "last ".toList ++ Number.render limit ++ " commits of ".toList ++ reference := by
  rcases h with rfl | rfl <;> rfl

end CommitRange

namespace CommandLine

open Number

/-- **A count that is typed reaches git unchanged**: with any zeros in front and any blanks
around it, the numeral of a positive number of up to 53 bits is accepted as that number, also
where it is kept as a number first, and what git and people are told is its plain numeral. -/
theorem limitOf_typedCount {n : Nat} (hn : 0 < n) (hlt : n < 2 ^ 53) (zeros : Nat)
    {front behind : Text} (hfront : ∀ c ∈ front, Text.isBlank c = true)
    (hbehind : ∀ c ∈ behind, Text.isBlank c = true) :
    let typed := front ++ (List.replicate zeros '0' ++ digitsOf n) ++ behind
    limitOf (some (.text typed)) = .ok n
      ∧ limitOf (some (Setting.ofText typed)) = .ok n
      ∧ ∀ range ref, CommitRange.IsCapped range ref n →
        range.logArguments = ["log".toList, ref, "-n".toList, digitsOf n, Commit.logFormat]
          ∧ range.describe = "last ".toList ++ digitsOf n ++ " commits of ".toList ++ ref := by
  intro typed
  have hnumeral : IsNumeral n (List.replicate zeros '0' ++ digitsOf n) :=
    (isNumeral_digitsOf_iff.2 rfl).zeros_append zeros
  have hread : read? typed = some (n : Rat) :=
    (hnumeral.read?_eq hfront hbehind).trans (ofDecimal?_of_lt hlt)
  have htext : limitOf (some (.text typed)) = .ok n :=
    limitOf_eq_ok_iff.2 ⟨hread, isCount_iff.2 ⟨n, hn, rfl⟩⟩
  refine ⟨htext, limitOf_ofText_iff.2 htext, fun range ref h => ?_⟩
  rw [h.logArguments_eq, h.describe_eq, render_of_lt hlt]
  exact ⟨rfl, rfl⟩

/-- The greatest count of 53 bits, with zeros in front and among blanks of several kinds. -/
theorem limitOf_typedCount_of_greatest :
    let typed := "\u00a0\t0009007199254740991\r\n\u3000".toList
    let range := CommitRange.cappedBranch "main".toList 9007199254740991
    limitOf (some (.text typed)) = .ok 9007199254740991
      ∧ limitOf (some (Setting.ofText typed)) = .ok 9007199254740991
      ∧ range.logArguments = ["log".toList, "main".toList, "-n".toList,
          "9007199254740991".toList, Commit.logFormat]
      ∧ range.describe = "last 9007199254740991 commits of main".toList := by
  intro typed range
  have hfront : ∀ c ∈ "\u00a0\t".toList, Text.isBlank c = true := List.all_eq_true.1 (by decide)
  have hbehind : ∀ c ∈ "\r\n\u3000".toList, Text.isBlank c = true :=
    List.all_eq_true.1 (by decide)
  obtain ⟨htext, hkept, hrange⟩ :=
    limitOf_typedCount (n := 9007199254740991) (by decide) (by decide) 3 hfront hbehind
  exact ⟨htext, hkept, hrange range "main".toList (.inr rfl)⟩

end CommandLine

end ReleaseNotes
