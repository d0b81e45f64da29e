/-
ReleaseNotes/Proofs/LimitArguments.lean

The limits that are accepted, and what git is told of them.

A limit is accepted when it is a positive whole number of the format, however great
it is, and git is given the number as it is written.  So there are three kinds of
limits:

* below 2^53 git gets the numeral of the limit;
* below 10^21 git gets a numeral, but one that may only read as the limit: of all
  numbers that do, it denotes a rounder one if there is any;
* from 10^21 on git gets a text with an exponent, which is no numeral.

Main result: for which limits git gets their numerals (`logArguments_of_limit`).
-/
import ReleaseNotes.CommitRange
import ReleaseNotes.Proofs.AskedRelease
import ReleaseNotes.Proofs.WrittenWhole

namespace ReleaseNotes

/-- A value that is a number is one of the format, as all numbers of the program
are. -/
def Setting.InFormat : Setting → Prop
  | number x => Number.nearest? x = some x
  | _ => True

namespace CommitRange

/-- A range that takes at most `limit` commits up to a reference. -/
def IsCapped (r : CommitRange) (reference : Text) (limit : Rat) : Prop :=
  r = capped reference limit ∨ r = cappedBranch reference limit

theorem IsCapped.logArguments_eq {r : CommitRange} {reference : Text} {limit : Rat}
    (h : r.IsCapped reference limit) : r.logArguments
      = ["log".toList, reference, "-n".toList, Number.render limit, Commit.logFormat] := by
  rcases h with rfl | rfl <;> rfl

end CommitRange

namespace CommandLine

open Number

variable {s : Setting} {x : Rat}

/-- A limit that is accepted is a positive whole number of the format. -/
theorem exists_readsAs_of_limitOf (hs : s.InFormat) (h : limitOf (some s) = .ok x) :
    ∃ n : Nat, 0 < n ∧ x = n ∧ ReadsAs n n := by
  obtain ⟨hd, hc⟩ := limitOf_eq_ok_iff.1 h
  obtain ⟨n, hn, rfl⟩ := isCount_iff.1 hc
  refine ⟨n, hn, rfl, ?_⟩
  cases s with
  | number y =>
    obtain rfl := Option.some.inj hd
    exact hs
  | text t => exact readsAs_self_of_read? hd
  | flag | list | table | operation | common => cases hd

/-- **What git is told of a limit that is accepted** consists of digits exactly
below 10^21, and it is the numeral of the limit exactly when, moreover, no rounder
number reads as the limit.  Below 2^53 it always is. -/
theorem logArguments_of_limit (hs : s.InFormat) (h : limitOf (some s) = .ok x) :
    ∃ n : Nat, 0 < n ∧ x = n ∧ ∃ count,
      (∀ range ref, CommitRange.IsCapped range ref x →
        range.logArguments = ["log".toList, ref, "-n".toList, count, Commit.logFormat])
      ∧ ((∀ c ∈ count, c.isDigit = true) ↔ n < 10 ^ 21)
      ∧ (IsNumeral n count ↔ n < 10 ^ 21 ∧ IsRoundest n)
      ∧ (n < 2 ^ 53 → IsNumeral n count)
      ∧ (n < 10 ^ 21 → ∃ m, IsNumeral m count ∧ ReadsAs m n) := by
  obtain ⟨n, hn, rfl, hr⟩ := exists_readsAs_of_limitOf hs h
  have hnum := isNumeral_render_iff hn hr
  refine ⟨n, hn, rfl, render n, fun range ref hcap => hcap.logArguments_eq,
    forall_isDigit_render_iff hn hr, hnum, fun hlt => ?_, fun hlt => ?_⟩
  · have hsmall : (2 : Nat) ^ 53 < 10 ^ 21 := by decide
    exact hnum.2 ⟨Nat.lt_trans hlt hsmall, isRoundest_of_lt hlt⟩
  · obtain ⟨m, hm, hread, -⟩ := exists_render_eq hn hr hlt
    rw [hm]
    exact ⟨m, isNumeral_digitsOf_iff.2 rfl, hread⟩

/-- An exponent in the limit does not get to git. -/
theorem logArguments_of_limit_of_exponent :
    limitOf (some (.text " 25e1 ".toList)) = .ok 250
      ∧ ∃ count, (CommitRange.capped "v1.0.0".toList 250).logArguments
          = ["log".toList, "v1.0.0".toList, "-n".toList, count, Commit.logFormat]
        ∧ IsNumeral 250 count := by
  have h : limitOf (some (.text " 25e1 ".toList)) = .ok 250 :=
    limitOf_eq_ok_iff.2 ⟨by decide +kernel, by decide⟩
  have hs : Setting.InFormat (.text " 25e1 ".toList) := trivial
  obtain ⟨n, -, hn, count, hargs, -, -, hnum, -⟩ := logArguments_of_limit hs h
  obtain rfl : 250 = n := by exact_mod_cast hn
  exact ⟨h, count, hargs _ _ (.inl rfl), hnum (by decide)⟩

/-- Git is told an exponent, or another number than the limit. -/
theorem logArguments_of_great_limits :
    (limitOf (some (.text "1e21".toList)) = .ok (10 ^ 21)
      ∧ (CommitRange.capped "v1.0.0".toList (10 ^ 21)).logArguments
        = ["log".toList, "v1.0.0".toList, "-n".toList, "1e+21".toList, Commit.logFormat]
      ∧ ¬ ∀ c ∈ "1e+21".toList, c.isDigit = true)
    ∧ limitOf (some (.text "18014398509481992".toList)) = .ok 18014398509481992
      ∧ (CommitRange.cappedBranch "main".toList 18014398509481992).logArguments
        = ["log".toList, "main".toList, "-n".toList, "18014398509481990".toList, Commit.logFormat]
      ∧ ¬ IsNumeral 18014398509481992 "18014398509481990".toList := by
  have h1 : limitOf (some (.text "1e21".toList)) = .ok (10 ^ 21) :=
    limitOf_eq_ok_iff.2 ⟨by decide +kernel, by decide +kernel⟩
  have h2 : limitOf (some (.text "18014398509481992".toList)) = .ok 18014398509481992 :=
    limitOf_eq_ok_iff.2 ⟨by decide +kernel, by decide +kernel⟩
  refine ⟨⟨h1, by decide +kernel, fun h => ?_⟩, h2, by decide +kernel, fun h => ?_⟩
  · exact absurd (h 'e' (by decide)) (by decide)
  · exact absurd h.ofDigitChars (by decide)

end CommandLine

end ReleaseNotes
