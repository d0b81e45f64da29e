/-
ReleaseNotes/Proofs/LinkedTitles.lean

No reference goes from a title without a link.

A title loses the references of its message, and the entry links to the pull request whose
number is read from the message.  Reading is freer than removing: wherever a token stands
that a title would lose, a reference starts, and blanks behind `#` make no difference.  So a
message in which no reference is read has no token either, none comes up when its tail is
cut off, and all three walks leave the text as it is:

    number? message = none → ofMessage message = capitalize (trim (a ++ c)),

where `a` is the text up to its last terminator, and `c` is what stands before the earliest
mark of merging behind it.  A token that only an earlier walk brings together does not
matter, for that walk has removed one which stood in the message.

Main results: where a token stands a reference is read (`number?_ne_none_of_isInfix`), and a
title keeps its references or the entry has a number (`keeps_or_links`).
-/
import ReleaseNotes.Proofs.FirstReference
import ReleaseNotes.Proofs.RepeatedTitles

namespace ReleaseNotes

namespace Reference

open Text (Lacks)

variable {s w : Text}

/-! ### Tokens and references -/

theorem starts_of_isHash (h : IsHash w) (t : Text) : Starts (w ++ t) := by
  obtain ⟨d, hd, rfl⟩ := h
  obtain ⟨x, d, rfl⟩ := List.exists_cons_of_ne_nil hd.1
  exact ⟨['#'], [], x, d ++ t, .inl rfl, nofun, hd.2 x List.mem_cons_self, rfl⟩

theorem starts_of_isWord (h : IsWord w) (t : Text) : Starts (w ++ t) := by
  obtain ⟨blanks, d, hb, hd, rfl⟩ := h
  obtain ⟨x, d, rfl⟩ := List.exists_cons_of_ne_nil hd.1
  refine ⟨['P', 'R'], blanks, x, d ++ t, .inr rfl, hb, hd.2 x List.mem_cons_self, ?_⟩
  exact List.append_assoc _ (x :: d) t

/-- A message has a number where a text stands with which a reference starts. -/
theorem number?_ne_none_of_isInfix (hw : ∀ t, Starts (w ++ t)) (h : w <:+: s) :
    number? s ≠ none := by
  obtain ⟨front, behind, rfl⟩ := h
  intro hnone
  have hn := number?_eq_none_iff.1 hnone front.length
  rw [List.append_assoc, List.drop_left] at hn
  exact hn (hw behind)

theorem lacks_isHash_of_number? (h : number? s = none) : Lacks IsHash s :=
  fun _ hw hi => number?_ne_none_of_isInfix (starts_of_isHash hw) hi h

theorem lacks_isWord_of_number? (h : number? s = none) : Lacks IsWord s :=
  fun _ hw hi => number?_ne_none_of_isInfix (starts_of_isWord hw) hi h

end Reference

namespace Title

open Text (SplitsLine StandsBefore)

variable {message : Text}

/-! ### Messages without a number -/

/-- One of the walks over a message finds something to remove. -/
inductive LosesReference (message : Text) : Prop
  | bracket : Text.erase Reference.bracketToken message ≠ message → LosesReference message
  | hash : withoutHashes message ≠ Text.erase Reference.bracketToken message →
    LosesReference message
  | word : substance message ≠ withoutMergeTail (withoutHashes message) →
    LosesReference message

theorem substance_of_number? (h : Reference.number? message = none) :
    substance message = withoutMergeTail message := by
  have hwords := (Reference.lacks_isWord_of_number? h).of_isInfix
    (withoutMergeTail_isPrefix message).isInfix
  rw [substance, withoutHashes_of_lacks (Reference.lacks_isHash_of_number? h),
    Text.erase_of_lacks Reference.measures_wordToken hwords]

/-- What the walks remove is a reference that gives a number, or follows one that does. -/
theorem not_losesReference (h : Reference.number? message = none) :
    ¬ LosesReference message := by
  have hlacks := Reference.lacks_isHash_of_number? h
  have hbrackets :=
    Text.erase_of_lacks Reference.measures_bracketToken (lacks_isBracket hlacks)
  have hhashes := withoutHashes_of_lacks hlacks
  rintro (hb | hh | hw)
  · exact hb hbrackets
  · exact hh (hhashes.trans hbrackets.symm)
  · rw [hhashes] at hw
    exact hw (substance_of_number? h)

/-- **No reference goes without a link**: a message without a number loses no reference, its
title is what stands before the earliest mark of merging in its last line, and an entry whose
title has lost a reference has a number. -/
theorem keeps_or_links (message : Text) :
    (Reference.number? message = none →
        ¬ LosesReference message
          ∧ ∃ a b c, SplitsLine message a b ∧ StandsBefore marks b c
            ∧ ofMessage message = Text.capitalize (Text.trim (a ++ c)))
      ∧ (LosesReference message → ∀ hash author e,
        Entry.ofCommit? ⟨hash, message, author⟩ = some e → ∃ n, e.number = some n) := by
  constructor
  · intro h
    obtain ⟨a, b, c, hsplit, hc, heq⟩ := exists_withoutMergeTail_eq message
    refine ⟨not_losesReference h, a, b, c, hsplit, hc, ?_⟩
    rw [ofMessage, substance_of_number? h, heq]
  · intro h hash author e he
    obtain ⟨-, rfl⟩ := Entry.ofCommit?_eq_some_iff.1 he
    exact Option.ne_none_iff_exists'.1 fun hnone => not_losesReference hnone h

/-- A message with near misses, and one in which a reference by `PR` comes up only when the
one inside it is gone. -/
theorem keeps_or_links_of_joined :
    let plain := "# x pR 5\nP R 7 from PR".toList
    let joined := "go P(#1)R 5".toList
    Reference.number? plain = none ∧ ¬ LosesReference plain
      ∧ ofMessage plain = "# x pR 5\nP R 7".toList
      ∧ LosesReference joined ∧ Entry.ofCommit? ⟨[], joined, []⟩ ≠ none
      ∧ ∀ e, Entry.ofCommit? ⟨[], joined, []⟩ = some e → ∃ n, e.number = some n := by
  intro plain joined
  have hplain : Reference.number? plain = none := by decide
  have hjoined : LosesReference joined := .word (by decide)
  have hline : SplitsLine plain "# x pR 5\n".toList "P R 7 from PR".toList :=
    ⟨rfl, .inr ⟨'\n', rfl, rfl⟩, Text.any_isTerminator_eq_false_iff.1 (by decide)⟩
  have hmark : StandsBefore marks "P R 7 from PR".toList "P R 7 ".toList :=
    ⟨by decide, .inr ⟨branchWord, by decide, by decide⟩, by decide⟩
  obtain ⟨hkeeps, a, b, c, hsplit, hc, htitle⟩ := (keeps_or_links plain).1 hplain
  obtain rfl := hline.front_eq.symm.trans hsplit.front_eq
  obtain rfl := hline.lastLine_eq.symm.trans hsplit.lastLine_eq
  obtain rfl := hmark.unique hc
  refine ⟨hplain, hkeeps, htitle.trans (by decide), hjoined, by decide, fun e => ?_⟩
  exact (keeps_or_links joined).2 hjoined [] [] e

end Title

end ReleaseNotes
