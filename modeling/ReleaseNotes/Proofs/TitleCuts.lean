/-
ReleaseNotes/Proofs/TitleCuts.lean

What merging leaves of a title: one cut at the earliest of its marks.

A title loses the tail of its last line twice, from `Merge pull request` on and then
from `from` on.  The second cut works on what the first one left, where a `from` in
front of the phrase is still whole: none of its letters is an `M`, so it cannot reach
into the phrase.  The same holds the other way round, for there is no `f` in the phrase.
So in either order the two cuts are one,

    cut branchWord (cut mergePhrase s) = a ++ c = cut mergePhrase (cut branchWord s),

where `a` is the text up to its last terminator, and `c` is what stands before the
earliest mark of either kind in the line behind `a`.

Main results: two cuts are one (`standsBefore_before`, `cut_cut`), and a title is made of
what stands before the earliest mark (`ofMessage_of_isSubstance`).
-/
import Mathlib.Data.List.Infix
import ReleaseNotes.Entry
import ReleaseNotes.Proofs.Capitals
import ReleaseNotes.Proofs.PrintedLog
import ReleaseNotes.Proofs.RemovedTokens

namespace ReleaseNotes

namespace Text

variable {s a b c c' v w : Text} {marks : List Text} {x y : Char}

/-! ### The last line -/

theorem any_isTerminator_eq_false_iff :
    s.any isTerminator = false ↔ ∀ x ∈ s, isTerminator x = false := by
  simp only [List.any_eq_false, Bool.not_eq_true]

/-- `b` is the last line of `s`, and `a` is what stands in front of it. -/
structure SplitsLine (s a b : Text) : Prop where
  append : a ++ b = s
  ends : a = [] ∨ ∃ x, a.getLast? = some x ∧ isTerminator x = true
  line : ∀ x ∈ b, isTerminator x = false

theorem splitsLine_front (s : Text) : SplitsLine s (front s) (lastLine s) where
  append := front_append_lastLine s
  ends := by
    have hlast := List.head?_dropWhile_not (!isTerminator ·) s.reverse
    rw [← List.getLast?_reverse] at hlast
    rw [front]
    cases e : (s.reverse.dropWhile (!isTerminator ·)).reverse.getLast? with
    | none => exact .inl (List.getLast?_eq_none_iff.1 e)
    | some x =>
      rw [e] at hlast
      exact .inr ⟨x, rfl, by simpa using hlast⟩
  line := fun _ => isTerminator_of_mem_lastLine

theorem SplitsLine.lastLine_eq (h : SplitsLine s a b) : lastLine s = b := by
  have hline : ∀ x ∈ b.reverse, (!isTerminator x) = true := by
    intro x hx
    rw [h.line x (List.mem_reverse.1 hx)]
    rfl
  rw [lastLine, ← h.append, List.reverse_append, List.takeWhile_append_of_pos hline]
  rcases h.ends with rfl | ⟨x, hx, ht⟩
  · simp
  · -- the first character in front of the line, read from behind, is a terminator
    obtain ⟨front, rfl⟩ := List.getLast?_eq_some_iff.1 hx
    simp [ht]

theorem SplitsLine.front_eq (h : SplitsLine s a b) : front s = a := by
  have happend := front_append_lastLine s
  rw [h.lastLine_eq] at happend
  exact List.append_cancel_right (happend.trans h.append.symm)

/-- What is left of the last line of a text is the last line of what is left. -/
theorem SplitsLine.of_isPrefix (h : SplitsLine s a b) (hc : c <+: b) :
    SplitsLine (a ++ c) a c :=
  ⟨rfl, h.ends, fun x hx => h.line x (hc.subset hx)⟩

/-! ### The earliest mark -/

/-- `c` is what stands in `b` before the earliest place at which one of `marks` begins,
and all of `b` when there is none. -/
structure StandsBefore (marks : List Text) (b c : Text) : Prop where
  isPrefix : c <+: b
  stops : c = b ∨ ∃ mark ∈ marks, mark <+: b.drop c.length
  first : ∀ i < c.length, ∀ mark ∈ marks, ¬ mark <+: b.drop i

theorem StandsBefore.length_le (h : StandsBefore marks b c) (h' : StandsBefore marks b c') :
    c.length ≤ c'.length := by
  rcases h'.stops with rfl | ⟨mark, hm, hp⟩
  · exact h.isPrefix.length_le
  · by_contra hlt
    exact h.first _ (Nat.lt_of_not_le hlt) mark hm hp

theorem StandsBefore.unique (h : StandsBefore marks b c) (h' : StandsBefore marks b c') :
    c = c' := by
  have hlen : c.length = c'.length := Nat.le_antisymm (h.length_le h') (h'.length_le h)
  rw [List.prefix_iff_eq_take.1 h.isPrefix, List.prefix_iff_eq_take.1 h'.isPrefix, hlen]

/-- Only which marks there are counts. -/
theorem StandsBefore.of_subset {marks' : List Text} (h : StandsBefore marks b c)
    (hm : ∀ mark, mark ∈ marks ↔ mark ∈ marks') : StandsBefore marks' b c where
  isPrefix := h.isPrefix
  stops := h.stops.imp_right fun ⟨mark, hmark, hp⟩ => ⟨mark, (hm mark).1 hmark, hp⟩
  first i hi mark hmark := h.first i hi mark ((hm mark).2 hmark)

theorem standsBefore_nil (marks : List Text) : StandsBefore marks [] [] :=
  ⟨List.nil_prefix, .inl rfl, fun _ hi => absurd hi (Nat.not_lt_zero _)⟩

theorem standsBefore_of_isPrefix (hw : w ∈ marks) (h : w <+: b) : StandsBefore marks b [] :=
  ⟨List.nil_prefix, .inr ⟨w, hw, h⟩, fun _ hi => absurd hi (Nat.not_lt_zero _)⟩

theorem StandsBefore.cons (h : StandsBefore marks b c) (hn : ∀ mark ∈ marks, ¬ mark <+: x :: b) :
    StandsBefore marks (x :: b) (x :: c) where
  isPrefix := List.cons_prefix_cons.2 ⟨rfl, h.isPrefix⟩
  stops := h.stops.imp_left (congrArg (x :: ·))
  first := by
    intro i hi mark hm
    cases i with
    | zero => exact hn mark hm
    | succ i => exact h.first i (Nat.lt_of_succ_lt_succ hi) mark hm

/-! ### Two words that do not overlap -/

/-- A word without the first letter of another one is whole before the other one. -/
theorem isPrefix_before (hv : v.head? = some x) (hx : x ∉ w) (h : w <+: s) :
    w <+: before v s := by
  obtain ⟨v, rfl⟩ := List.head?_eq_some_iff.1 hv
  induction w generalizing s with
  | nil => exact List.nil_prefix
  | cons y w ih =>
    obtain ⟨hne, hw⟩ := List.ne_and_not_mem_of_not_mem_cons hx
    obtain ⟨t, rfl⟩ := h
    rw [List.cons_append, before, if_neg]
    · exact List.cons_prefix_cons.2 ⟨rfl, ih hw (List.prefix_append w t)⟩
    · intro hp
      exact hne (List.cons_prefix_cons.1 (List.isPrefixOf_iff_prefix.1 hp)).1

/-- **Two cuts are one**: what stands before a word in what stands before another one
stands before the earlier of the two. -/
theorem standsBefore_before (hv : v.head? = some x) (hx : x ∉ w) (b : Text) :
    StandsBefore [v, w] b (before w (before v b)) := by
  induction b with
  | nil => exact standsBefore_nil _
  | cons y b ih =>
    by_cases hfirst : v <+: y :: b
    · rw [before, if_pos (List.isPrefixOf_iff_prefix.2 hfirst)]
      exact standsBefore_of_isPrefix List.mem_cons_self hfirst
    · have hbefore : before v (y :: b) = y :: before v b := by
        rw [before, if_neg (mt List.isPrefixOf_iff_prefix.1 hfirst)]
      by_cases hsecond : w <+: y :: b
      · -- the second word begins here, and the first cut did not touch it
        have hwhole := isPrefix_before hv hx hsecond
        rw [hbefore] at hwhole ⊢
        rw [before, if_pos (List.isPrefixOf_iff_prefix.2 hwhole)]
        exact standsBefore_of_isPrefix (List.mem_cons_of_mem _ List.mem_cons_self) hsecond
      · have hnone : ¬ w <+: y :: before v b := by
          intro hp
          apply hsecond
          exact hp.trans (List.cons_prefix_cons.2 ⟨rfl, before_isPrefix v b⟩)
        rw [hbefore, before, if_neg (mt List.isPrefixOf_iff_prefix.1 hnone)]
        apply ih.cons
        intro mark hm
        rcases List.mem_pair.1 hm with rfl | rfl
        · exact hfirst
        · exact hsecond

end Text

namespace Title

open Text (SplitsLine StandsBefore Removed)

variable {s a b c v w message rest : Text} {x : Char}

/-! ### The two cuts of a title -/

theorem cut_of_splitsLine (h : SplitsLine s a b) (word : Text) :
    cut word s = a ++ Text.before word b := by
  rw [cut, h.front_eq, h.lastLine_eq]

/-- Both cuts leave the lines before the last, and of the last line what stands before
the earlier of the two words. -/
theorem cut_cut (h : SplitsLine s a b) (hv : v.head? = some x) (hx : x ∉ w)
    (hc : StandsBefore [v, w] b c) : cut w (cut v s) = a ++ c := by
  have hfirst := h.of_isPrefix (Text.before_isPrefix v b)
  rw [cut_of_splitsLine h, cut_of_splitsLine hfirst, hc.unique (Text.standsBefore_before hv hx b)]

/-- No letter of `from` is an `M`. -/
theorem not_mem_branchWord : 'M' ∉ branchWord := by
  decide

/-- There is no `f` in `Merge pull request`. -/
theorem not_mem_mergePhrase : 'f' ∉ mergePhrase := by
  decide

/-- The marks that merging leaves. -/
def marks : List Text := [mergePhrase, branchWord]

theorem cut_branchWord_cut_mergePhrase (h : SplitsLine s a b) (hc : StandsBefore marks b c) :
    cut branchWord (cut mergePhrase s) = a ++ c :=
  cut_cut h rfl not_mem_branchWord hc

theorem cut_mergePhrase_cut_branchWord (h : SplitsLine s a b) (hc : StandsBefore marks b c) :
    cut mergePhrase (cut branchWord s) = a ++ c := by
  have hswap : ∀ mark, mark ∈ marks ↔ mark ∈ [branchWord, mergePhrase] := by
    intro mark
    rw [marks, List.mem_pair, List.mem_pair]
    exact Or.comm
  exact cut_cut h rfl not_mem_mergePhrase (hc.of_subset hswap)

/-- Without the tail that merging leaves a text ends at the earliest mark in its last line. -/
theorem exists_withoutMergeTail_eq (s : Text) :
    ∃ a b c, SplitsLine s a b ∧ StandsBefore marks b c ∧ withoutMergeTail s = a ++ c := by
  have hsplit := Text.splitsLine_front s
  have hc : StandsBefore marks (Text.lastLine s) _ :=
    Text.standsBefore_before rfl not_mem_branchWord _
  exact ⟨_, _, _, hsplit, hc, cut_branchWord_cut_mergePhrase hsplit hc⟩

/-! ### What a title is made of -/

/-- How a message becomes what its title is made of: `s` is the message without its
hash references, `b` the last line of `s` behind `a`, `c` is what stands in `b` before the
earliest mark of merging, and `rest` is what is left of `a` and `c` without references by
`PR`. -/
structure IsSubstance (message s a b c rest : Text) : Prop where
  hashes : ∃ t, Removed Reference.IsBracket message t ∧ Removed Reference.IsHash t s
  splitsLine : SplitsLine s a b
  standsBefore : StandsBefore marks b c
  words : Removed Reference.IsWord (a ++ c) rest

theorem isSubstance_substance (message : Text) :
    ∃ s a b c, IsSubstance message s a b c (substance message) := by
  obtain ⟨a, b, c, hsplit, hc, heq⟩ := exists_withoutMergeTail_eq (withoutHashes message)
  refine ⟨_, a, b, c, ⟨_, Text.removed_erase Reference.measures_bracketToken message,
    Text.removed_erase Reference.measures_hashToken _⟩, hsplit, hc, ?_⟩
  rw [substance, heq]
  exact Text.removed_erase Reference.measures_wordToken _

theorem IsSubstance.withoutHashes_eq (h : IsSubstance message s a b c rest) :
    withoutHashes message = s := by
  obtain ⟨t, hbrackets, hhashes⟩ := h.hashes
  rw [withoutHashes, hbrackets.erase_eq Reference.measures_bracketToken,
    hhashes.erase_eq Reference.measures_hashToken]

theorem IsSubstance.substance_eq (h : IsSubstance message s a b c rest) :
    substance message = rest := by
  rw [substance, h.withoutHashes_eq, withoutMergeTail,
    cut_branchWord_cut_mergePhrase h.splitsLine h.standsBefore,
    h.words.erase_eq Reference.measures_wordToken]

theorem ofMessage_eq_nil_iff :
    ofMessage message = [] ↔ ∀ x ∈ substance message, Text.isBlank x = true := by
  rw [ofMessage, Text.capitalize_eq_nil_iff, Text.trim_eq_nil_iff]

/-- **A title is made of what stands before the earliest mark of merging**: a message
loses its hash references, the last line of what is left is cut once, at the earliest mark
of either kind, so that the order of two cuts does not matter, and then the references by
`PR` go.  What is left is trimmed and gets a capital first.  There is no entry exactly when
it is blank. -/
theorem ofMessage_of_isSubstance (message : Text) :
    (∃ s a b c rest, IsSubstance message s a b c rest)
      ∧ ∀ s a b c rest, IsSubstance message s a b c rest →
        ofMessage message = Text.capitalize (Text.trim rest)
          ∧ cut branchWord (cut mergePhrase s) = a ++ c
          ∧ cut mergePhrase (cut branchWord s) = a ++ c
          ∧ ∀ hash author, Entry.ofCommit? ⟨hash, message, author⟩ = none
            ↔ ∀ x ∈ rest, Text.isBlank x = true := by
  constructor
  · obtain ⟨s, a, b, c, h⟩ := isSubstance_substance message
    exact ⟨s, a, b, c, _, h⟩
  · intro s a b c rest h
    refine ⟨?_, ?_, ?_, fun hash author => ?_⟩
    · rw [ofMessage, h.substance_eq]
    · exact cut_branchWord_cut_mergePhrase h.splitsLine h.standsBefore
    · exact cut_mergePhrase_cut_branchWord h.splitsLine h.standsBefore
    · rw [← h.substance_eq, ← ofMessage_eq_nil_iff, Entry.ofCommit?]
      simp

/-- A message of two lines with a mark in each, and both kinds of marks in the last. -/
theorem ofMessage_of_two_lines :
    let message := "a from b\r(#1)go PR 2 Merge pull request #3 from c".toList
    IsSubstance message "a from b\rgo PR 2 Merge pull request  from c".toList
        "a from b\r".toList "go PR 2 Merge pull request  from c".toList "go PR 2 ".toList
        "a from b\rgo  ".toList
      ∧ ofMessage message = "A from b\rgo".toList := by
  intro message
  have h : IsSubstance message "a from b\rgo PR 2 Merge pull request  from c".toList
      "a from b\r".toList "go PR 2 Merge pull request  from c".toList "go PR 2 ".toList
      "a from b\rgo  ".toList := by
    refine ⟨⟨"a from b\rgo PR 2 Merge pull request #3 from c".toList, ?_, ?_⟩, ?_, ?_, ?_⟩
    · exact (Text.removed_iff Reference.measures_bracketToken).2 (by decide)
    · exact (Text.removed_iff Reference.measures_hashToken).2 (by decide)
    · exact ⟨rfl, .inr ⟨'\r', rfl, rfl⟩, Text.any_isTerminator_eq_false_iff.1 (by decide)⟩
    · exact ⟨by decide, .inr ⟨mergePhrase, List.mem_cons_self, by decide⟩, by decide⟩
    · exact (Text.removed_iff Reference.measures_wordToken).2 (by decide)
  refine ⟨h, ?_⟩
  rw [((ofMessage_of_isSubstance message).2 _ _ _ _ _ h).1]
  decide

end Title

end ReleaseNotes
