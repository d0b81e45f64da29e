/-
ReleaseNotes/Proofs/RepeatedTitles.lean

Titles of titles.

A message in which no reference and no mark of merging stands keeps all of its text: its
title is the trimmed message with a capital first.  The title of that title can be
another one, for the capital may complete a mark which the message did not have.  It is
then the first letter of the mark that is new, so the mark begins the title: it is a
reference `PR 5`, spelled `pR 5` in the message, or the phrase `Merge pull request`,
which cuts the title only when all of it is one line.  Otherwise

    ofMessage (ofMessage message) = ofMessage message.

Main results: where a mark comes from that only the title has (`isPrefix_capitalize`),
and when a title is its own title (`ofMessage_ofMessage_iff`).
-/
import ReleaseNotes.Proofs.TitleCuts

namespace ReleaseNotes

namespace Text

variable {s t w : Text} {c x : Char}

/-! ### Words that do not stand in a text -/

theorem before_of_not_isInfix (h : ¬ w <:+: s) : before w s = s := by
  induction s with
  | nil => rfl
  | cons c s ih =>
    have hs : ¬ w <:+: s := fun hi => h (hi.trans (List.suffix_cons c s).isInfix)
    rw [before, if_neg, ih hs]
    exact fun hp => h (List.isPrefixOf_iff_prefix.1 hp).isInfix

theorem before_of_isPrefix (h : w <+: s) : before w s = [] := by
  cases s with
  | nil => rfl
  | cons c s => rw [before, if_pos (List.isPrefixOf_iff_prefix.2 h)]

theorem lastLine_isSuffix (s : Text) : lastLine s <:+ s :=
  ⟨front s, front_append_lastLine s⟩

/-! ### Words that a capital completes -/

theorem upper_p : upper 'p' = ['P'] := by
  decide

theorem upper_m : upper 'm' = ['M'] := by
  decide

/-- A character whose upper case has an initial has nothing else in it. -/
theorem upper_eq_of_initial_mem (h : x ∈ upper c) (hx : x ∈ initials) : upper c = [x] := by
  rcases eq_of_initial_mem_upper h hx with rfl | ⟨rfl, rfl⟩ | ⟨rfl, rfl⟩
  · exact upper_of_mem_upper h
  · exact upper_p
  · exact upper_m

/-- A text that gets an initial as its capital keeps its length. -/
theorem length_capitalize (h : (capitalize s).head? = some x) (hx : x ∈ initials) :
    (capitalize s).length = s.length := by
  cases s with
  | nil => rfl
  | cons c s =>
    rw [capitalize_cons] at h ⊢
    rw [List.head?_append_of_ne_nil _ (upper_ne_nil c)] at h
    rw [upper_eq_of_initial_mem (List.mem_of_mem_head? h) hx]
    rfl

/-- What stands in a text with a capital first, but not in the text, begins with a
character of the capital. -/
theorem mem_upper_of_isInfix (hw : w.head? = some x) (h : w <:+: upper c ++ s)
    (hn : ¬ w <:+: s) : x ∈ upper c := by
  obtain ⟨w, rfl⟩ := List.head?_eq_some_iff.1 hw
  rcases List.infix_append_iff.1 h with h | h | ⟨front, behind, happend, hfront, hbehind⟩
  · exact h.subset List.mem_cons_self
  · exact absurd h hn
  · cases front with
    | nil =>
      rw [List.nil_append] at happend
      exact absurd (happend ▸ hbehind.isInfix) hn
    | cons y front =>
      rw [List.cons_append] at happend
      rw [(List.cons.inj happend).1]
      exact hfront.subset List.mem_cons_self

/-- **A mark that a capital completes** begins the text, which has `p` or `m` first. -/
theorem isPrefix_capitalize (hw : w.head? = some x) (hx : x ∈ initials)
    (h : w <:+: capitalize s) (hn : ¬ w <:+: s) : w <+: capitalize s
      ∧ ∃ t, (x = 'P' ∧ s = 'p' :: t) ∨ (x = 'M' ∧ s = 'm' :: t) := by
  cases s with
  | nil => exact absurd h hn
  | cons c s =>
    have hs : ¬ w <:+: s := fun hi => hn (hi.trans (List.suffix_cons c s).isInfix)
    have hmem := mem_upper_of_isInfix hw h hs
    have hupper := upper_eq_of_initial_mem hmem hx
    rw [capitalize_cons, hupper] at h ⊢
    refine ⟨(List.infix_cons_iff.1 h).resolve_right hs, s, ?_⟩
    rcases eq_of_initial_mem_upper hmem hx with rfl | ⟨rfl, rfl⟩ | ⟨rfl, rfl⟩
    · exact absurd h hn
    · exact .inl ⟨rfl, rfl⟩
    · exact .inr ⟨rfl, rfl⟩

/-- Words that begin with another initial are not completed. -/
theorem not_isInfix_capitalize (hw : w.head? = some x) (hx : x = '#' ∨ x = 'f')
    (hn : ¬ w <:+: s) : ¬ w <:+: capitalize s := by
  intro h
  have hinitial : x ∈ initials := by
    rcases hx with rfl | rfl <;> decide
  obtain ⟨-, t, ⟨rfl, -⟩ | ⟨rfl, -⟩⟩ := isPrefix_capitalize hw hinitial h hn
  · exact absurd hx (by decide)
  · exact absurd hx (by decide)

end Text

namespace Title

open Text (Lacks SplitsLine)

variable {s t w message : Text}

/-! ### Messages without references and without marks of merging -/

/-- No reference and no mark of merging stands in the text. -/
structure IsUnmarked (s : Text) : Prop where
  hash : Lacks Reference.IsHash s
  word : Lacks Reference.IsWord s
  merge : ¬ mergePhrase <:+: s
  branch : ¬ branchWord <:+: s

theorem IsUnmarked.of_isInfix (h : IsUnmarked s) (ht : t <:+: s) : IsUnmarked t where
  hash := h.hash.of_isInfix ht
  word := h.word.of_isInfix ht
  merge hi := h.merge (hi.trans ht)
  branch hi := h.branch (hi.trans ht)

theorem lacks_isBracket (h : Lacks Reference.IsHash s) : Lacks Reference.IsBracket s := by
  rintro w ⟨d, hd, rfl⟩ hw
  have hhash : '#' :: d <:+: '(' :: '#' :: d ++ [')'] := ⟨['('], [')'], rfl⟩
  exact h _ ⟨d, hd, rfl⟩ (hhash.trans hw)

theorem withoutHashes_of_lacks (h : Lacks Reference.IsHash s) : withoutHashes s = s := by
  rw [withoutHashes, Text.erase_of_lacks Reference.measures_bracketToken (lacks_isBracket h),
    Text.erase_of_lacks Reference.measures_hashToken h]

theorem cut_of_not_isInfix (h : ¬ w <:+: Text.lastLine s) : cut w s = s := by
  rw [cut, Text.before_of_not_isInfix h, Text.front_append_lastLine]

/-- Marks of merging matter in the last line only. -/
theorem substance_eq_erase (hhash : Lacks Reference.IsHash s)
    (hmerge : ¬ mergePhrase <:+: Text.lastLine s) (hbranch : ¬ branchWord <:+: Text.lastLine s) :
    substance s = Text.erase Reference.wordToken s := by
  rw [substance, withoutHashes_of_lacks hhash, withoutMergeTail, cut_of_not_isInfix hmerge,
    cut_of_not_isInfix hbranch]

theorem substance_of_lacks (hhash : Lacks Reference.IsHash s) (hword : Lacks Reference.IsWord s)
    (hmerge : ¬ mergePhrase <:+: Text.lastLine s) (hbranch : ¬ branchWord <:+: Text.lastLine s) :
    substance s = s := by
  rw [substance_eq_erase hhash hmerge hbranch,
    Text.erase_of_lacks Reference.measures_wordToken hword]

theorem IsUnmarked.ofMessage_eq (h : IsUnmarked s) :
    ofMessage s = Text.capitalize (Text.trim s) := by
  have hlast := (Text.lastLine_isSuffix s).isInfix
  rw [ofMessage, substance_of_lacks h.hash h.word (fun hi => h.merge (hi.trans hlast))
    fun hi => h.branch (hi.trans hlast)]

/-! ### Marks that a capital completes -/

/-- With a capital first the text begins with a mark: with a reference, or as one line
with the phrase of merging. -/
inductive HidesMark (s : Text) : Prop
  | word {blanks d : Text} : (∀ c ∈ blanks, Text.isBlank c = true) → Reference.IsNumber d →
    "pR".toList ++ blanks ++ d <+: s → HidesMark s
  | merge : "merge pull request".toList <+: s → (∀ c ∈ s, Text.isTerminator c = false) →
    HidesMark s

theorem lacks_isHash_capitalize (h : Lacks Reference.IsHash s) :
    Lacks Reference.IsHash (Text.capitalize s) := by
  rintro w ⟨d, hd, rfl⟩
  exact Text.not_isInfix_capitalize rfl (.inl rfl) (h _ ⟨d, hd, rfl⟩)

theorem not_branchWord_capitalize (h : IsUnmarked s) : ¬ branchWord <:+: Text.capitalize s :=
  Text.not_isInfix_capitalize rfl (.inr rfl) h.branch

/-- A reference that a capital completes begins the text. -/
theorem hidesMark_of_isWord (h : IsUnmarked s) (hw : Reference.IsWord w)
    (hi : w <:+: Text.capitalize s) : HidesMark s := by
  have hn := h.word w hw
  obtain ⟨blanks, d, hb, hd, rfl⟩ := hw
  obtain ⟨hp, t, ⟨-, rfl⟩ | ⟨hx, -⟩⟩ := Text.isPrefix_capitalize rfl (by decide) hi hn
  · rw [Text.capitalize_cons, Text.upper_p] at hp
    exact .word hb hd (List.cons_prefix_cons.2 ⟨rfl, (List.cons_prefix_cons.1 hp).2⟩)
  · exact absurd hx (by decide)

/-- The phrase of merging that a capital completes begins the text, and when it stands in
the last line there is no other line. -/
theorem hidesMark_of_mergePhrase (h : IsUnmarked s)
    (hi : mergePhrase <:+: Text.lastLine (Text.capitalize s)) : HidesMark s := by
  have hall := hi.trans (Text.lastLine_isSuffix _).isInfix
  obtain ⟨hp, t, ⟨hx, -⟩ | ⟨-, rfl⟩⟩ :=
    Text.isPrefix_capitalize (x := 'M') rfl (by decide) hall h.merge
  · exact absurd hx (by decide)
  · have hlast := Text.lastLine_isSuffix (Text.capitalize ('m' :: t))
    rw [Text.capitalize_cons, Text.upper_m] at hp hi hlast
    refine .merge (List.cons_prefix_cons.2 ⟨rfl, (List.cons_prefix_cons.1 hp).2⟩) ?_
    rcases List.suffix_cons_iff.1 hlast with hone | hrest
    · intro c hc
      rcases List.mem_cons.1 hc with rfl | hc
      · rfl
      · apply Text.isTerminator_of_mem_lastLine
        rw [hone]
        exact List.mem_cons_of_mem 'M' hc
    · -- in a later line the phrase would stand in the text already
      have ht := (hi.trans hrest.isInfix).trans (List.suffix_cons 'm' t).isInfix
      exact absurd ht h.merge

theorem substance_capitalize (h : IsUnmarked s) (hn : ¬ HidesMark s) :
    substance (Text.capitalize s) = Text.capitalize s := by
  have hlast := (Text.lastLine_isSuffix (Text.capitalize s)).isInfix
  apply substance_of_lacks (lacks_isHash_capitalize h.hash)
  · exact fun w hw hi => hn (hidesMark_of_isWord h hw hi)
  · exact fun hi => hn (hidesMark_of_mergePhrase h hi)
  · exact fun hi => not_branchWord_capitalize h (hi.trans hlast)

/-! ### The title of a text that hides a mark -/

/-- A reference that begins a text goes from its title, and no capital makes up for it. -/
theorem ofMessage_ne_of_wordToken (hs : substance s = Text.erase Reference.wordToken s)
    (h0 : Reference.wordToken s ≠ 0) (hhead : s.head? = some 'P') : ofMessage s ≠ s := by
  intro heq
  rw [ofMessage, hs] at heq
  have hcapital : (Text.capitalize (Text.trim (Text.erase Reference.wordToken s))).head?
      = some 'P' := by
    rw [heq, hhead]
  -- a capital `P` is one character for one, so the title is as short as what is left
  have hlen := Text.length_capitalize hcapital (by decide)
  have htrim := (Text.trim_isInfix (Text.erase Reference.wordToken s)).length_le
  have hless := Text.length_erase_lt Reference.measures_wordToken h0
  rw [heq] at hlen
  omega

theorem ofMessage_capitalize_ne_of_word (h : IsUnmarked s) {blanks d : Text}
    (hb : ∀ c ∈ blanks, Text.isBlank c = true) (hd : Reference.IsNumber d)
    (hp : "pR".toList ++ blanks ++ d <+: s) :
    ofMessage (Text.capitalize s) ≠ Text.capitalize s := by
  have hlast := (Text.lastLine_isSuffix (Text.capitalize s)).isInfix
  have hmerge : ¬ mergePhrase <:+: Text.capitalize s := by
    intro hi
    obtain ⟨-, t, ⟨hx, -⟩ | ⟨-, rfl⟩⟩ :=
      Text.isPrefix_capitalize (x := 'M') rfl (by decide) hi h.merge
    · exact absurd hx (by decide)
    · exact absurd (List.cons_prefix_cons.1 hp).1 (by decide)
  have hsubstance := substance_eq_erase (lacks_isHash_capitalize h.hash)
    (fun hi => hmerge (hi.trans hlast)) fun hi => not_branchWord_capitalize h (hi.trans hlast)
  obtain ⟨t, rfl⟩ := hp
  have hcapital : Text.capitalize ("pR".toList ++ blanks ++ d ++ t)
      = 'P' :: 'R' :: blanks ++ d ++ t := congrArg (· ++ ('R' :: blanks ++ d ++ t)) Text.upper_p
  rw [hcapital] at hsubstance ⊢
  apply ofMessage_ne_of_wordToken hsubstance
  · rw [Reference.wordToken_append hb hd]
    exact Nat.succ_ne_zero _
  · rfl

/-- All of a title that is one line goes when it begins with the phrase of merging. -/
theorem ofMessage_capitalize_ne_of_merge (h : IsUnmarked s)
    (hp : "merge pull request".toList <+: s) (hline : ∀ c ∈ s, Text.isTerminator c = false) :
    ofMessage (Text.capitalize s) ≠ Text.capitalize s := by
  obtain ⟨t, rfl⟩ := hp
  have hhashes := withoutHashes_of_lacks (lacks_isHash_capitalize h.hash)
  have hcapital : Text.capitalize ("merge pull request".toList ++ t) = mergePhrase ++ t :=
    congrArg (· ++ ("erge pull request".toList ++ t)) Text.upper_m
  rw [hcapital] at hhashes ⊢
  have hsplit : SplitsLine (mergePhrase ++ t) [] (mergePhrase ++ t) := by
    refine ⟨rfl, .inl rfl, fun c hc => ?_⟩
    rcases List.mem_append.1 hc with hc | hc
    · exact Text.any_isTerminator_eq_false_iff.1 (by decide : mergePhrase.any _ = false) c hc
    · exact hline c (List.mem_append_right _ hc)
  have hcut : cut mergePhrase (mergePhrase ++ t) = [] := by
    rw [cut_of_splitsLine hsplit, Text.before_of_isPrefix (List.prefix_append _ t)]
    rfl
  have hnil : ofMessage (mergePhrase ++ t) = [] := by
    rw [ofMessage, substance, hhashes, withoutMergeTail, hcut]
    rfl
  rw [hnil]
  exact (List.cons_ne_nil _ _).symm

/-! ### Titles of titles -/

/-- **When a title is its own title**: that of a message without references and without
marks of merging is the trimmed message with a capital first, and its title is the same
unless that capital completes a mark. -/
theorem ofMessage_ofMessage_iff (h : IsUnmarked message) :
    ofMessage message = Text.capitalize (Text.trim message)
      ∧ (ofMessage (ofMessage message) = ofMessage message
        ↔ ¬ HidesMark (Text.trim message)) := by
  have htrim : IsUnmarked (Text.trim message) := h.of_isInfix (Text.trim_isInfix message)
  refine ⟨h.ofMessage_eq, ?_⟩
  rw [h.ofMessage_eq]
  constructor
  · intro heq hmark
    cases hmark with
    | word hb hd hp => exact ofMessage_capitalize_ne_of_word htrim hb hd hp heq
    | merge hp hline => exact ofMessage_capitalize_ne_of_merge htrim hp hline heq
  · intro hn
    rw [ofMessage, substance_capitalize htrim hn, Text.trim_capitalize_trim,
      Text.capitalize_capitalize]

/-- A message that has `pR 5` and `merge pull request`, but not first. -/
theorem ofMessage_ofMessage_of_ligature :
    let message := " ﬁx pR 5\nmerge pull request\n".toList
    IsUnmarked message ∧ ¬ HidesMark (Text.trim message)
      ∧ ofMessage message = "FIx pR 5\nmerge pull request".toList
      ∧ ofMessage (ofMessage message) = ofMessage message := by
  intro message
  have h : IsUnmarked message :=
    ⟨Reference.measures_hashToken.lacks_iff.2 (by decide),
      Reference.measures_wordToken.lacks_iff.2 (by decide), by decide, by decide⟩
  have hn : ¬ HidesMark (Text.trim message) := by
    rintro (⟨-, -, hp⟩ | ⟨hp, -⟩)
    · exact absurd (List.cons_prefix_cons.1 hp).1 (by decide)
    · exact absurd (List.cons_prefix_cons.1 hp).1 (by decide)
  obtain ⟨htitle, hiff⟩ := ofMessage_ofMessage_iff h
  exact ⟨h, hn, htitle.trans (by decide), hiff.2 hn⟩

/-- The title of `pR 5` is `PR 5`, and nothing is left of that. -/
theorem ofMessage_ofMessage_ne :
    IsUnmarked "pR 5".toList ∧ ofMessage "pR 5".toList = "PR 5".toList
      ∧ ofMessage (ofMessage "pR 5".toList) = []
      ∧ ofMessage (ofMessage "pR 5".toList) ≠ ofMessage "pR 5".toList := by
  refine ⟨⟨Reference.measures_hashToken.lacks_iff.2 (by decide),
    Reference.measures_wordToken.lacks_iff.2 (by decide), by decide, by decide⟩, ?_, ?_, ?_⟩
  · decide
  · decide
  · decide

end Title

end ReleaseNotes
