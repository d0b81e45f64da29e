/-
ReleaseNotes/Proofs/LogLine.lean

A commit and the line that lists it.

A line is read from both ends: the hash ends at the first separator and the
author begins behind the last one.  So the subject may hold anything, and only
hash and author are restricted: neither holds a separator, the hash does not
end with a bar and the author does not begin with one, for such a bar would
move the separator next to it by one place.

Main results: the position of the first and of the last separator is determined
by what lies before and behind it (`firstIndex?_append_separator`,
`lastIndex?_append_separator`), hence the message is what stands between them
(`ofLine?_append`), and a commit is read back from its line (`ofLine?_toLine`), exactly
when its author is free of such bars (`ofLine?_toLine_iff`).
-/
import ReleaseNotes.Commit

namespace ReleaseNotes

/-! ### Positions of a word -/

namespace Text

variable {word : Text}

theorem firstIndex?_eq_none {s : Text} (h : firstIndex? word s = none) (j : Nat) :
    ¬ word <+: s.drop j := by
  induction s generalizing j with
  | nil =>
    simp only [firstIndex?] at h
    split at h <;> simp_all
  | cons c s ih =>
    simp only [firstIndex?] at h
    split at h
    · cases h
    · rename_i hp
      have hs : firstIndex? word s = none := by simpa using h
      cases j with
      | zero => simpa using hp
      | succ j => simpa using ih hs j

/-- The first position is the one at which the word starts and before which it
does not. -/
theorem firstIndex?_eq_some_iff {s : Text} {i : Nat} :
    firstIndex? word s = some i ↔ word <+: s.drop i ∧ ∀ j < i, ¬ word <+: s.drop j := by
  refine ⟨firstIndex?_eq_some, fun ⟨hw, hn⟩ => ?_⟩
  cases e : firstIndex? word s with
  | none => exact absurd hw (firstIndex?_eq_none e i)
  | some k =>
    obtain ⟨hk, hm⟩ := firstIndex?_eq_some e
    rcases Nat.lt_trichotomy k i with hlt | rfl | hlt
    · exact absurd hk (hn k hlt)
    · rfl
    · exact absurd hw (hm i hlt)

theorem lastIndex?_le_length {s : Text} {i : Nat} (h : lastIndex? word s = some i) :
    i ≤ s.length := by
  induction s generalizing i with
  | nil =>
    simp only [lastIndex?] at h
    split at h <;> simp_all
  | cons c s ih =>
    simp only [lastIndex?] at h
    split at h
    · rename_i k hk
      cases h
      simpa using ih hk
    · split at h
      · cases h
        exact Nat.zero_le _
      · cases h

/-- The last position is the one at which the word starts and behind which it
does not. -/
theorem lastIndex?_eq_some_iff {s : Text} {i : Nat} (hi : i ≤ s.length) :
    lastIndex? word s = some i
      ↔ word <+: s.drop i ∧ ∀ j, i < j → j ≤ s.length → ¬ word <+: s.drop j := by
  refine ⟨lastIndex?_eq_some, fun ⟨hw, hn⟩ => ?_⟩
  cases e : lastIndex? word s with
  | none => exact absurd hw (lastIndex?_eq_none e i)
  | some k =>
    obtain ⟨hk, hm⟩ := lastIndex?_eq_some e
    rcases Nat.lt_trichotomy i k with hlt | rfl | hlt
    · exact absurd hk (hn k hlt (lastIndex?_le_length e))
    · rfl
    · exact absurd hw (hm i hlt hi)

end Text

/-! ### The two separators of a line -/

namespace Commit

/-- The first separator stands right behind a text that holds none, provided that
this text does not end with a bar. -/
theorem firstIndex?_append_separator {hash : Text} (hb : hash.getLast? ≠ some '|')
    (hs : ¬ separator <:+: hash) (rest : Text) :
    Text.firstIndex? separator (hash ++ separator ++ rest) = some hash.length := by
  rw [Text.firstIndex?_eq_some_iff, List.append_assoc]
  constructor
  · rw [List.drop_left]
    exact List.prefix_append _ _
  · intro j hj hp
    rw [List.drop_append_of_le_length (Nat.le_of_lt hj)] at hp
    have hend : hash.drop j <:+ hash := List.drop_suffix j hash
    match e : hash.drop j with
    | [] => exact absurd (List.drop_eq_nil_iff.1 e) (Nat.not_le_of_lt hj)
    | [x] =>
      -- an overlapping occurrence needs a bar at the end of the hash
      rw [e] at hp hend
      obtain ⟨front, rfl⟩ := hend
      rw [(List.cons_prefix_cons.1 hp).1.symm] at hb
      exact hb List.getLast?_concat
    | x :: y :: t =>
      rw [e] at hp hend
      have hh : separator <+: x :: y :: t := by
        obtain ⟨hx, hy⟩ := List.cons_prefix_cons.1 hp
        exact List.cons_prefix_cons.2
          ⟨hx, List.cons_prefix_cons.2 ⟨(List.cons_prefix_cons.1 hy).1, List.nil_prefix⟩⟩
      exact hs (hh.isInfix.trans hend.isInfix)

/-- The last separator stands right before a text that holds none, provided that
this text does not begin with a bar. -/
theorem lastIndex?_append_separator {author : Text} (hb : author.head? ≠ some '|')
    (hs : ¬ separator <:+: author) (front : Text) :
    Text.lastIndex? separator (front ++ separator ++ author) = some front.length := by
  rw [Text.lastIndex?_eq_some_iff (by simp), List.append_assoc]
  constructor
  · rw [List.drop_left]
    exact List.prefix_append _ _
  · intro j hj _ hp
    obtain ⟨k, rfl⟩ : ∃ k, j = front.length + (k + 1) := ⟨j - front.length - 1, by omega⟩
    rw [← List.drop_drop, List.drop_left] at hp
    cases k with
    | zero =>
      -- an overlapping occurrence needs a bar at the beginning of the author
      have ha : ['|'] <+: author := (List.cons_prefix_cons.1 hp).2
      obtain ⟨t, rfl⟩ := ha
      exact hb rfl
    | succ k =>
      have ha : separator <+: author.drop k := by simpa [separator] using hp
      exact hs (ha.isInfix.trans (List.drop_suffix k author).isInfix)

/-! ### Reading a line back -/

/-- What can stand before the first separator of a line, `h`, and behind its last one, `a`:
no separator, and no bar next to one. -/
structure IsMargins (h a : Text) : Prop where
  separator_not_mem_hash : ¬ separator <:+: h
  getLast?_hash : h.getLast? ≠ some '|'
  separator_not_mem_author : ¬ separator <:+: a
  head?_author : a.head? ≠ some '|'

/-- Whatever stands between the first and the last separator is the message. -/
theorem ofLine?_append {h a : Text} (hm : IsMargins h a) (m : Text) :
    ofLine? (h ++ separator ++ m ++ separator ++ a)
      = some ⟨Text.trim h, m, Text.trim a⟩ := by
  have hf : Text.firstIndex? separator (h ++ separator ++ m ++ separator ++ a)
      = some h.length := by
    simpa using firstIndex?_append_separator hm.getLast?_hash hm.separator_not_mem_hash
      (m ++ separator ++ a)
  have hl : Text.lastIndex? separator (h ++ separator ++ m ++ separator ++ a)
      = some (h ++ separator ++ m).length :=
    lastIndex?_append_separator hm.head?_author hm.separator_not_mem_author _
  have hne : h.length ≠ (h ++ separator ++ m).length := by
    simp [separator]
  have hash : (h ++ separator ++ m ++ separator ++ a).take h.length = h := by simp
  have message : ((h ++ separator ++ m ++ separator ++ a).take
      (h ++ separator ++ m).length).drop (h.length + separator.length) = m := by
    rw [List.append_assoc _ separator a, List.take_left, ← List.length_append, List.drop_left]
  have author : (h ++ separator ++ m ++ separator ++ a).drop
      ((h ++ separator ++ m).length + separator.length) = a := by
    rw [← List.length_append, List.drop_left]
  simp only [ofLine?, hf, hl, if_neg hne, hash, message, author]

/-- **A commit is read back from its line**, whatever its message holds. -/
theorem ofLine?_toLine {c : Commit} (hbar : '|' ∉ c.hash) (hhash : Text.trim c.hash = c.hash)
    (hauthor : Text.trim c.author = c.author) (hb : c.author.head? ≠ some '|')
    (hs : ¬ separator <:+: c.author) : ofLine? c.toLine = some c := by
  have hm : IsMargins c.hash c.author :=
    ⟨fun hi => hbar (hi.subset List.mem_cons_self), fun e => hbar (List.mem_of_getLast? e), hs, hb⟩
  rw [toLine, ofLine?_append hm, hhash, hauthor]

/-! ### Exactly the commits that are read back -/

/-- A text begins with a bar or holds a separator exactly when a separator stands in it with one
more bar in front. -/
theorem separator_isInfix_cons_iff {a : Text} :
    separator <:+: '|' :: a ↔ separator <:+: a ∨ a.head? = some '|' := by
  rw [List.infix_cons_iff, or_comm]
  refine or_congr_right ?_
  constructor
  · intro hp
    obtain ⟨t, rfl⟩ := (List.cons_prefix_cons.1 hp).2
    rfl
  · intro hb
    obtain ⟨t, rfl⟩ := List.head?_eq_some_iff.1 hb
    exact ⟨t, rfl⟩

/-- A separator that takes at most one bar of the one in front of it comes later than that. -/
theorem length_lt_of_late_separator {front a : Text} {j : Nat} (hs : separator <:+: '|' :: a)
    (hj : Text.lastIndex? separator (front ++ separator ++ a) = some j) : front.length < j := by
  obtain ⟨x, y, hxy⟩ := hs
  have hline : front ++ separator ++ a = front ++ ['|'] ++ x ++ (separator ++ y) := by
    rw [show front ++ separator ++ a = front ++ ['|'] ++ ('|' :: a) by simp [separator], ← hxy]
    simp
  refine Nat.lt_of_not_le fun hle => (Text.lastIndex?_eq_some hj).2
    (front ++ ['|'] ++ x).length ?_ ?_ ?_
  · simp
    omega
  · rw [hline]
    simp
  · rw [hline, List.drop_left]
    exact List.prefix_append _ _

/-- The message of a commit reaches from the first separator of its line to the last one. -/
theorem length_message {line : Text} {c : Commit} {i j : Nat} (hc : ofLine? line = some c)
    (hi : Text.firstIndex? separator line = some i) (hj : Text.lastIndex? separator line = some j) :
    c.message.length = j - (i + separator.length) := by
  have hle : j ≤ line.length := Text.lastIndex?_le_length hj
  simp only [ofLine?, hi, hj] at hc
  split at hc
  · cases hc
  · cases hc
    rw [List.length_drop, List.length_take, Nat.min_eq_left hle]

/-- **A commit is read back from its line exactly when nothing of its author can be taken for a
separator**, neither as a whole nor with the bar in front of it; the message may be any text. -/
theorem ofLine?_toLine_iff {c : Commit} (hbar : '|' ∉ c.hash) (hhash : Text.trim c.hash = c.hash)
    (hauthor : Text.trim c.author = c.author) :
    ofLine? c.toLine = some c ↔ ¬ separator <:+: c.author ∧ c.author.head? ≠ some '|' := by
  refine ⟨fun hc => ?_, fun ⟨hs, hb⟩ => ofLine?_toLine hbar hhash hauthor hb hs⟩
  rw [← not_or, ← separator_isInfix_cons_iff]
  intro hlate
  have hi : Text.firstIndex? separator c.toLine = some c.hash.length := by
    simpa [toLine] using firstIndex?_append_separator (fun e => hbar (List.mem_of_getLast? e))
      (fun hs => hbar (hs.subset List.mem_cons_self)) (c.message ++ separator ++ c.author)
  cases hj : Text.lastIndex? separator c.toLine with
  | none => simp [ofLine?, hj] at hc
  | some j =>
    -- the message that is read ends at a later separator, so it is too long
    have hlt := length_lt_of_late_separator hlate hj
    have hlen := length_message hc hi hj
    simp only [List.length_append] at hlt
    omega

/-- Bars all over the message do no harm, one in front of the author does. -/
theorem ofLine?_toLine_iff_of_bars :
    let c : Commit := ⟨"a1".toList, "||x|".toList, "Jo|".toList⟩
    let d : Commit := ⟨"a1".toList, "x".toList, "|Jo".toList⟩
    ofLine? c.toLine = some c ∧ ofLine? d.toLine ≠ some d := by
  intro c d
  have hc := ofLine?_toLine_iff (c := c) (by decide) (by decide) (by decide)
  have hd := ofLine?_toLine_iff (c := d) (by decide) (by decide) (by decide)
  exact ⟨hc.2 (by decide), fun h => absurd rfl (hd.1 h).2⟩

end Commit

end ReleaseNotes
