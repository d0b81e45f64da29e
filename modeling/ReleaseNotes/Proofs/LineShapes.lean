/-
ReleaseNotes/Proofs/LineShapes.lean

The shapes of a log line, and what is read from each.

Let `h` stand before the first separator of a line and `a` behind the last one.  First and
last separator are the same one, they share a bar, or the message stands between them:

    h || a           no commit,
    h ||| a          a commit without a message,
    h || m || a      a commit with the message `m`.

The second shape is the odd one: there are no two separators in the line, for those that it
has overlap, but they begin at different places, and a line is refused only when they do not.
No entry comes of such a line, since nothing is left for a title.

Main results: every line has one of the shapes (`shape_ofLine?`), and a line is accepted for
its two separators, and read as a whole, unless it has the second one (`readsWhole_iff`).
-/
import ReleaseNotes.Entry
import ReleaseNotes.Proofs.LogLine

namespace ReleaseNotes

namespace Commit

variable {line h a t : Text} {c : Commit} {o : Option Commit} {i j : Nat}

/-! ### The first and the last separator -/

theorem exists_firstSeparator (hline : separator <:+: line) :
    ∃ h t, line = h ++ separator ++ t ∧ ¬ separator <:+: h ∧ h.getLast? ≠ some '|' := by
  induction line with
  | nil => exact absurd (List.infix_nil.1 hline) (List.cons_ne_nil _ _)
  | cons x line ih =>
    by_cases hx : separator <+: x :: line
    · obtain ⟨t, ht⟩ := hx
      exact ⟨[], t, ht.symm, by decide, by decide⟩
    · obtain ⟨h, t, rfl, hs, hb⟩ := ih ((List.infix_cons_iff.1 hline).resolve_left hx)
      refine ⟨x :: h, t, rfl, fun hi => ?_, fun hlast => ?_⟩
      · rcases List.infix_cons_iff.1 hi with hp | hi
        · apply hx
          rw [List.append_assoc]
          exact hp.trans (List.prefix_append (x :: h) _)
        · exact hs hi
      · cases h with
        | nil =>
          -- a bar right in front of a separator begins one itself
          obtain rfl := Option.some.inj hlast
          exact hx ⟨'|' :: t, rfl⟩
        | cons y h => exact hb (by rwa [List.getLast?_cons_cons] at hlast)

theorem exists_lastSeparator (hline : separator <:+: line) :
    ∃ t a, line = t ++ separator ++ a ∧ ¬ separator <:+: a ∧ a.head? ≠ some '|' := by
  induction line with
  | nil => exact absurd (List.infix_nil.1 hline) (List.cons_ne_nil _ _)
  | cons x line ih =>
    by_cases hrest : separator <:+: line
    · -- a later separator is the last one, whatever starts here
      obtain ⟨t, a, rfl, hs, hb⟩ := ih hrest
      exact ⟨x :: t, a, rfl, hs, hb⟩
    · obtain ⟨a, ha⟩ := (List.infix_cons_iff.1 hline).resolve_right hrest
      obtain ⟨rfl, rfl⟩ := List.cons.inj ha
      refine ⟨[], a, rfl, fun hi => hrest (hi.trans (List.suffix_cons '|' a).isInfix), ?_⟩
      intro hfirst
      obtain ⟨t, rfl⟩ := List.head?_eq_some_iff.1 hfirst
      exact hrest ⟨[], t, rfl⟩

/-! ### Shapes -/

/-- Two separators that share a bar. -/
def sharedSeparators : Text := ['|', '|', '|']

/-- The shapes of a line, with the commit that each lists. -/
inductive Shape : Text → Option Commit → Prop
  | plain {line : Text} : ¬ separator <:+: line → Shape line none
  | single {h a : Text} : IsMargins h a → Shape (h ++ separator ++ a) none
  | shared {h a : Text} : IsMargins h a →
    Shape (h ++ sharedSeparators ++ a) (some ⟨Text.trim h, [], Text.trim a⟩)
  | whole {h m a : Text} : IsMargins h a →
    Shape (h ++ separator ++ m ++ separator ++ a) (some ⟨Text.trim h, m, Text.trim a⟩)

/-- What begins a text that begins with a separator is nothing, one bar, or has all of the
separator. -/
theorem eq_of_isPrefix_separator_append {m : Text} (hp : m <+: separator ++ t) :
    m = [] ∨ m = ['|'] ∨ ∃ rest, m = separator ++ rest := by
  match m with
  | [] => exact .inl rfl
  | [x] =>
    obtain ⟨rfl, -⟩ := List.cons_prefix_cons.1 hp
    exact .inr (.inl rfl)
  | x :: y :: rest =>
    obtain ⟨rfl, hnext⟩ := List.cons_prefix_cons.1 hp
    obtain ⟨rfl, -⟩ := List.cons_prefix_cons.1 hnext
    exact .inr (.inr ⟨rest, rfl⟩)

/-- The last separator is the first one, shares a bar with it, or stands behind it. -/
theorem exists_shape (line : Text) : ∃ o, Shape line o := by
  by_cases hline : separator <:+: line
  · obtain ⟨h, t, hfirst, hh, hbar⟩ := exists_firstSeparator hline
    obtain ⟨f, a, rfl, ha, hbar'⟩ := exists_lastSeparator hline
    have hm : IsMargins h a := ⟨hh, hbar, ha, hbar'⟩
    rw [List.append_assoc, List.append_assoc] at hfirst
    rcases List.append_eq_append_iff.1 hfirst with ⟨m, rfl, hrest⟩ | ⟨m, rfl, hrest⟩
    · -- no separator stands in front of the first one, not even one that overlaps with it
      rcases eq_of_isPrefix_separator_append ⟨_, hrest.symm⟩ with rfl | rfl | ⟨rest, rfl⟩
      · exact ⟨none, .single (by simpa using hm)⟩
      · exact absurd List.getLast?_concat hbar
      · exact absurd ⟨f, rest, List.append_assoc f separator rest⟩ hh
    · rcases eq_of_isPrefix_separator_append ⟨_, hrest.symm⟩ with rfl | rfl | ⟨m, rfl⟩
      · exact ⟨none, by simpa using Shape.single hm⟩
      · exact ⟨_, by simpa [separator, sharedSeparators] using Shape.shared hm⟩
      · exact ⟨_, by simpa using Shape.whole (m := m) hm⟩
  · exact ⟨none, .plain hline⟩

/-- The one separator of a line is the first and the last. -/
theorem ofLine?_single (hm : IsMargins h a) : ofLine? (h ++ separator ++ a) = none := by
  simp only [ofLine?, if_true,
    firstIndex?_append_separator hm.getLast?_hash hm.separator_not_mem_hash a,
    lastIndex?_append_separator hm.head?_author hm.separator_not_mem_author h]

theorem firstIndex?_shared (hm : IsMargins h a) :
    Text.firstIndex? separator (h ++ sharedSeparators ++ a) = some h.length := by
  simpa [separator, sharedSeparators] using
    firstIndex?_append_separator hm.getLast?_hash hm.separator_not_mem_hash ('|' :: a)

theorem lastIndex?_shared (hm : IsMargins h a) :
    Text.lastIndex? separator (h ++ sharedSeparators ++ a) = some (h.length + 1) := by
  simpa [separator, sharedSeparators] using
    lastIndex?_append_separator hm.head?_author hm.separator_not_mem_author (h ++ ['|'])

/-- Nothing is left between the first separator and the last one when they share a bar. -/
theorem ofLine?_shared (hm : IsMargins h a) :
    ofLine? (h ++ sharedSeparators ++ a) = some ⟨Text.trim h, [], Text.trim a⟩ := by
  have hne : h.length ≠ h.length + 1 := Nat.ne_of_lt (Nat.lt_succ_self _)
  have hash : (h ++ sharedSeparators ++ a).take h.length = h := by simp
  have message : ((h ++ sharedSeparators ++ a).take (h.length + 1)).drop
      (h.length + separator.length) = [] := by
    apply List.drop_eq_nil_of_le
    exact Nat.le_trans (List.length_take_le _ _) (Nat.add_le_add_left (by decide) _)
  have author : (h ++ sharedSeparators ++ a).drop (h.length + 1 + separator.length) = a := by
    rw [Nat.add_assoc, show 1 + separator.length = sharedSeparators.length from rfl,
      ← List.length_append, List.drop_left]
  simp only [ofLine?, firstIndex?_shared hm, lastIndex?_shared hm, if_neg hne, hash, message,
    author]

/-- A line lists the commit of its shape. -/
theorem Shape.ofLine?_eq (hs : Shape line o) : ofLine? line = o := by
  cases hs with
  | plain hline =>
    cases hf : Text.firstIndex? separator line with
    | none => exact ofLine?_eq_none hf
    | some i =>
      have hp := (Text.firstIndex?_eq_some hf).1
      exact absurd (hp.isInfix.trans (List.drop_suffix i line).isInfix) hline
  | single hm => exact ofLine?_single hm
  | shared hm => exact ofLine?_shared hm
  | whole hm => exact ofLine?_append hm _

/-- **Every line has a shape**, and lists the commit that belongs to it. -/
theorem shape_ofLine? (line : Text) : Shape line (ofLine? line) := by
  obtain ⟨o, hs⟩ := exists_shape line
  rw [hs.ofLine?_eq]
  exact hs

/-! ### Lines with two separators -/

/-- Two separators stand in the line that do not overlap. -/
def HasTwo (line : Text) : Prop :=
  ∃ front middle behind, line = front ++ separator ++ middle ++ separator ++ behind

/-- Between the places of two separators that do not overlap there is room for one. -/
theorem HasTwo.add_two_le (htwo : HasTwo line)
    (hf : Text.firstIndex? separator line = some i)
    (hl : Text.lastIndex? separator line = some j) : i + 2 ≤ j := by
  obtain ⟨front, middle, behind, rfl⟩ := htwo
  have hfirst : i ≤ front.length := by
    refine Nat.le_of_not_lt fun hlt => (Text.firstIndex?_eq_some hf).2 _ hlt ?_
    simp only [List.append_assoc, List.drop_left]
    exact List.prefix_append _ _
  have hlast : (front ++ separator ++ middle).length ≤ j := by
    refine Nat.le_of_not_lt fun hlt => (Text.lastIndex?_eq_some hl).2 _ hlt (by simp) ?_
    rw [List.append_assoc _ separator behind, List.drop_left]
    exact List.prefix_append _ _
  simp only [List.length_append, separator, List.length_cons, List.length_nil] at hlast
  omega

theorem HasTwo.isInfix (htwo : HasTwo line) : separator <:+: line := by
  obtain ⟨front, middle, behind, rfl⟩ := htwo
  exact ⟨front, middle ++ separator ++ behind, by simp only [List.append_assoc]⟩

theorem not_hasTwo_single (hm : IsMargins h a) : ¬ HasTwo (h ++ separator ++ a) := by
  intro htwo
  have hle := htwo.add_two_le
    (firstIndex?_append_separator hm.getLast?_hash hm.separator_not_mem_hash a)
    (lastIndex?_append_separator hm.head?_author hm.separator_not_mem_author h)
  omega

theorem not_hasTwo_shared (hm : IsMargins h a) : ¬ HasTwo (h ++ sharedSeparators ++ a) := by
  intro htwo
  have hle := htwo.add_two_le (firstIndex?_shared hm) (lastIndex?_shared hm)
  omega

/-- The rule for a line: a commit is listed exactly by two separators that do not overlap,
and then its fields account for the whole line. -/
structure ReadsWhole (line : Text) : Prop where
  accepts : (∃ c, ofLine? line = some c) ↔ HasTwo line
  accounts : ∀ c, ofLine? line = some c → ∃ h a, ¬ separator <:+: h ∧ ¬ separator <:+: a
    ∧ line = h ++ separator ++ c.message ++ separator ++ a
    ∧ c.hash = Text.trim h ∧ c.author = Text.trim a

/-- The first and the last separator of the line share a bar. -/
def SharesBar (line : Text) : Prop :=
  ∃ h a, IsMargins h a ∧ line = h ++ sharedSeparators ++ a

theorem readsWhole_of_none (ho : ofLine? line = none) (hn : ¬ HasTwo line) :
    ReadsWhole line where
  accepts := by
    rw [ho]
    constructor
    · exact fun ⟨_, hc⟩ => nomatch hc
    · exact fun htwo => absurd htwo hn
  accounts := by
    rw [ho]
    exact nofun

theorem readsWhole_append (hm : IsMargins h a) (m : Text) :
    ReadsWhole (h ++ separator ++ m ++ separator ++ a) where
  accepts := ⟨fun _ => ⟨h, m, a, rfl⟩, fun _ => ⟨_, ofLine?_append hm m⟩⟩
  accounts := by
    intro c hc
    rw [ofLine?_append hm m] at hc
    cases hc
    exact ⟨h, a, hm.separator_not_mem_hash, hm.separator_not_mem_author, rfl, rfl, rfl⟩

theorem not_readsWhole_of_sharesBar (hs : SharesBar line) : ¬ ReadsWhole line := by
  obtain ⟨h, a, hm, rfl⟩ := hs
  exact fun hr => not_hasTwo_shared hm (hr.accepts.1 ⟨_, ofLine?_shared hm⟩)

theorem readsWhole_of_not_sharesBar (hn : ¬ SharesBar line) : ReadsWhole line := by
  have hs := shape_ofLine? line
  generalize ho : ofLine? line = o at hs
  cases hs with
  | plain hline => exact readsWhole_of_none ho (mt HasTwo.isInfix hline)
  | single hm => exact readsWhole_of_none ho (not_hasTwo_single hm)
  | shared hm => exact absurd ⟨_, _, hm, rfl⟩ hn
  | whole hm => exact readsWhole_append hm _

/-- **A line is accepted for its two separators, and its fields account for all of it**, unless
the only separators that it has share a bar.  Such a line lists a commit without a message, of
which no entry comes. -/
theorem readsWhole_iff (line : Text) :
    (ReadsWhole line ↔ ¬ SharesBar line)
      ∧ ∀ h a, IsMargins h a → line = h ++ sharedSeparators ++ a →
        ofLine? line = some ⟨Text.trim h, [], Text.trim a⟩ ∧ Entry.ofLine? line = none := by
  refine ⟨⟨fun hr hs => not_readsWhole_of_sharesBar hs hr, readsWhole_of_not_sharesBar⟩, ?_⟩
  rintro h a hm rfl
  refine ⟨ofLine?_shared hm, ?_⟩
  rw [Entry.ofLine?, ofLine?_shared hm, Option.bind_some]
  exact Entry.ofCommit?_eq_none Title.ofMessage_nil

/-- One of the three bars of this line would have to belong to two separators. -/
theorem not_readsWhole_of_three_bars :
    let line := "a|||b".toList
    ofLine? line = some ⟨"a".toList, [], "b".toList⟩ ∧ ¬ HasTwo line ∧ ¬ ReadsWhole line := by
  intro line
  have hm : IsMargins "a".toList "b".toList := ⟨by decide, by decide, by decide, by decide⟩
  refine ⟨by decide, not_hasTwo_shared hm, ?_⟩
  exact not_readsWhole_of_sharesBar ⟨_, _, hm, rfl⟩

end Commit

end ReleaseNotes
