/-
ReleaseNotes/Proofs/RenderedLines.lean

Texts that show the same lines.

Lines can be written down in many ways: each ends at a line feed or at a carriage return
and a line feed, the last one may end with the text, and blank lines may stand between them.
`Renders ls s` says that the text `s` is one of these.

What is read of such a text is a function of the lines alone.  Blank lines are dropped, and a
line that is not blank is kept as it is, but for the last of them: what stands behind it, down
to the blanks at its own end, is lost with the end of the text.

    commitLinesOf (trimEnd s) = trimLast (ls.filter (trim · ≠ []))

Main results: the lines that are read of a rendering (`commitLinesOf_of_renders`), and builds
from answers that show the same lines are the same (`changelog_of_answersAlike`).
-/
import ReleaseNotes.Proofs.Answers
import ReleaseNotes.Proofs.JoinedLogs

namespace ReleaseNotes

namespace Text

variable {s t b l : Text} {ls : List Text}

/-! ### Renderings -/

/-- What can end a line. -/
inductive LineEnd
  | feed
  | returnFeed

/-- The characters of a line end. -/
def LineEnd.text : LineEnd → Text
  | feed => ['\n']
  | returnFeed => ['\r', '\n']

/-- All of a text is blank. -/
def AllBlank (s : Text) : Prop := ∀ c ∈ s, isBlank c = true

instance (s : Text) : Decidable (AllBlank s) := List.decidableBAll _ s

/-- A text within which no line ends. -/
def IsLine (l : Text) : Prop := '\r' ∉ l ∧ '\n' ∉ l

/-- `Renders ls s`: the text `s` shows the lines `ls` in their order, with blank lines
among them.  Only the last line of the text may lack an end. -/
inductive Renders : List Text → Text → Prop
  | openBlank {b : Text} : AllBlank b → Renders [] b
  | openLine (l : Text) : Renders [l] l
  | blank {b : Text} {ls : List Text} {s : Text} (e : LineEnd) :
    AllBlank b → Renders ls s → Renders ls (b ++ e.text ++ s)
  | line (l : Text) {ls : List Text} {s : Text} (e : LineEnd) :
    Renders ls s → Renders (l :: ls) (l ++ e.text ++ s)

theorem LineEnd.exists_text_eq (e : LineEnd) :
    ∃ r, (r = [] ∨ r = ['\r']) ∧ e.text = r ++ ['\n'] := by
  cases e with
  | feed => exact ⟨[], .inl rfl, rfl⟩
  | returnFeed => exact ⟨['\r'], .inr rfl, rfl⟩

theorem allBlank_append : AllBlank (s ++ t) ↔ AllBlank s ∧ AllBlank t :=
  List.forall_mem_append

theorem LineEnd.allBlank_text (e : LineEnd) : AllBlank e.text := by
  cases e <;> decide

/-- A text is blank exactly when all the lines that it shows are. -/
theorem Renders.allBlank_iff (h : Renders ls s) : AllBlank s ↔ ∀ l ∈ ls, AllBlank l := by
  induction h with
  | openBlank hb => simp [hb]
  | openLine l => simp
  | blank e hb _ ih => rw [allBlank_append, allBlank_append, ih]; simp [hb, e.allBlank_text]
  | line l e _ ih =>
    rw [allBlank_append, allBlank_append, ih, List.forall_mem_cons]
    simp [e.allBlank_text]

/-! ### The end of a text -/

theorem trimEnd_append_of_not_blank (h : ¬ AllBlank t) (s : Text) :
    trimEnd (s ++ t) = s ++ trimEnd t := by
  have hne : ¬ (t.reverse.dropWhile isBlank).isEmpty = true := fun he =>
    h (trimEnd_eq_nil_iff.1 (List.reverse_eq_nil_iff.2 (List.isEmpty_iff.1 he)))
  rw [trimEnd, List.reverse_append, List.dropWhile_append, if_neg hne, List.reverse_append,
    List.reverse_reverse]
  rfl

theorem trim_trimEnd (s : Text) : trim (trimEnd s) = trim s := by
  obtain ⟨blanks, hs, hb⟩ := exists_trimEnd_append s
  rw [← trim_append_of_blank hb, ← hs]

theorem IsLine.trimEnd (h : IsLine l) : IsLine (trimEnd l) := by
  obtain ⟨blanks, hs, -⟩ := exists_trimEnd_append l
  have hsub : Text.trimEnd l ⊆ l := by
    intro c hc
    rw [hs]
    exact List.mem_append_left _ hc
  exact ⟨fun hr => h.1 (hsub hr), fun hn => h.2 (hsub hn)⟩

/-! ### Line ends -/

theorem lines_of_isLine (h : IsLine l) : lines l = [l] := by
  rw [lines, List.splitOn_eq_singleton h.2]
  rfl

/-- The end of a line is no part of it. -/
theorem lines_append_text (h : IsLine l) (e : LineEnd) : lines (l ++ e.text) = [l, []] := by
  obtain ⟨r, hr, he⟩ := e.exists_text_eq
  have hfeed : '\n' ∉ l ++ r := by
    rcases hr with rfl | rfl <;> simp [h.2]
  have hchop : chopReturn (l ++ r) = l := by
    rcases hr with rfl | rfl
    · have hlast : l.getLast? ≠ some '\r' := fun hl => h.1 (List.mem_of_getLast? hl)
      simp [chopReturn, hlast]
    · simp [chopReturn]
  have hline : l ++ e.text = l ++ r ++ '\n' :: [] := by rw [he, List.append_assoc]
  rw [hline, lines_append_lineFeed, List.splitOn_eq_singleton hfeed, List.map_singleton, hchop]
  rfl

/-- The lines of a text with the last one trimmed at its end. -/
def trimLast : List Text → List Text
  | [] => []
  | [l] => [trimEnd l]
  | l :: next :: rest => l :: trimLast (next :: rest)

theorem trimLast_append (h : ls ≠ []) (front : List Text) :
    trimLast (front ++ ls) = front ++ trimLast ls := by
  induction front with
  | nil => rfl
  | cons l front ih =>
    obtain ⟨next, rest, e⟩ := List.exists_cons_of_ne_nil (l := front ++ ls) (by simp [h])
    rw [List.cons_append, e, trimLast, ← e, ih]
    rfl

end Text

/-! ### The lines that are read -/

namespace Repository

open Text

variable {s t b l : Text} {ls : List Text} {repo repo' : Repository}

/-- Some lines without those that are blank. -/
def dropBlanks (ls : List Text) : List Text :=
  ls.filter (trim · ≠ [])

theorem dropBlanks_eq_nil_iff : dropBlanks ls = [] ↔ ∀ l ∈ ls, AllBlank l := by
  simp [dropBlanks, trim_eq_nil_iff, AllBlank]

/-- Nothing is read of a blank text. -/
theorem commitLinesOf_of_allBlank (h : AllBlank b) : commitLinesOf b = [] := by
  refine dropBlanks_eq_nil_iff.2 ?_
  exact (forall_mem_lines_iff (p := fun c => isBlank c = true) (by decide) (by decide)).2 h

theorem commitLinesOf_of_isLine (h : IsLine l) : commitLinesOf l = dropBlanks [l] := by
  rw [commitLinesOf, lines_of_isLine h, dropBlanks]

theorem commitLinesOf_append_text (h : IsLine l) (e : LineEnd) :
    commitLinesOf (l ++ e.text) = dropBlanks [l] := by
  rw [commitLinesOf, lines_append_text h, ← List.singleton_append, List.filter_append]
  exact List.append_nil _

/-- Behind a line end the reading starts anew. -/
theorem commitLinesOf_append_lineEnd (s : Text) (e : LineEnd) (t : Text) :
    commitLinesOf (s ++ e.text ++ t) = commitLinesOf (s ++ e.text) ++ commitLinesOf t := by
  obtain ⟨r, -, he⟩ := e.exists_text_eq
  have hall : s ++ e.text ++ t = s ++ r ++ '\n' :: t := by simp [he]
  have hfront : s ++ e.text = s ++ r ++ '\n' :: [] := by rw [he, List.append_assoc]
  rw [hall, hfront, commitLinesOf, commitLinesOf, lines_append_lineFeed, lines_append_lineFeed,
    List.filter_append, List.filter_append, List.append_assoc]
  rfl

/-- **What is read of a rendering depends on its lines only**: these are the lines that are not
blank, of which the last one loses the blanks at its end. -/
theorem commitLinesOf_of_renders (hls : ∀ l ∈ ls, IsLine l) (h : Renders ls s) :
    commitLinesOf (trimEnd s) = trimLast (dropBlanks ls) := by
  have hlast : ∀ l, IsLine l → commitLinesOf (trimEnd l) = trimLast (dropBlanks [l]) := by
    intro l hl
    rw [commitLinesOf_of_isLine hl.trimEnd]
    by_cases hb : trim l = []
    · simp [dropBlanks, trim_trimEnd, hb, trimLast]
    · simp [dropBlanks, trim_trimEnd, hb, trimLast]
  induction h with
  | openBlank hb => rw [trimEnd_eq_nil_iff.2 hb]; rfl
  | openLine l => exact hlast l (hls l List.mem_cons_self)
  | @blank b ls s e hb hs ih =>
    by_cases hblank : AllBlank s
    · -- all of the text is blank
      have htext : AllBlank (b ++ e.text ++ s) :=
        allBlank_append.2 ⟨allBlank_append.2 ⟨hb, e.allBlank_text⟩, hblank⟩
      rw [trimEnd_eq_nil_iff.2 htext, dropBlanks_eq_nil_iff.2 (hs.allBlank_iff.1 hblank)]
      rfl
    · have hnil : commitLinesOf (b ++ e.text) = [] :=
        commitLinesOf_of_allBlank (allBlank_append.2 ⟨hb, e.allBlank_text⟩)
      rw [trimEnd_append_of_not_blank hblank, commitLinesOf_append_lineEnd, hnil, ih hls]
      rfl
  | @line l ls s e hs ih =>
    obtain ⟨hl, hls⟩ := List.forall_mem_cons.1 hls
    have hsplit : dropBlanks (l :: ls) = dropBlanks [l] ++ dropBlanks ls :=
      List.filter_append [l] ls
    by_cases hblank : AllBlank s
    · -- the line is the last one that may not be blank
      have hend : AllBlank (e.text ++ s) := allBlank_append.2 ⟨e.allBlank_text, hblank⟩
      rw [List.append_assoc, trimEnd_append_of_blank hend, hlast l hl, hsplit,
        dropBlanks_eq_nil_iff.2 (hs.allBlank_iff.1 hblank), List.append_nil]
    · have hne : dropBlanks ls ≠ [] := fun hnil =>
        hblank (hs.allBlank_iff.2 (dropBlanks_eq_nil_iff.1 hnil))
      rw [trimEnd_append_of_not_blank hblank, commitLinesOf_append_lineEnd,
        commitLinesOf_append_text hl, ih hls, hsplit, trimLast_append hne]

/-- Tag names are the lines that a log with the same text would have, without their margins. -/
theorem tagNames_eq_map_commitLinesOf (s : Text) : tagNames s = (commitLinesOf s).map trim := by
  rw [tagNames, commitLinesOf, List.filter_map]
  rfl

/-! ### Answers that show the same lines -/

/-- Two answers are the same, or show the same lines. -/
inductive SameLines : Option Text → Option Text → Prop
  | refl (answer : Option Text) : SameLines answer answer
  | renders {ls : List Text} {s t : Text} :
    (∀ l ∈ ls, IsLine l) → Renders ls s → Renders ls t → SameLines (some s) (some t)

/-- Two repositories list the same tags, have the same references and log the same lines,
however they write them down. -/
structure AnswersAlike (repo repo' : Repository) : Prop where
  tags : SameLines (repo tagArguments) (repo' tagArguments)
  reference : ∀ reference, repo (probeArguments reference) = repo' (probeArguments reference)
  log : ∀ range : CommitRange, SameLines (repo range.logArguments) (repo' range.logArguments)

theorem SameLines.map_commitLinesOf {answer answer' : Option Text}
    (h : SameLines answer answer') :
    (answer.map trimEnd).map commitLinesOf = (answer'.map trimEnd).map commitLinesOf := by
  cases h with
  | refl => rfl
  | renders hls hs ht =>
    simp only [Option.map_some, commitLinesOf_of_renders hls hs, commitLinesOf_of_renders hls ht]

theorem SameLines.map_tagNames {answer answer' : Option Text} (h : SameLines answer answer') :
    (answer.map trimEnd).map tagNames = (answer'.map trimEnd).map tagNames := by
  have hmap : tagNames = List.map trim ∘ commitLinesOf := funext tagNames_eq_map_commitLinesOf
  rw [hmap, ← Option.map_map, ← Option.map_map, h.map_commitLinesOf]

theorem AnswersAlike.tags_eq (h : AnswersAlike repo repo') (dir : Directory) :
    repo.tags dir = repo'.tags dir := by
  simp only [Repository.tags, ask, Session.mapResult]
  split
  · rw [h.tags.map_tagNames]
  · rfl

theorem AnswersAlike.commitLines_eq (h : AnswersAlike repo repo') (dir : Directory)
    (range : CommitRange) : repo.commitLines dir range = repo'.commitLines dir range := by
  simp only [Repository.commitLines, ask, Session.mapResult]
  split
  · rw [(h.log range).map_commitLinesOf]
  · rfl

theorem AnswersAlike.hasReference_eq (h : AnswersAlike repo repo') (dir : Directory)
    (reference : Text) : repo.hasReference dir reference = repo'.hasReference dir reference := by
  simp only [Repository.hasReference, ask, Session.mapResult, h.reference]

end Repository

namespace Release

/-- **Only the sequence of lines that are not blank matters**: repositories whose tag listings
and logs show the same lines list the same tags, have the same lines in their logs, and every
build of theirs is the same in its result, its calls and its warnings. -/
theorem changelog_of_answersAlike {repo repo' : Repository}
    (h : Repository.AnswersAlike repo repo') :
    (∀ dir, repo.tags dir = repo'.tags dir)
      ∧ (∀ dir range, repo.commitLines dir range = repo'.commitLines dir range)
      ∧ ∀ r address, changelog repo r address = changelog repo' r address := by
  refine ⟨h.tags_eq, h.commitLines_eq, fun r address => ?_⟩
  have hrange : r.range repo = r.range repo' := by
    simp only [range, untaggedRange, usableBranch, h.tags_eq, h.hasReference_eq]
  rw [changelog, changelog, hrange]
  simp only [h.commitLines_eq]

open Text in
/-- A tag and a commit with blanks at their ends, once as plain as can be, and once with both
line ends and with blank lines around. -/
theorem changelog_of_answersAlike_of_mixed_ends :
    let repo (listing log : Text) : Repository := fun arguments =>
      if arguments.head? = some "tag".toList then some listing
      else if arguments.head? = some "log".toList then some log
      else none
    let plain := repo " v1\nv0 ".toList "a1||Fix it||Jo \nb2||x||Al  ".toList
    let mixed := repo "\t\r\n v1\r\n\nv0 \n".toList
      "a1||Fix it||Jo \r\n \r\nb2||x||Al  \n\n\u3000".toList
    (∀ dir, plain.tags dir = mixed.tags dir)
      ∧ (mixed.tags .current).result = ["v1".toList, "v0".toList]
      ∧ (∀ dir range, plain.commitLines dir range = mixed.commitLines dir range)
      ∧ (∀ r address, changelog plain r address = changelog mixed r address)
      ∧ (changelog mixed { tag := "v1".toList } []).result.commits = 2 := by
  intro repo plain mixed
  have hnames : ∀ l ∈ [" v1".toList, "v0 ".toList], IsLine l := by
    unfold IsLine
    decide
  have hrows : ∀ l ∈ ["a1||Fix it||Jo ".toList, "b2||x||Al  ".toList], IsLine l := by
    unfold IsLine
    decide
  have hblank : ∀ b ∈ [[], " ".toList, "\t".toList, "\u3000".toList], AllBlank b := by decide
  have hlisting : ∀ listing log, repo listing log Repository.tagArguments = some listing :=
    fun _ _ => rfl
  have hlog : ∀ listing log range, repo listing log (CommitRange.logArguments range) = some log :=
    fun _ _ _ => rfl
  have hprobe : ∀ listing log reference,
      repo listing log (Repository.probeArguments reference) = none := fun _ _ _ => rfl
  have h : Repository.AnswersAlike plain mixed := by
    refine ⟨?_, fun _ => (hprobe _ _ _).trans (hprobe _ _ _).symm, fun range => ?_⟩
    · have hs := Renders.blank .returnFeed (hblank "\t".toList (by decide))
        (.line " v1".toList .returnFeed (.blank .feed (hblank [] (by decide))
          (.line "v0 ".toList .feed (.openBlank (hblank [] (by decide))))))
      simp only [plain, mixed, hlisting]
      exact .renders hnames (.line " v1".toList .feed (.openLine "v0 ".toList)) hs
    · have hs := Renders.line "a1||Fix it||Jo ".toList .returnFeed
        (.blank .returnFeed (hblank " ".toList (by decide))
          (.line "b2||x||Al  ".toList .feed (.blank .feed (hblank [] (by decide))
            (.openBlank (hblank "\u3000".toList (by decide))))))
      simp only [plain, mixed, hlog]
      exact .renders hrows (.line _ .feed (.openLine _)) hs
  obtain ⟨htags, hlines, hbuilds⟩ := changelog_of_answersAlike h
  exact ⟨htags, by decide, hlines, hbuilds, by decide +kernel⟩

end Release

end ReleaseNotes
