/-
ReleaseNotes/Proofs/CountedLines.lean

Where the lines of a log go.

A log is cut into lines, blank lines are dropped, and the others are counted.  Entries are
collected from the same lines, but apart from the count: a line that lists no commit has none,
and neither has a commit whose message gives no title.  So the count is made up of entries and
of lines that are skipped,

    commits = entries + skipped,

and what is reported as skipped is the difference.  Blanks at the end of the log, which are lost
before it is cut, hold no line that counts, and no line is skipped or kept for their sake.

Main results: a text is cut into its lines in one way (`isCut_iff`), every line that is not
blank has an entry or is skipped (`length_filter_eq_add`), and a changelog accounts for all of
them (`changelog_accounts`).
-/
import ReleaseNotes.Proofs.BuildQueries
import ReleaseNotes.Proofs.RenderedLines
import ReleaseNotes.Proofs.ReportedLines

namespace ReleaseNotes

namespace Text

variable {s : Text} {ls : List Text}

/-! ### The lines of a text -/

/-- `IsCut s ls`: cut at its line ends, the text `s` has the lines `ls`.  What stands behind
the last line end is a line too, and may be empty. -/
inductive IsCut : Text → List Text → Prop
  | last {l : Text} : '\n' ∉ l → IsCut l [l]
  | feed {l s : Text} {ls : List Text} : '\n' ∉ l → l.getLast? ≠ some '\r' → IsCut s ls →
    IsCut (l ++ '\n' :: s) (l :: ls)
  | returnFeed {l s : Text} {ls : List Text} : '\n' ∉ l → IsCut s ls →
    IsCut (l ++ '\r' :: '\n' :: s) (l :: ls)

/-- The first line feed of a text ends its first line. -/
theorem lines_of_lineFeed {l : Text} (h : '\n' ∉ l) (s : Text) :
    lines (l ++ '\n' :: s) = chopReturn l :: lines s := by
  rw [lines_append_lineFeed, List.splitOn_eq_singleton h]
  rfl

theorem chopReturn_concat (l : Text) : chopReturn (l ++ ['\r']) = l := by
  simp [chopReturn]

theorem IsCut.eq_lines (h : IsCut s ls) : ls = lines s := by
  induction h with
  | last hl =>
    rw [lines, List.splitOn_eq_singleton hl]
    rfl
  | feed hl hr _ ih => rw [lines_of_lineFeed hl, chopReturn, if_neg hr, ih]
  | @returnFeed l s ls hl _ ih =>
    have hcut : l ++ '\r' :: '\n' :: s = l ++ ['\r'] ++ '\n' :: s := by
      rw [List.append_assoc]
      rfl
    have hline : '\n' ∉ l ++ ['\r'] := by simp [hl]
    rw [hcut, lines_of_lineFeed hline, chopReturn_concat, ih]

/-- Every text can be cut, at its first line feed and then behind it. -/
theorem exists_isCut (s : Text) : ∃ ls, IsCut s ls := by
  by_cases hs : '\n' ∈ s
  · obtain ⟨l, t, rfl, hl⟩ := List.eq_append_cons_of_mem hs
    obtain ⟨ls, ht⟩ := exists_isCut t
    by_cases hr : l.getLast? = some '\r'
    · -- the carriage return belongs to the line end
      have hcut : l ++ '\n' :: t = l.dropLast ++ '\r' :: '\n' :: t := by
        rw [← List.dropLast_append_getLast? '\r' hr, List.dropLast_concat, List.append_assoc]
        rfl
      have hline : '\n' ∉ l.dropLast := fun hn => hl (List.dropLast_subset l hn)
      rw [hcut]
      exact ⟨_, .returnFeed hline ht⟩
    · exact ⟨_, .feed hl hr ht⟩
  · exact ⟨_, .last hs⟩
termination_by s.length

/-- **A text is cut into its lines in one way.** -/
theorem isCut_iff : IsCut s ls ↔ ls = lines s := by
  refine ⟨IsCut.eq_lines, ?_⟩
  rintro rfl
  obtain ⟨ls, h⟩ := exists_isCut s
  exact h.eq_lines ▸ h

end Text

/-! ### Lines without an entry -/

/-- No entry comes of a line: it lists no commit, or one whose message gives no title. -/
def IsSkipped (line : Text) : Prop :=
  Commit.ofLine? line = none
    ∨ ∃ c, Commit.ofLine? line = some c ∧ Title.ofMessage c.message = []

theorem Entry.ofLine?_eq_none_iff {line : Text} : ofLine? line = none ↔ IsSkipped line := by
  unfold ofLine? IsSkipped
  cases hc : Commit.ofLine? line with
  | none => simp
  | some c => simp [ofCommit?]

instance (line : Text) : Decidable (IsSkipped line) :=
  decidable_of_iff _ Entry.ofLine?_eq_none_iff

/-- **Lines that are not blank have an entry or are skipped.** -/
theorem Entry.length_filter_eq_add (ls : List Text) :
    (ls.filter (¬ Text.AllBlank ·)).length
      = (ofLines (ls.filter (¬ Text.AllBlank ·))).length
        + ls.countP fun l => ¬ Text.AllBlank l ∧ IsSkipped l := by
  have hskipped : (ls.filter (¬ Text.AllBlank ·)).countP (fun l => ¬ (ofLine? l).isSome = true)
      = ls.countP fun l => ¬ Text.AllBlank l ∧ IsSkipped l := by
    rw [List.countP_filter]
    refine List.countP_congr fun l _ => ?_
    simp [← ofLine?_eq_none_iff, and_comm]
  rw [ofLines, List.length_filterMap_eq_countP, ← hskipped]
  exact List.length_eq_countP_add_countP _

/-! ### The lines of a log -/

namespace Repository

variable {repo : Repository} {dir : Directory} {range : CommitRange} {ls : List Text}

/-- The lines of what a call shows: those of the text that git prints, or none when git
fails. -/
inductive ShowsLines (repo : Repository) (c : Call) : List Text → Prop
  | printed {log : Text} {ls : List Text} : repo.Answers c log → Text.IsCut log ls →
    ShowsLines repo c ls
  | failed : (∀ log, ¬ repo.Answers c log) → ShowsLines repo c []

theorem exists_showsLines (repo : Repository) (c : Call) : ∃ ls, repo.ShowsLines c ls := by
  by_cases h : ∃ log, repo.Answers c log
  · obtain ⟨log, ha⟩ := h
    obtain ⟨ls, hls⟩ := Text.exists_isCut log
    exact ⟨ls, .printed ha hls⟩
  · exact ⟨[], .failed (not_exists.1 h)⟩

theorem result_commitLines_of_fails
    (h : ∀ log, ¬ repo.Answers ⟨range.logArguments, dir⟩ log) :
    (repo.commitLines dir range).result = [] := by
  have hres : (repo.commitLines dir range).result
      = ((repo.ask dir range.logArguments).result.map commitLinesOf).getD [] := rfl
  rw [hres, result_ask_eq_none h]
  rfl

theorem commitLinesOf_of_isCut {log : Text} (h : Text.IsCut log ls) :
    commitLinesOf log = ls.filter (¬ Text.AllBlank ·) := by
  rw [commitLinesOf, ← h.eq_lines]
  exact List.filter_congr fun l _ => decide_eq_decide.2 (not_congr Text.trim_eq_nil_iff)

/-- What is read of a log has the count and the entries of the lines that are not blank: the
blanks at the end of the log, which are lost, make no difference to either. -/
theorem commitLines_of_showsLines (h : repo.ShowsLines ⟨range.logArguments, dir⟩ ls) :
    (repo.commitLines dir range).result.length = (ls.filter (¬ Text.AllBlank ·)).length
      ∧ Entry.ofLines (repo.commitLines dir range).result
        = Entry.ofLines (ls.filter (¬ Text.AllBlank ·)) := by
  cases h with
  | @printed log ls ha hls =>
    -- both are read off the solid lines, which are the same without the blanks at the end
    rw [result_commitLines ha, ← commitLinesOf_of_isCut hls]
    exact ⟨by rw [length_commitLinesOf, length_commitLinesOf, Text.solidLines_trimEnd],
      by rw [ofLines_commitLinesOf, ofLines_commitLinesOf, Text.solidLines_trimEnd]⟩
  | failed hf =>
    rw [result_commitLines_of_fails hf]
    exact ⟨rfl, rfl⟩

end Repository

/-! ### Counts as numbers of the format -/

namespace Number

variable {m n : Nat}

/-- The difference of two counts of up to 53 bits is not rounded. -/
theorem minus_of_lt (hle : m ≤ n) (h : n < 2 ^ precision) : minus n m = (n - m : Nat) := by
  have hread : nearest? ((n : Rat) - m) = some ((n - m : Nat) : Rat) := by
    rw [← Nat.cast_sub hle]
    exact readsAs_self_of_lt (Nat.lt_of_le_of_lt (Nat.sub_le n m) h)
  rw [minus, hread, Option.getD_some]

theorem decimalMagnitude_of_lt (hn : 0 < n) (h : n < 2 ^ precision) :
    decimalMagnitude (n : Rat) = n := by
  have hself := readsAs_self_of_lt h
  -- no rounder number reads as `n`, so the shortest numeral that does is its own
  obtain ⟨c, k, hs, hshort⟩ := exists_isShortest hn hself
  have hvalue : c * 10 ^ k = n := (hshort.eq_iff hn hself).2 (isRoundest_of_lt h)
  have hnum : (n : Rat).num.natAbs = n := by simp
  have hden : (n : Rat).den = 1 := by simp
  have hneg : (-(k : Int)).toNat = 0 := by omega
  simp only [decimalMagnitude, hnum, hden, hs, hneg, Int.toNat_natCast, Nat.pow_eq, Nat.pow_zero,
    Rat.mkRat_one]
  exact_mod_cast hvalue

/-- Of all counts only one is spoken of in the singular. -/
theorem isSingular_of_lt (h : n < 2 ^ precision) : isSingular (n : Rat) = decide (n = 1) := by
  rcases Nat.eq_zero_or_pos n with rfl | hn
  · rfl
  · -- between the bounds of the singular there is no whole number but 1
    have hlower : mkRat 9995 10000 ≤ 1 := by decide +kernel
    have hupper : 1 < mkRat 10005 10000 ∧ mkRat 10005 10000 ≤ 2 := by decide +kernel
    have hbelow : mkRat 9995 10000 ≤ (n : Rat) := le_trans hlower (by exact_mod_cast hn)
    have habove : (n : Rat) < mkRat 10005 10000 ↔ n = 1 := by
      constructor
      · intro hlt
        have htwo : (n : Rat) < 2 := lt_of_lt_of_le hlt hupper.2
        have htwo : n < 2 := by exact_mod_cast htwo
        omega
      · rintro rfl
        exact_mod_cast hupper.1
    have hzero : (n : Rat).num ≠ 0 := by simpa using Nat.ne_of_gt hn
    simp only [isSingular, decimalMagnitude_of_lt hn h, bne_iff_ne.2 hzero, hbelow, habove,
      decide_true, Bool.true_and]

end Number

/-! ### Counts of a changelog -/

namespace Changelog

/-- What is counted of a changelog. -/
def tally (c : Changelog) : Tally :=
  ⟨c.commits, c.entries.length, c.range⟩

/-- Counts of up to 53 bits are reported alike, as whole numbers and as numbers of the format. -/
theorem summary_tally_of_lt {c : Changelog} (hle : c.entries.length ≤ c.commits)
    (h : c.commits < 2 ^ Number.precision) : c.tally.summary = c.summary := by
  have hskipped : c.skipped < 2 ^ Number.precision := Nat.lt_of_le_of_lt (Nat.sub_le _ _) h
  have hminus : c.tally.skipped = (c.skipped : Nat) := Number.minus_of_lt hle h
  have hcommits : c.tally.commits = (c.commits : Nat) := rfl
  rw [Tally.summary, hminus, hcommits, Number.render_of_lt h, Number.render_of_lt hskipped,
    Number.isSingular_of_lt h, summary]
  congr 1
  by_cases hk : c.skipped = 0
  · simp [hk]
  · simp [hk, Nat.pos_of_ne_zero hk]

/-- `c.Accounts ls`: of the lines `ls` of a log, those that are not blank are the commits of
`c`, and as many of them are skipped as `c` has fewer entries than commits. -/
structure Accounts (c : Changelog) (ls : List Text) : Prop where
  commits_eq : c.commits = ls.countP (¬ Text.AllBlank ·)
  length_entries_le : c.entries.length ≤ c.commits
  skipped_eq : c.commits - c.entries.length
    = ls.countP fun l => ¬ Text.AllBlank l ∧ IsSkipped l

end Changelog

/-! ### Changelogs and their logs -/

namespace Release

theorem accounts_changelog (repo : Repository) (r : Release) (address : Text) {ls : List Text}
    (h : repo.ShowsLines (r.logCall (r.range repo).result) ls) :
    (r.changelog repo address).result.Accounts ls := by
  obtain ⟨hcommits, hentries⟩ := Repository.commitLines_of_showsLines h
  have hc : (r.changelog repo address).result.commits
      = (ls.filter (¬ Text.AllBlank ·)).length := hcommits
  have he : (r.changelog repo address).result.entries
      = Entry.ofLines (ls.filter (¬ Text.AllBlank ·)) := hentries
  -- count and entries are taken apart; both are of the lines that are not blank
  have hsum := Entry.length_filter_eq_add ls
  constructor
  · rw [hc, List.countP_eq_length_filter]
  · rw [hc, he, hsum]
    exact Nat.le_add_right _ _
  · rw [hc, he, hsum]
    exact Nat.add_sub_cancel_left _ _

/-- **A changelog accounts for every line of its log.**  The log has lines, and whichever they
are, each that is not blank is counted, the entries are not more than that, and what is
reported as skipped are the lines that have no entry.  As numbers of the format the counts are
reported in the same words. -/
theorem changelog_accounts (repo : Repository) (r : Release) (address : Text) :
    let built := (r.changelog repo address).result
    (∃ ls, repo.ShowsLines (r.logCall built.range) ls)
      ∧ ∀ ls, repo.ShowsLines (r.logCall built.range) ls →
        built.Accounts ls
          ∧ built.summary = Changelog.report built.commits
              (ls.countP fun l => ¬ Text.AllBlank l ∧ IsSkipped l) built.range
          ∧ (built.commits < 2 ^ Number.precision → built.tally.summary = built.summary) := by
  intro built
  refine ⟨repo.exists_showsLines _, fun ls hls => ?_⟩
  have haccounts : built.Accounts ls := r.accounts_changelog repo address hls
  refine ⟨haccounts, ?_, Changelog.summary_tally_of_lt haccounts.length_entries_le⟩
  rw [← haccounts.skipped_eq]
  exact built.summary_eq_report

/-- A line that lists no commit, and a commit with nothing but a reference for its subject. -/
theorem changelog_accounts_of_skipped :
    let ls : List Text :=
      ["a1||Fix it (#7)||Jo".toList, [' '], "no commit".toList, "b2||(#8)||Jo".toList, []]
    let repo : Repository := fun arguments =>
      if arguments.head? = some "log".toList then
        some "a1||Fix it (#7)||Jo\r\n \nno commit\nb2||(#8)||Jo\n".toList
      else some "v1\nv0".toList
    let r : Release := { tag := "v1".toList }
    let built := (r.changelog repo Markdown.defaultAddress).result
    repo.ShowsLines (r.logCall built.range) ls ∧ built.Accounts ls ∧ built.commits = 3
      ∧ built.entries = [⟨"Fix it".toList, "Jo".toList, some "7".toList⟩]
      ∧ built.tally.summary = ("Found \x1b[33m3\x1b[39m commits in \x1b[36mv0..v1\x1b[39m"
        ++ "\x1b[90m (2 skipped)\x1b[39m").toList := by
  intro ls repo r built
  have hlines : repo.ShowsLines (r.logCall built.range) ls :=
    .printed ⟨by decide, rfl⟩ (Text.isCut_iff.2 (by decide))
  obtain ⟨haccounts, hsummary, htally⟩ :=
    (changelog_accounts repo r Markdown.defaultAddress).2 ls hlines
  have hcommits : built.commits = 3 := haccounts.commits_eq.trans (by decide)
  have hskipped : (ls.countP fun l => ¬ Text.AllBlank l ∧ IsSkipped l) = 2 := by decide
  refine ⟨hlines, haccounts, hcommits, by decide, ?_⟩
  rw [htally (by rw [hcommits]; decide), hsummary, hcommits, hskipped]
  rfl

end Release

end ReleaseNotes
