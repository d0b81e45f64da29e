/-
ReleaseNotes/Proofs/PrintedLog.lean

The log of a list of commits, and the changelog that is made of it.

Git prints one line for each commit and a line feed between two of them.  What
it prints is trimmed at its end, cut into lines, and blank lines are dropped;
then each line is read on its own.  None of this touches a line whose last
character is not blank, and the line of a commit has such a last character: it
is the author's, or the bar in front of an author without a name.

Main results: solid lines are found again (`commitLinesOf_trimEnd_intercalate`),
and a changelog has exactly the listed commits and their entries, in their order
(`changelog_of_log`).
-/
import Mathlib.Data.List.Basic
import Mathlib.Data.List.TakeWhile
import ReleaseNotes.Changelog
import ReleaseNotes.Proofs.LogLine

namespace ReleaseNotes

namespace Text

/-! ### Blank texts -/

theorem trimStart_eq_nil_iff {s : Text} : trimStart s = [] ↔ ∀ c ∈ s, isBlank c = true :=
  List.dropWhile_eq_nil_iff

theorem trimEnd_eq_nil_iff {s : Text} : trimEnd s = [] ↔ ∀ c ∈ s, isBlank c = true := by
  rw [trimEnd_eq, List.reverse_eq_nil_iff, trimStart_eq_nil_iff]
  simp only [List.mem_reverse]

/-- Nothing is left of a text exactly when all of it is blank. -/
theorem trim_eq_nil_iff {s : Text} : trim s = [] ↔ ∀ c ∈ s, isBlank c = true := by
  rw [trim, trimEnd_eq_nil_iff]
  refine ⟨fun h => ?_, fun h c hc => h c ((List.dropWhile_suffix isBlank).subset hc)⟩
  have hs : trimStart s = [] := by
    cases e : trimStart s with
    | nil => rfl
    | cons c t =>
      have hc := h c (e ▸ List.mem_cons_self)
      rw [head?_trimStart s c (by rw [e]; rfl)] at hc
      cases hc
  exact trimStart_eq_nil_iff.1 hs

/-! ### Solid lines -/

/-- A line that has a last character, which is not blank, and no line feed. -/
def IsSolid (line : Text) : Prop :=
  '\n' ∉ line ∧ ∃ c, line.getLast? = some c ∧ isBlank c = false

variable {ls : List Text}

theorem chopReturn_of_isSolid {line : Text} (h : IsSolid line) : chopReturn line = line := by
  obtain ⟨-, c, hc, hb⟩ := h
  have hr : line.getLast? ≠ some '\r' := by
    rw [hc]
    rintro ⟨⟩
    exact absurd hb (by decide)
  simp [chopReturn, hr]

theorem chopReturns_of_isSolid (h : ∀ l ∈ ls, IsSolid l) : chopReturns ls = ls := by
  induction ls with
  | nil => rfl
  | cons l rest ih =>
    cases rest with
    | nil => rfl
    | cons next rest =>
      rw [chopReturns, chopReturn_of_isSolid (h l (by simp)),
        ih fun k hk => h k (List.mem_cons_of_mem _ hk)]
      simp

/-- Solid lines with line feeds between them are cut into the same lines. -/
theorem lines_intercalate (hne : ls ≠ []) (h : ∀ l ∈ ls, IsSolid l) :
    lines (['\n'].intercalate ls) = ls := by
  rw [lines, List.splitOn_intercalate '\n' (fun l hl => (h l hl).1) hne,
    chopReturns_of_isSolid h]

theorem exists_getLast?_intercalate (hne : ls ≠ []) (h : ∀ l ∈ ls, IsSolid l) :
    ∃ c, (['\n'].intercalate ls).getLast? = some c ∧ isBlank c = false := by
  induction ls with
  | nil => exact absurd rfl hne
  | cons l rest ih =>
    cases rest with
    | nil => simpa using (h l (by simp)).2
    | cons next rest =>
      obtain ⟨c, hc, hb⟩ := ih (by simp) fun k hk => h k (List.mem_cons_of_mem _ hk)
      exact ⟨c, by rw [List.intercalate_cons_cons, List.getLast?_append, hc]; rfl, hb⟩

/-- The end of solid lines is not blank. -/
theorem trimEnd_intercalate (h : ∀ l ∈ ls, IsSolid l) :
    trimEnd (['\n'].intercalate ls) = ['\n'].intercalate ls := by
  by_cases hne : ls = []
  · subst hne
    rfl
  · obtain ⟨c, hc, hb⟩ := exists_getLast?_intercalate hne h
    refine trimEnd_of_getLast? _ fun d hd => ?_
    rw [hc] at hd
    cases hd
    exact hb

theorem trim_ne_nil_of_isSolid {line : Text} (h : IsSolid line) : trim line ≠ [] := by
  obtain ⟨-, c, hc, hb⟩ := h
  intro ht
  have := trim_eq_nil_iff.1 ht c (List.mem_of_getLast? hc)
  rw [hb] at this
  cases this

end Text

namespace Repository

/-- Solid lines are the lines of what git prints, when it prints them with line
feeds between them. -/
theorem commitLinesOf_trimEnd_intercalate {ls : List Text} (h : ∀ l ∈ ls, Text.IsSolid l) :
    commitLinesOf (Text.trimEnd (['\n'].intercalate ls)) = ls := by
  rw [Text.trimEnd_intercalate h, commitLinesOf]
  by_cases hne : ls = []
  · subst hne
    rfl
  · rw [Text.lines_intercalate hne h, List.filter_eq_self]
    intro l hl
    simpa using Text.trim_ne_nil_of_isSolid (h l hl)

/-- `repo` answers a call with `printed`. -/
def Answers (repo : Repository) (c : Call) (printed : Text) : Prop :=
  c.canStart = true ∧ repo c.arguments = some printed

theorem result_commitLines {repo : Repository} {dir : Directory} {range : CommitRange}
    {printed : Text} (h : repo.Answers ⟨range.logArguments, dir⟩ printed) :
    (repo.commitLines dir range).result = commitLinesOf (Text.trimEnd printed) := by
  obtain ⟨hs, hp⟩ := h
  simp only [commitLines, ask, Session.mapResult, hs, if_true]
  rw [hp]
  rfl

end Repository

/-! ### Commits that a log can list -/

namespace Commit

/-- The commits that can be told from their lines.  The message may be any text
without a line feed. -/
structure Listable (c : Commit) : Prop where
  hash_ne_nil : c.hash ≠ []
  bar_not_mem_hash : '|' ∉ c.hash
  trim_hash : Text.trim c.hash = c.hash
  trim_author : Text.trim c.author = c.author
  separator_not_mem_author : ¬ separator <:+: c.author
  head?_author : c.author.head? ≠ some '|'
  lineFeed_not_mem_hash : '\n' ∉ c.hash
  lineFeed_not_mem_message : '\n' ∉ c.message
  lineFeed_not_mem_author : '\n' ∉ c.author

/-- What git prints for a list of commits. -/
def log (cs : List Commit) : Text :=
  ['\n'].intercalate (cs.map toLine)

theorem ofLine?_toLine_of_listable {c : Commit} (h : c.Listable) : ofLine? c.toLine = some c :=
  ofLine?_toLine h.bar_not_mem_hash h.trim_hash h.trim_author h.head?_author
    h.separator_not_mem_author

theorem isSolid_toLine {c : Commit} (h : c.Listable) : Text.IsSolid c.toLine := by
  constructor
  · simp [toLine, separator, h.lineFeed_not_mem_hash, h.lineFeed_not_mem_message,
      h.lineFeed_not_mem_author]
  · cases e : c.author.getLast? with
    | none =>
      have ha : c.author = [] := List.getLast?_eq_none_iff.1 e
      exact ⟨'|', by rw [toLine, ha, List.append_nil, List.getLast?_append]; rfl, by decide⟩
    | some a =>
      refine ⟨a, by rw [toLine, List.getLast?_append, e]; rfl, ?_⟩
      exact Text.getLast?_trim c.author a (by rw [h.trim_author, e])

end Commit

/-! ### The changelog -/

/-- **Nothing is lost, doubled, merged or moved on the way from the log to the
changelog**: when git answers with the log of `cs`, the changelog counts these
commits and has the entries of those with a title, in their order. -/
theorem changelog_of_log (repo : Repository) (r : Release) (address : Text) {cs : List Commit}
    (hcs : ∀ c ∈ cs, c.Listable)
    (hlog : repo.Answers ⟨(r.range repo).result.logArguments, r.directory⟩ (Commit.log cs)) :
    (r.changelog repo address).result.commits = cs.length
      ∧ (r.changelog repo address).result.entries = cs.filterMap Entry.ofCommit? := by
  have hsolid : ∀ l ∈ cs.map Commit.toLine, Text.IsSolid l := by
    intro l hl
    obtain ⟨c, hc, rfl⟩ := List.mem_map.1 hl
    exact Commit.isSolid_toLine (hcs c hc)
  have hlines : (repo.commitLines r.directory (r.range repo).result).result
      = cs.map Commit.toLine := by
    rw [Repository.result_commitLines hlog, Commit.log,
      Repository.commitLinesOf_trimEnd_intercalate hsolid]
  have hentries : Entry.ofLines (cs.map Commit.toLine) = cs.filterMap Entry.ofCommit? := by
    rw [Entry.ofLines, List.filterMap_map]
    refine List.filterMap_congr fun c hc => ?_
    show (Commit.ofLine? c.toLine).bind Entry.ofCommit? = Entry.ofCommit? c
    rw [Commit.ofLine?_toLine_of_listable (hcs c hc), Option.bind_some]
  simp only [Release.changelog, Session.result_bind, Session.result_pure, Changelog.ofLines,
    hlines, hentries, List.length_map, and_self]

/-- Subjects made of bars, and an author without a name. -/
theorem changelog_of_log_of_bars :
    let cs : List Commit :=
      [⟨"a1".toList, "||x||  (#7)\r".toList, "Jo|".toList⟩, ⟨"b2".toList, "|".toList, []⟩]
    let repo : Repository := fun arguments =>
      if arguments.head? = some "log".toList then some (Commit.log cs) else some "v1\nv0".toList
    let r : Release := { tag := "v1".toList }
    (∀ c ∈ cs, c.Listable)
      ∧ repo.Answers ⟨(r.range repo).result.logArguments, r.directory⟩ (Commit.log cs)
      ∧ (r.changelog repo Markdown.defaultAddress).result.commits = 2
      ∧ (r.changelog repo Markdown.defaultAddress).result.entries
        = [⟨"||x||".toList, "Jo|".toList, some "7".toList⟩, ⟨"|".toList, [], none⟩] := by
  intro cs repo r
  have hcs : ∀ c ∈ cs, c.Listable := by
    intro c hc
    rcases List.mem_pair.1 hc with rfl | rfl <;> constructor <;> decide
  have hlog : repo.Answers ⟨(r.range repo).result.logArguments, r.directory⟩ (Commit.log cs) :=
    ⟨by decide, rfl⟩
  obtain ⟨hn, he⟩ := changelog_of_log repo r Markdown.defaultAddress hcs hlog
  refine ⟨hcs, hlog, hn, he.trans ?_⟩
  decide

end ReleaseNotes
