/-
ReleaseNotes/Proofs/JoinedLogs.lean

Logs that are put together.

A log may begin and end with blank characters, and its lines may end in several ways.
What is read of a log depends only on its solid lines: the lines that are not blank,
each without the blanks at its end.  Blanks at the end of the log, and a carriage
return in front of a line feed, change none of them, and a line feed between two logs
puts their solid lines one behind the other:

    solidLines (a ++ '\n' :: b) = solidLines a ++ solidLines b.

A line gives the same commit with and without the blanks at its end, since the author
stands there and is trimmed.

Main results: what is read of a log depends on its solid lines (`map_trimEnd_commitLinesOf`,
`ofLine?_trimEnd`), and the changelog of two logs in one has the entries and the commits
of both (`changelog_append_log`).
-/
import Mathlib.Data.List.Induction
import ReleaseNotes.Proofs.PrintedLog

namespace ReleaseNotes

namespace Text

variable {s blanks : Text} {c : Char}

/-! ### Blanks at the end of a text -/

theorem trimEnd_append_of_blank (h : ∀ c ∈ blanks, isBlank c = true) (s : Text) :
    trimEnd (s ++ blanks) = trimEnd s := by
  have hr : ∀ c ∈ blanks.reverse, isBlank c = true := fun c hc => h c (List.mem_reverse.1 hc)
  rw [trimEnd, trimEnd, List.reverse_append, List.dropWhile_append_of_pos hr]

theorem trim_append_of_blank (h : ∀ c ∈ blanks, isBlank c = true) (s : Text) :
    trim (s ++ blanks) = trim s := by
  by_cases hs : ∀ c ∈ s, isBlank c = true
  · -- the two texts are blank
    rw [trim_eq_nil_iff.2 hs, trim_eq_nil_iff, List.forall_mem_append]
    exact ⟨hs, h⟩
  · have hne : ¬ (s.dropWhile isBlank).isEmpty = true := fun he =>
      hs (trimStart_eq_nil_iff.1 (List.isEmpty_iff.1 he))
    have hstart : trimStart (s ++ blanks) = trimStart s ++ blanks := by
      rw [trimStart, List.dropWhile_append, if_neg hne]
      rfl
    rw [trim, hstart, trimEnd_append_of_blank h, trim]

/-- A carriage return that ends a line is one of the blanks at its end. -/
theorem trimEnd_chopReturn (line : Text) : trimEnd (chopReturn line) = trimEnd line := by
  unfold chopReturn
  split
  · rename_i hl
    have hr : ∀ c ∈ ['\r'], isBlank c = true := List.forall_mem_singleton.2 rfl
    rw [← trimEnd_append_of_blank hr, List.dropLast_append_getLast? '\r' hl]
  · rfl

theorem map_trimEnd_chopReturns (pieces : List Text) :
    (chopReturns pieces).map trimEnd = pieces.map trimEnd := by
  induction pieces with
  | nil => rfl
  | cons piece rest ih =>
    cases rest with
    | nil => rfl
    | cons next rest =>
      rw [chopReturns, List.map_cons, ih, trimEnd_chopReturn, List.map_cons (l := next :: rest)]
      simp

/-! ### Solid lines -/

/-- The lines of a text that are not blank, each without the blanks at its end. -/
def solidLines (s : Text) : List Text :=
  ((s.splitOn '\n').map trimEnd).filter (· ≠ [])

/-- A line feed puts the solid lines of two texts one behind the other. -/
theorem solidLines_append (s t : Text) :
    solidLines (s ++ '\n' :: t) = solidLines s ++ solidLines t := by
  have hsplit : (s ++ '\n' :: t).splitOn '\n' = s.splitOn '\n' ++ t.splitOn '\n' :=
    List.splitOnP_append_cons s t rfl
  rw [solidLines, hsplit, List.map_append, List.filter_append]
  rfl

/-- A further character belongs to the last piece, unless it is a line feed. -/
theorem exists_splitOn_concat (hc : c ≠ '\n') (s : Text) : ∃ front last,
    s.splitOn '\n' = front ++ [last] ∧ (s ++ [c]).splitOn '\n' = front ++ [last ++ [c]] := by
  induction s with
  | nil => exact ⟨[], [], rfl, List.splitOn_eq_singleton (by simpa using Ne.symm hc)⟩
  | cons d s ih =>
    obtain ⟨front, last, hs, ht⟩ := ih
    rw [List.splitOn_eq_splitOnP] at hs ht
    simp only [List.splitOn_eq_splitOnP, List.cons_append, List.splitOnP_cons_eq_if_modifyHead,
      hs, ht]
    by_cases hd : d = '\n'
    · exact ⟨[] :: front, last, by simp [hd], by simp [hd]⟩
    · cases front with
      | nil => exact ⟨[], d :: last, by simp [hd], by simp [hd]⟩
      | cons piece front => exact ⟨(d :: piece) :: front, last, by simp [hd], by simp [hd]⟩

theorem solidLines_concat (hc : isBlank c = true) (s : Text) :
    solidLines (s ++ [c]) = solidLines s := by
  by_cases hn : c = '\n'
  · rw [hn, solidLines_append, show solidLines [] = [] from rfl, List.append_nil]
  · obtain ⟨front, last, hs, ht⟩ := exists_splitOn_concat hn s
    have hlast : trimEnd (last ++ [c]) = trimEnd last :=
      trimEnd_append_of_blank (by simpa using hc) last
    rw [solidLines, solidLines, hs, ht, List.map_append, List.map_append, List.map_singleton,
      List.map_singleton, hlast]

theorem solidLines_append_of_blank (h : ∀ c ∈ blanks, isBlank c = true) (s : Text) :
    solidLines (s ++ blanks) = solidLines s := by
  induction blanks using List.reverseRecOn with
  | nil => rw [List.append_nil]
  | append_singleton blanks c ih =>
    obtain ⟨hb, hc⟩ := List.forall_mem_append.1 h
    rw [← List.append_assoc, solidLines_concat (hc c List.mem_cons_self), ih hb]

/-- Blanks at the end of a text are no part of its solid lines. -/
theorem solidLines_trimEnd (s : Text) : solidLines (trimEnd s) = solidLines s := by
  obtain ⟨blanks, hs, hb⟩ := exists_trimEnd_append s
  rw [← solidLines_append_of_blank hb, ← hs]

end Text

/-! ### What is read of a line -/

namespace Commit

variable {line blanks : Text}

theorem bar_not_mem_of_blank (h : ∀ c ∈ blanks, Text.isBlank c = true) : '|' ∉ blanks :=
  fun hm => absurd (h '|' hm) (by decide)

/-- Behind a text without bars there is no further separator, nor does one begin at
the end of what stands in front. -/
theorem separator_isPrefixOf_append (h : '|' ∉ blanks) (s : Text) :
    separator.isPrefixOf (s ++ blanks) = separator.isPrefixOf s := by
  match s with
  | [] =>
    cases blanks with
    | nil => rfl
    | cons c rest =>
      have hc : '|' ≠ c := List.ne_of_not_mem_cons h
      simp [separator, List.isPrefixOf, hc]
  | [c] =>
    cases blanks with
    | nil => rfl
    | cons d rest =>
      have hd : '|' ≠ d := List.ne_of_not_mem_cons h
      simp [separator, List.isPrefixOf, hd]
  | c :: d :: s => rfl

theorem firstIndex?_append_of_bar_not_mem (h : '|' ∉ blanks) (s : Text) :
    Text.firstIndex? separator (s ++ blanks) = Text.firstIndex? separator s := by
  induction s with
  | nil =>
    refine Option.eq_none_iff_forall_ne_some.2 fun i hi => ?_
    obtain ⟨⟨t, ht⟩, -⟩ := Text.firstIndex?_eq_some hi
    have hm : '|' ∈ blanks.drop i := ht ▸ List.mem_cons_self
    exact h (List.mem_of_mem_drop hm)
  | cons c s ih =>
    rw [List.cons_append, Text.firstIndex?, ← List.cons_append, separator_isPrefixOf_append h, ih]
    rfl

theorem lastIndex?_append_of_bar_not_mem (h : '|' ∉ blanks) (s : Text) :
    Text.lastIndex? separator (s ++ blanks) = Text.lastIndex? separator s := by
  induction s with
  | nil =>
    refine Option.eq_none_iff_forall_ne_some.2 fun i hi => ?_
    obtain ⟨⟨t, ht⟩, -⟩ := Text.lastIndex?_eq_some hi
    have hm : '|' ∈ blanks.drop i := ht ▸ List.mem_cons_self
    exact h (List.mem_of_mem_drop hm)
  | cons c s ih =>
    rw [List.cons_append, Text.lastIndex?, ← List.cons_append, separator_isPrefixOf_append h, ih]
    rfl

/-- A separator ends where the line ends at the latest. -/
theorem length_le_of_separator {i : Nat} (h : separator <+: line.drop i) :
    i + separator.length ≤ line.length := by
  have hl := h.length_le
  rw [List.length_drop] at hl
  have : separator.length = 2 := rfl
  omega

/-- Blanks at the end of a line are no part of its commit. -/
theorem ofLine?_append_of_blank (h : ∀ c ∈ blanks, Text.isBlank c = true) (line : Text) :
    ofLine? (line ++ blanks) = ofLine? line := by
  have hbar := bar_not_mem_of_blank h
  rw [ofLine?, firstIndex?_append_of_bar_not_mem hbar, lastIndex?_append_of_bar_not_mem hbar,
    ofLine?]
  cases hf : Text.firstIndex? separator line with
  | none => rfl
  | some first =>
    cases hl : Text.lastIndex? separator line with
    | none => rfl
    | some last =>
      have hfirst := length_le_of_separator (Text.firstIndex?_eq_some hf).1
      have hlast := length_le_of_separator (Text.lastIndex?_eq_some hl).1
      -- only the author gets the blanks, and loses them again
      have hash : (line ++ blanks).take first = line.take first :=
        List.take_append_of_le_length (by omega)
      have message : (line ++ blanks).take last = line.take last :=
        List.take_append_of_le_length (by omega)
      have author : Text.trim ((line ++ blanks).drop (last + separator.length))
          = Text.trim (line.drop (last + separator.length)) := by
        rw [List.drop_append_of_le_length hlast, Text.trim_append_of_blank h]
      simp only [hash, message, author]

end Commit

theorem Entry.ofLine?_trimEnd (line : Text) : ofLine? (Text.trimEnd line) = ofLine? line := by
  obtain ⟨blanks, hs, hb⟩ := Text.exists_trimEnd_append line
  rw [ofLine?, ← Commit.ofLine?_append_of_blank hb, ← hs]
  rfl

/-! ### What is read of a log -/

namespace Repository

/-- The lines that are read of a log are its solid lines, but for blanks at their ends. -/
theorem map_trimEnd_commitLinesOf (log : Text) :
    (commitLinesOf log).map Text.trimEnd = Text.solidLines log := by
  have hblank : ∀ line : Text, decide (Text.trim line ≠ []) = decide (Text.trimEnd line ≠ []) := by
    intro line
    simp only [ne_eq, Text.trim_eq_nil_iff, Text.trimEnd_eq_nil_iff]
  have hfilter : commitLinesOf log
      = (Text.lines log).filter ((fun line => decide (line ≠ [])) ∘ Text.trimEnd) :=
    List.filter_congr fun line _ => hblank line
  rw [hfilter, ← List.filter_map, Text.lines, Text.map_trimEnd_chopReturns]
  rfl

/-- As many commits are counted as there are solid lines. -/
theorem length_commitLinesOf (log : Text) :
    (commitLinesOf log).length = (Text.solidLines log).length := by
  rw [← map_trimEnd_commitLinesOf, List.length_map]

/-- The entries of a log are those of its solid lines. -/
theorem ofLines_commitLinesOf (log : Text) :
    Entry.ofLines (commitLinesOf log) = Entry.ofLines (Text.solidLines log) := by
  rw [← map_trimEnd_commitLinesOf, Entry.ofLines, Entry.ofLines, List.filterMap_map]
  exact List.filterMap_congr fun line _ => (Entry.ofLine?_trimEnd line).symm

/-! ### Repositories with another log -/

/-- The repository that prints `log` when it is asked for a log, and answers all else
as `repo` does. -/
def withLog (repo : Repository) (log : Text) : Repository := fun arguments =>
  if arguments.head? = some "log".toList then some log else repo arguments

variable (repo : Repository) (dir : Directory) (range : CommitRange) (log : Text)

/-- The log that is printed is the one that is read, if git can be started. -/
theorem result_commitLines_withLog :
    ((repo.withLog log).commitLines dir range).result
      = if (⟨range.logArguments, dir⟩ : Call).canStart then commitLinesOf (Text.trimEnd log)
        else [] := by
  by_cases hs : (⟨range.logArguments, dir⟩ : Call).canStart = true
  · rw [if_pos hs]
    exact result_commitLines ⟨hs, rfl⟩
  · rw [if_neg hs]
    simp [commitLines, Session.mapResult, ask, hs]

/-- As many commits are read of a log as it has solid lines. -/
theorem length_commitLines_withLog :
    ((repo.withLog log).commitLines dir range).result.length
      = if (⟨range.logArguments, dir⟩ : Call).canStart then (Text.solidLines log).length
        else 0 := by
  rw [result_commitLines_withLog]
  split
  · rw [length_commitLinesOf, Text.solidLines_trimEnd]
  · rfl

/-- The entries that are read of a log are those of its solid lines. -/
theorem ofLines_commitLines_withLog :
    Entry.ofLines ((repo.withLog log).commitLines dir range).result
      = if (⟨range.logArguments, dir⟩ : Call).canStart then Entry.ofLines (Text.solidLines log)
        else [] := by
  rw [result_commitLines_withLog]
  split
  · rw [ofLines_commitLinesOf, Text.solidLines_trimEnd]
  · rfl

end Repository

namespace Release

/-- **Logs compose**: of two logs with a line feed between them a build reads the entries
of the first and then those of the second, and counts the commits of both.  Its range,
its calls and its warnings are the same for every log. -/
theorem changelog_append_log (repo : Repository) (r : Release) (address a b : Text) :
    let built := fun log => r.changelog (repo.withLog log) address
    (built (a ++ '\n' :: b)).result.entries
        = (built a).result.entries ++ (built b).result.entries
      ∧ (built (a ++ '\n' :: b)).result.commits
        = (built a).result.commits + (built b).result.commits
      ∧ ∀ log log', (built log).result.range = (built log').result.range
        ∧ (built log).calls = (built log').calls
        ∧ (built log).warnings = (built log').warnings := by
  intro built
  -- the range is found without asking for the log, so it is that of `repo`
  have hentries : ∀ log, (built log).result.entries
      = Entry.ofLines ((repo.withLog log).commitLines r.directory (r.range repo).result).result :=
    fun _ => rfl
  have hcommits : ∀ log, (built log).result.commits
      = ((repo.withLog log).commitLines r.directory (r.range repo).result).result.length :=
    fun _ => rfl
  refine ⟨?_, ?_, fun log log' => ⟨rfl, rfl, rfl⟩⟩
  · rw [hentries, hentries, hentries, Repository.ofLines_commitLines_withLog,
      Repository.ofLines_commitLines_withLog, Repository.ofLines_commitLines_withLog,
      Text.solidLines_append, Entry.ofLines_append]
    split <;> rfl
  · rw [hcommits, hcommits, hcommits, Repository.length_commitLines_withLog,
      Repository.length_commitLines_withLog, Repository.length_commitLines_withLog,
      Text.solidLines_append, List.length_append]
    split <;> rfl

end Release

end ReleaseNotes
