/-
ReleaseNotes/Proofs/ReportedLines.lean

The lines in which a run reports how it goes.

Words and counts are told in colour.  Neither holds the escape character, so there is nothing
to replace in them and a colour is its two codes with the text in between:

    c.paint s = c.opening ++ s ++ restoring      for s without an escape.

Only what describes a range may hold one, because it is made of names.

Main results: the lines that begin a run and that end it, as they are printed
(`startLine_eq`, `successLine_eq_report`, `failureLines_eq`).
-/
import ReleaseNotes.CommandLine.Run
import ReleaseNotes.Proofs.WrittenWhole

namespace ReleaseNotes

/-! ### What was found -/

namespace Changelog

/-- The line that reports `n` commits of a range, of which `k` have no entry. -/
def report (n k : Nat) (range : CommitRange) : Text :=
  "Found ".toList ++ ("\x1b[33m".toList ++ Number.digitsOf n ++ "\x1b[39m".toList)
    ++ (if n = 1 then " commit".toList else " commits".toList)
    ++ " in ".toList ++ Colour.cyan.paint range.describe
    ++ (if k = 0 then []
      else "\x1b[90m (".toList ++ Number.digitsOf k ++ " skipped)\x1b[39m".toList)

theorem escape_not_mem_digitsOf (n : Nat) : Colour.escape ∉ Number.digitsOf n := fun h =>
  absurd (Number.isDigit_of_mem_digitsOf h) (by decide)

theorem paint_count (n : Nat) : Colour.yellow.paint (Number.digitsOf n)
    = "\x1b[33m".toList ++ Number.digitsOf n ++ "\x1b[39m".toList :=
  Colour.paint_of_escape_not_mem .yellow (escape_not_mem_digitsOf n)

theorem paint_skipped (k : Nat) :
    Colour.gray.paint (" (".toList ++ Number.digitsOf k ++ " skipped)".toList)
      = "\x1b[90m (".toList ++ Number.digitsOf k ++ " skipped)\x1b[39m".toList := by
  have hescape : Colour.escape ∉ " (".toList ++ Number.digitsOf k ++ " skipped)".toList := by
    have hdigits := escape_not_mem_digitsOf k
    simpa [Colour.escape] using hdigits
  have hopening : Colour.gray.opening ++ " (".toList = "\x1b[90m (".toList := rfl
  have hrestoring : " skipped)".toList ++ Colour.restoring = " skipped)\x1b[39m".toList := rfl
  rw [Colour.paint_of_escape_not_mem .gray hescape, ← hopening, ← hrestoring]
  simp only [List.append_assoc]

/-- The line of `k` of `n` commits, however the two counts are written and compared. -/
theorem summaryLine_eq_report (n k : Nat) (range : CommitRange) :
    summaryLine (Number.digitsOf n) (n = 1) range
      (if k = 0 then none else some (Number.digitsOf k)) = report n k range := by
  have hcount := paint_count n
  have hskipped := paint_skipped k
  unfold summaryLine report
  by_cases hk : k = 0
  · simp only [if_pos hk, decide_eq_true_eq, hcount]
  · simp only [if_neg hk, decide_eq_true_eq, hcount, hskipped]

theorem summary_eq_report (c : Changelog) : c.summary = report c.commits c.skipped c.range :=
  summaryLine_eq_report c.commits c.skipped c.range

end Changelog

/-! ### How a run begins and ends -/

namespace CommandLine

/-- **A run begins with a line in which only the mark is coloured.** -/
theorem startLine_eq : startLine = "\x1b[33m-\x1b[39m Reading git history...\n".toList := by
  decide +kernel

/-- **A run that went well ends with a green mark and what was found.** -/
theorem successLine_eq_report (c : Changelog) : successLine c = "\x1b[32m✔\x1b[39m ".toList
    ++ Changelog.report c.commits (c.commits - c.entries.length) c.range ++ ['\n'] := by
  have hmark : Colour.green.paint "✔".toList ++ [' '] = "\x1b[32m✔\x1b[39m ".toList := by
    decide +kernel
  have hskipped : c.commits - c.entries.length = c.skipped := rfl
  rw [hskipped, ← c.summary_eq_report, ← hmark, successLine, List.append_assoc]
  rfl

/-- **A run that was stopped ends with a red mark and, behind an empty line, what stopped
it.** -/
theorem failureLines_eq (f : Fault) : failureLines f
    = "\x1b[31m✖\x1b[39m Failed\n\x1b[91m\nError:\x1b[39m ".toList ++ f.message ++ ['\n'] := by
  have hmarks : Colour.red.paint "✖".toList ++ " Failed\n".toList
      ++ Colour.brightRed.paint "\nError:".toList ++ [' ']
      = "\x1b[31m✖\x1b[39m Failed\n\x1b[91m\nError:\x1b[39m ".toList := by decide +kernel
  rw [← hmarks, failureLines]
  simp only [List.append_assoc, List.singleton_append]

end CommandLine

end ReleaseNotes
