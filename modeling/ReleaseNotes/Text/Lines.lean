/-
ReleaseNotes/Text/Lines.lean

The lines of a text, in the two senses this library needs.

* What a program prints is cut into `lines` at each line feed; a carriage
  return right before the line feed belongs to the line end.  The last piece
  has no line end, so it keeps a final carriage return.
* A message has a `lastLine`: what follows its last line terminator, where a
  lone carriage return and the two Unicode line ends terminate as well.

Main facts: a line feed separates (`lines_append_lineFeed`), no line holds one
(`lineFeed_not_mem_of_mem_lines`), and a message is its front and its last line
(`front_append_lastLine`), the latter without terminators
(`isTerminator_of_mem_lastLine`).
-/
import ReleaseNotes.Text.Basic

namespace ReleaseNotes

namespace Text

/-! ### The lines of printed text -/

/-- A line without the carriage return that ends it, if one does. -/
def chopReturn (line : Text) : Text :=
  if line.getLast? = some '\r' then line.dropLast else line

/-- Pieces between line feeds as lines: each piece but the last ends in front
of a line feed, so it loses one final carriage return. -/
def chopReturns : List Text → List Text
  | [] => []
  | [piece] => [piece]
  | piece :: pieces => chopReturn piece :: chopReturns pieces

/-- The lines of a text, which end at a line feed or at a carriage return and
a line feed. -/
def lines (s : Text) : List Text :=
  chopReturns (s.splitOn '\n')

theorem chopReturns_append {pieces : List Text} (h : pieces ≠ []) (front : List Text) :
    chopReturns (front ++ pieces) = front.map chopReturn ++ chopReturns pieces := by
  induction front with
  | nil => rfl
  | cons piece front ih =>
    obtain ⟨next, rest, e⟩ := List.exists_cons_of_ne_nil (l := front ++ pieces) (by simp [h])
    rw [List.cons_append, e, chopReturns, ← e, ih]
    · rfl
    · simp

theorem splitOn_ne_nil (s : Text) : s.splitOn '\n' ≠ [] :=
  List.splitOnP_ne_nil _ _

/-- A line feed separates the lines before it from those after it. -/
theorem lines_append_lineFeed (s t : Text) :
    lines (s ++ '\n' :: t) = (s.splitOn '\n').map chopReturn ++ lines t := by
  rw [lines, lines, ← chopReturns_append (splitOn_ne_nil t)]
  exact congrArg chopReturns (List.splitOnP_append_cons s t rfl)

theorem subset_of_mem_chopReturns {pieces : List Text} {line : Text}
    (h : line ∈ chopReturns pieces) : ∃ piece ∈ pieces, line ⊆ piece := by
  induction pieces with
  | nil => simp [chopReturns] at h
  | cons piece rest ih =>
    cases rest with
    | nil => exact ⟨piece, by simp, by simp_all [chopReturns]⟩
    | cons next rest =>
      rcases List.mem_cons.1 h with rfl | h
      · refine ⟨piece, by simp, fun c hc => ?_⟩
        unfold chopReturn at hc
        split at hc
        · exact List.dropLast_subset _ hc
        · exact hc
      · obtain ⟨p, hp, hs⟩ := ih h
        exact ⟨p, List.mem_cons_of_mem _ hp, hs⟩

theorem lineFeed_not_mem_of_mem_splitOn {s piece : Text} (h : piece ∈ s.splitOn '\n') :
    '\n' ∉ piece := by
  induction s generalizing piece with
  | nil =>
    rw [List.splitOn_nil] at h
    simp_all
  | cons c s ih =>
    rw [List.splitOn_eq_splitOnP, List.splitOnP_cons_eq_if_modifyHead] at h
    obtain ⟨first, rest, e⟩ := List.exists_cons_of_ne_nil (splitOn_ne_nil s)
    rw [List.splitOn_eq_splitOnP] at e
    have ih' : ∀ p ∈ first :: rest, '\n' ∉ p := fun p hp =>
      ih (by rwa [List.splitOn_eq_splitOnP, e])
    rw [e] at h
    split at h
    · rcases List.mem_cons.1 h with rfl | h
      · simp
      · exact ih' piece h
    · rename_i hc
      rcases List.mem_cons.1 h with rfl | h
      · have hne : c ≠ '\n' := by simpa using hc
        exact List.not_mem_cons_of_ne_of_not_mem (Ne.symm hne) (ih' first (by simp))
      · exact ih' piece (List.mem_cons_of_mem _ h)

/-- No line holds a line feed. -/
theorem lineFeed_not_mem_of_mem_lines {s line : Text} (h : line ∈ lines s) : '\n' ∉ line := by
  obtain ⟨piece, hp, hs⟩ := subset_of_mem_chopReturns h
  exact fun hn => lineFeed_not_mem_of_mem_splitOn hp (hs hn)

/-! ### The last line of a message -/

/-- Whether a character terminates a line of a message. -/
def isTerminator (c : Char) : Bool :=
  c == '\n' || c == '\r' || c == '\u2028' || c == '\u2029'

/-- What follows the last terminator; the whole text when there is none. -/
def lastLine (s : Text) : Text :=
  (s.reverse.takeWhile (!isTerminator ·)).reverse

/-- The text up to its last terminator, which it includes. -/
def front (s : Text) : Text :=
  (s.reverse.dropWhile (!isTerminator ·)).reverse

/-- A message is its front and its last line. -/
@[simp] theorem front_append_lastLine (s : Text) : front s ++ lastLine s = s := by
  rw [front, lastLine, ← List.reverse_append, List.takeWhile_append_dropWhile,
    List.reverse_reverse]

theorem isTerminator_of_mem_lastLine {s : Text} {c : Char} (h : c ∈ lastLine s) :
    isTerminator c = false := by
  simpa using List.all_eq_true.1 List.all_takeWhile c (List.mem_reverse.1 h)

end Text

end ReleaseNotes
