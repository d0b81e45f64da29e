/-
ReleaseNotes/Text/Blank.lean

Blank characters, and texts without their blank margins.

Blank are the tab, the line and page controls U+000A to U+000D, the no-break
mark U+FEFF, the two Unicode line ends and the spaces of Unicode's class Zs.
The next-line control U+0085 and the zero-width spaces are not blank.

Main facts: trimming keeps a text whose ends are not blank
(`trim_of_margins`), its result has no blank first or last character
(`head?_trim`, `getLast?_trim`), so trimming twice is trimming once
(`trim_trim`).
-/
import ReleaseNotes.Text.Basic

namespace ReleaseNotes

namespace Text

/-- Whether a character is blank. -/
def isBlank (c : Char) : Bool :=
  let n := c.toNat
  (0x09 ≤ n && n ≤ 0x0D) || n == 0x20 || n == 0xA0 || n == 0x1680 || (0x2000 ≤ n && n ≤ 0x200A)
    || n == 0x2028 || n == 0x2029 || n == 0x202F || n == 0x205F || n == 0x3000 || n == 0xFEFF

/-- The text from its first character that is not blank. -/
def trimStart (s : Text) : Text :=
  s.dropWhile isBlank

/-- The text up to its last character that is not blank. -/
def trimEnd (s : Text) : Text :=
  (s.reverse.dropWhile isBlank).reverse

/-- The text without its blank margins. -/
def trim (s : Text) : Text :=
  trimEnd (trimStart s)

/-! ### The first and the last character of a trimmed text -/

theorem head?_trimStart (s : Text) (c : Char) (h : (trimStart s).head? = some c) :
    isBlank c = false := by
  unfold trimStart at h
  induction s with
  | nil => simp at h
  | cons d s ih =>
    by_cases hd : isBlank d
    · exact ih (by simpa [List.dropWhile_cons, hd] using h)
    · simp [hd] at h
      simpa [← h] using hd

theorem trimStart_of_head? (s : Text) (h : ∀ c, s.head? = some c → isBlank c = false) :
    trimStart s = s := by
  cases s with
  | nil => rfl
  | cons c s => simp [trimStart, h c rfl]

theorem trimEnd_eq (s : Text) : trimEnd s = (trimStart s.reverse).reverse := rfl

theorem getLast?_trimEnd (s : Text) (c : Char) (h : (trimEnd s).getLast? = some c) :
    isBlank c = false :=
  head?_trimStart s.reverse c (by simpa [trimEnd_eq] using h)

theorem trimEnd_of_getLast? (s : Text) (h : ∀ c, s.getLast? = some c → isBlank c = false) :
    trimEnd s = s := by
  rw [trimEnd_eq, trimStart_of_head?, List.reverse_reverse]
  simpa using h

/-- A text is its part up to the last character that is not blank, and blanks. -/
theorem exists_trimEnd_append (s : Text) :
    ∃ blanks, s = trimEnd s ++ blanks ∧ ∀ c ∈ blanks, isBlank c = true := by
  refine ⟨(s.reverse.takeWhile isBlank).reverse, ?_, ?_⟩
  · rw [trimEnd, ← List.reverse_append, List.takeWhile_append_dropWhile, List.reverse_reverse]
  · intro c hc
    exact List.all_eq_true.1 List.all_takeWhile c (List.mem_reverse.1 hc)

/-- A trimmed text is a part of the text. -/
theorem trim_isInfix (s : Text) : trim s <:+: s := by
  obtain ⟨blanks, hs, -⟩ := exists_trimEnd_append (trimStart s)
  have hfront : trim s <+: trimStart s := ⟨blanks, hs.symm⟩
  exact hfront.isInfix.trans (List.dropWhile_suffix isBlank).isInfix

/-- Dropping blanks at the end leaves a first character that is not blank. -/
theorem head?_trim (s : Text) (c : Char) (h : (trim s).head? = some c) : isBlank c = false := by
  obtain ⟨blanks, hs, -⟩ := exists_trimEnd_append (trimStart s)
  refine head?_trimStart s c ?_
  rw [hs, List.head?_append, show (trimEnd (trimStart s)).head? = some c from h]
  rfl

theorem getLast?_trim (s : Text) (c : Char) (h : (trim s).getLast? = some c) :
    isBlank c = false :=
  getLast?_trimEnd _ c h

/-- A text with no blank first or last character is its own trimmed form. -/
theorem trim_of_margins (s : Text) (hf : ∀ c, s.head? = some c → isBlank c = false)
    (hl : ∀ c, s.getLast? = some c → isBlank c = false) : trim s = s := by
  rw [trim, trimStart_of_head? s hf, trimEnd_of_getLast? s hl]

/-- Trimming twice is trimming once. -/
@[simp] theorem trim_trim (s : Text) : trim (trim s) = trim s :=
  trim_of_margins _ (head?_trim s) (getLast?_trim s)

end Text

end ReleaseNotes
