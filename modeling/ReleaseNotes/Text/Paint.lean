/-
ReleaseNotes/Text/Paint.lean

Terminal colours.

A painted text stands between the colour's opening code and the code that
restores the default colour.  A restoring code inside the text would end the
colour too early, so it is replaced by the opening code; this starts as many
UTF-16 units into the text as the opening code is long, and a restoring code
that begins earlier is kept.

Main fact: a text without the escape character is painted as it is
(`paint_of_escape_not_mem`).
-/
import ReleaseNotes.Text.Search

namespace ReleaseNotes

/-- The colours of the program's messages. -/
inductive Colour
  | yellow
  | cyan
  | gray
  | green
  | red
  | brightRed
deriving DecidableEq, Repr

namespace Colour

/-- The character that starts a terminal code. -/
def escape : Char := '\x1b'

/-- The number of a colour in terminal codes. -/
def code : Colour → Text
  | yellow => "33".toList
  | cyan => "36".toList
  | gray => "90".toList
  | green => "32".toList
  | red => "31".toList
  | brightRed => "91".toList

/-- The code that switches the colour on. -/
def opening (c : Colour) : Text :=
  escape :: '[' :: c.code ++ ['m']

/-- The code that restores the default colour. -/
def restoring : Text :=
  escape :: "[39m".toList

/-- A text in a colour. -/
def paint (c : Colour) (s : Text) : Text :=
  let (kept, rest) := Text.splitUnits (Text.units c.opening) s
  c.opening ++ kept ++ Text.substitute (Text.wordToken restoring) c.opening rest ++ restoring

/-- Without escape characters there is nothing to replace. -/
theorem paint_of_escape_not_mem (c : Colour) {s : Text} (h : escape ∉ s) :
    c.paint s = c.opening ++ s ++ restoring := by
  have hs := Text.splitUnits_append (Text.units c.opening) s
  have hr : escape ∉ (Text.splitUnits (Text.units c.opening) s).2 := fun m =>
    h (hs ▸ List.mem_append_right _ m)
  have ht : ∀ t, t <:+ (Text.splitUnits (Text.units c.opening) s).2 →
      Text.wordToken restoring t = 0 := by
    intro t ht
    unfold Text.wordToken
    split
    · rename_i hp
      have hm : escape ∈ t := (List.isPrefixOf_iff_prefix.1 hp).subset (by simp [restoring])
      exact absurd (ht.subset hm) hr
    · rfl
  have hk := Text.substitute_of_no_token c.opening ht
  simp only [paint, hk, List.append_assoc]
  rw [← List.append_assoc _ _ restoring, hs]

end Colour

end ReleaseNotes
