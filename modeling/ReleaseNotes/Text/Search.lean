/-
ReleaseNotes/Text/Search.lean

Looking for words in a text, and replacing the tokens of a text.

A word is looked for at every position, so occurrences may overlap:
`firstIndex?` and `lastIndex?` are the least and the greatest position at which
it starts, and `before` is what precedes the first.

A token is described by a measure: how many characters of a text belong to the
token that starts it, or none.  `substitute` goes through a text once, from its
first character; where a token starts, the token is replaced and the walk goes
on behind it.  Characters that only come together by a replacement are never
read as a token.

Main facts: what an index says (`firstIndex?_eq_some`, `lastIndex?_eq_some`),
`before` is a prefix of the text (`before_isPrefix`), dropping the characters of
a replaced token is dropping a prefix (`substituteFrom_eq_drop`), and a text
without tokens is kept (`substitute_of_no_token`).
-/
import ReleaseNotes.Text.Basic

namespace ReleaseNotes

namespace Text

variable {word : Text}

/-! ### Positions of a word -/

/-- The first position at which `word` starts. -/
def firstIndex? (word : Text) : Text → Option Nat
  | [] => if word.isPrefixOf [] then some 0 else none
  | c :: s => if word.isPrefixOf (c :: s) then some 0 else (firstIndex? word s).map (· + 1)

/-- The last position at which `word` starts. -/
def lastIndex? (word : Text) : Text → Option Nat
  | [] => if word.isPrefixOf [] then some 0 else none
  | c :: s =>
    match lastIndex? word s with
    | some i => some (i + 1)
    | none => if word.isPrefixOf (c :: s) then some 0 else none

/-- The text before the first occurrence of `word`; all of it when there is
none. -/
def before (word : Text) : Text → Text
  | [] => []
  | c :: s => if word.isPrefixOf (c :: s) then [] else c :: before word s

theorem firstIndex?_eq_some {s : Text} {i : Nat} (h : firstIndex? word s = some i) :
    word <+: s.drop i ∧ ∀ j < i, ¬ word <+: s.drop j := by
  induction s generalizing i with
  | nil =>
    simp only [firstIndex?] at h
    split at h
    · cases h
      simp_all
    · cases h
  | cons c s ih =>
    simp only [firstIndex?] at h
    split at h
    · cases h
      simp_all
    · rename_i hp
      obtain ⟨k, hk, rfl⟩ := Option.map_eq_some_iff.1 h
      obtain ⟨hw, hn⟩ := ih hk
      refine ⟨by simpa using hw, fun j hj => ?_⟩
      cases j with
      | zero => simpa using hp
      | succ j => simpa using hn j (by omega)

theorem lastIndex?_eq_none {s : Text} (h : lastIndex? word s = none) (j : Nat) :
    ¬ word <+: s.drop j := by
  induction s generalizing j with
  | nil =>
    simp only [lastIndex?] at h
    split at h <;> simp_all
  | cons c s ih =>
    simp only [lastIndex?] at h
    split at h
    · cases h
    · rename_i hs
      cases j with
      | zero => split at h <;> simp_all
      | succ j => simpa using ih hs j

theorem lastIndex?_eq_some {s : Text} {i : Nat} (h : lastIndex? word s = some i) :
    word <+: s.drop i ∧ ∀ j, i < j → j ≤ s.length → ¬ word <+: s.drop j := by
  induction s generalizing i with
  | nil =>
    simp only [lastIndex?] at h
    split at h
    · cases h
      exact ⟨by simp_all, fun j hj hl => absurd hl (by simp; omega)⟩
    · cases h
  | cons c s ih =>
    simp only [lastIndex?] at h
    split at h
    · rename_i k hk
      cases h
      obtain ⟨hw, hn⟩ := ih hk
      refine ⟨by simpa using hw, fun j hj hl => ?_⟩
      cases j with
      | zero => omega
      | succ j => simpa using hn j (by omega) (by simpa using hl)
    · rename_i hs
      split at h
      · cases h
        refine ⟨by simp_all, fun j hj _ => ?_⟩
        cases j with
        | zero => omega
        | succ j => simpa using lastIndex?_eq_none hs j
      · cases h

theorem before_isPrefix (word s : Text) : before word s <+: s := by
  induction s with
  | nil => exact List.prefix_refl _
  | cons c s ih =>
    simp only [before]
    split
    · exact List.nil_prefix
    · exact (List.cons_prefix_cons).2 ⟨rfl, ih⟩

/-! ### Replacing tokens -/

/-- Replace the tokens of a text by `new`, once `pending` characters that
belong to a token already replaced are dropped. -/
def substituteFrom (token : Text → Nat) (new : Text) (pending : Nat) : Text → Text
  | [] => []
  | c :: s =>
    match pending, token (c :: s) with
    | k + 1, _ => substituteFrom token new k s
    | 0, 0 => c :: substituteFrom token new 0 s
    | 0, n + 1 => new ++ substituteFrom token new n s

/-- Replace each token of a text by `new`. -/
def substitute (token : Text → Nat) (new : Text) (s : Text) : Text :=
  substituteFrom token new 0 s

/-- Remove each token of a text. -/
def erase (token : Text → Nat) (s : Text) : Text :=
  substitute token [] s

/-- The measure of one fixed word. -/
def wordToken (word : Text) (s : Text) : Nat :=
  if word.isPrefixOf s then word.length else 0

theorem substituteFrom_eq_drop (token : Text → Nat) (new : Text) (k : Nat) (s : Text) :
    substituteFrom token new k s = substitute token new (s.drop k) := by
  induction s generalizing k with
  | nil => cases k <;> rfl
  | cons c s ih =>
    cases k with
    | zero => rfl
    | succ k => simpa [substituteFrom] using ih k

/-- A text in which no token starts is kept. -/
theorem substitute_of_no_token {token : Text → Nat} (new : Text) {s : Text}
    (h : ∀ t, t <:+ s → token t = 0) : substitute token new s = s := by
  induction s with
  | nil => rfl
  | cons c s ih =>
    simp only [substitute, substituteFrom, h (c :: s) (List.suffix_refl _)]
    exact congrArg (c :: ·) (ih fun t ht => h t (ht.trans (List.suffix_cons c s)))

end Text

end ReleaseNotes
