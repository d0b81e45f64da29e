/-
ReleaseNotes/Proofs/RemovedTokens.lean

What is left of a text without its tokens.

Tokens are removed on a walk over the text that measures, at each place, the token that
starts there.  What the walk leaves can be told without measures: a character at which
no token starts is kept, and where a token starts, the longest one goes and the rest of
the text is treated alike.

    Removed IsToken s rest ↔ erase token s = rest.

The three spellings of a reference are tokens in this sense: `#` and digits, the same in
parentheses, and `PR`, blanks or none, and digits.

Main results: what a walk leaves (`removed_iff`), a text in which no token stands is left
as it is (`erase_of_lacks`), and the measures of references are right
(`measures_hashToken`, `measures_bracketToken`, `measures_wordToken`).
-/
import Mathlib.Data.List.Infix
import Mathlib.Data.List.TakeWhile
import ReleaseNotes.Reference

namespace ReleaseNotes

namespace Text

variable {IsToken : Text → Prop} {token : Text → Nat} {s rest w : Text} {c : Char}

/-! ### Measures of tokens -/

/-- `token` is the length of the longest token that starts a text, and 0 if none does. -/
structure Measures (token : Text → Nat) (IsToken : Text → Prop) : Prop where
  ne_nil : ∀ w, IsToken w → w ≠ []
  exists_token : ∀ s, token s ≠ 0 → ∃ w t, IsToken w ∧ s = w ++ t ∧ token s = w.length
  length_le : ∀ w t, IsToken w → w.length ≤ token (w ++ t)

/-- No token stands in the text. -/
def Lacks (IsToken : Text → Prop) (s : Text) : Prop :=
  ∀ w, IsToken w → ¬ w <:+: s

theorem Lacks.of_isInfix (h : Lacks IsToken s) (hi : rest <:+: s) : Lacks IsToken rest :=
  fun w hw hr => h w hw (hr.trans hi)

theorem Measures.length_pos (h : Measures token IsToken) (hw : IsToken w) : 0 < w.length :=
  List.length_pos_iff.2 (h.ne_nil w hw)

/-- A measure is 0 exactly where no token starts. -/
theorem Measures.eq_zero_iff (h : Measures token IsToken) :
    token s = 0 ↔ ∀ w, IsToken w → ¬ w <+: s := by
  constructor
  · rintro h0 w hw ⟨t, rfl⟩
    have hle := h.length_le w t hw
    have hpos := h.length_pos hw
    omega
  · intro hn
    by_contra h0
    obtain ⟨w, t, hw, rfl, -⟩ := h.exists_token s h0
    exact hn w hw (List.prefix_append w t)

theorem Measures.lacks_iff (h : Measures token IsToken) :
    Lacks IsToken s ↔ ∀ t ∈ s.tails, token t = 0 := by
  constructor
  · intro hs t ht
    rw [h.eq_zero_iff]
    intro w hw hp
    exact hs w hw (hp.isInfix.trans ((List.mem_tails t s).1 ht).isInfix)
  · rintro h0 w hw ⟨front, behind, rfl⟩
    have ht : w ++ behind ∈ (front ++ w ++ behind).tails := by
      rw [List.mem_tails, List.append_assoc]
      exact List.suffix_append front (w ++ behind)
    exact h.eq_zero_iff.1 (h0 _ ht) w hw (List.prefix_append w behind)

/-- The longest token that starts a text is the one that is measured. -/
theorem Measures.eq_length_iff (h : Measures token IsToken) (hw : IsToken w) :
    token (w ++ s) = w.length ↔ ∀ v, IsToken v → v <+: w ++ s → v.length ≤ w.length := by
  constructor
  · rintro hlen v hv ⟨t, ht⟩
    rw [← hlen, ← ht]
    exact h.length_le v t hv
  · intro hmax
    have hle := h.length_le w s hw
    have hpos := h.length_pos hw
    obtain ⟨v, t, hv, hs, hlen⟩ := h.exists_token (w ++ s) (by omega)
    have hge := hmax v hv (hs ▸ List.prefix_append v t)
    omega

/-! ### What a walk leaves -/

theorem erase_cons (h : token (c :: s) = 0) : erase token (c :: s) = c :: erase token s := by
  simp only [erase, substitute, substituteFrom, h]

theorem erase_append (hw : w ≠ []) (h : token (w ++ s) = w.length) :
    erase token (w ++ s) = erase token s := by
  obtain ⟨c, w, rfl⟩ := List.exists_cons_of_ne_nil hw
  rw [List.cons_append] at h ⊢
  simp only [erase, substitute, substituteFrom, h, List.length_cons, List.nil_append]
  rw [substituteFrom_eq_drop, List.drop_left]
  rfl

/-- Nothing is moved and nothing is added. -/
theorem erase_sublist (token : Text → Nat) (s : Text) : (erase token s).Sublist s := by
  have hwalk : ∀ k, (substituteFrom token [] k s).Sublist s := by
    induction s with
    | nil => exact fun _ => List.Sublist.refl _
    | cons c s ih =>
      intro k
      unfold substituteFrom
      split
      · exact (ih _).cons c
      · exact (ih 0).cons_cons c
      · exact (ih _).cons c
  exact hwalk 0

theorem erase_of_lacks (h : Measures token IsToken) (hs : Lacks IsToken s) :
    erase token s = s := by
  apply substitute_of_no_token
  intro t ht
  exact h.lacks_iff.1 hs t ((List.mem_tails t s).2 ht)

/-- Where a token starts a text, something goes. -/
theorem length_erase_lt (h : Measures token IsToken) (h0 : token s ≠ 0) :
    (erase token s).length < s.length := by
  obtain ⟨w, t, hw, rfl, hlen⟩ := h.exists_token s h0
  rw [erase_append (h.ne_nil w hw) hlen, List.length_append]
  have hle := (erase_sublist token t).length_le
  have hpos := h.length_pos hw
  omega

/-- `rest` is what is left of `s` when its tokens go: from the first character on, the
longest one wherever one starts. -/
inductive Removed (IsToken : Text → Prop) : Text → Text → Prop
  | nil : Removed IsToken [] []
  | keep {c : Char} {s rest : Text} : (∀ w, IsToken w → ¬ w <+: c :: s) →
    Removed IsToken s rest → Removed IsToken (c :: s) (c :: rest)
  | drop {w s rest : Text} : IsToken w →
    (∀ v, IsToken v → v <+: w ++ s → v.length ≤ w.length) →
    Removed IsToken s rest → Removed IsToken (w ++ s) rest

theorem Removed.erase_eq (h : Measures token IsToken) (hr : Removed IsToken s rest) :
    erase token s = rest := by
  induction hr with
  | nil => rfl
  | keep hn _ ih => rw [erase_cons (h.eq_zero_iff.2 hn), ih]
  | drop hw hmax _ ih => rw [erase_append (h.ne_nil _ hw) ((h.eq_length_iff hw).2 hmax), ih]

theorem removed_erase (h : Measures token IsToken) (s : Text) :
    Removed IsToken s (erase token s) := by
  induction hn : s.length using Nat.strong_induction_on generalizing s with
  | _ n ih =>
    by_cases h0 : token s = 0
    · cases s with
      | nil => exact .nil
      | cons c s =>
        rw [erase_cons h0]
        refine .keep (h.eq_zero_iff.1 h0) (ih s.length ?_ s rfl)
        rw [← hn]
        exact Nat.lt_succ_self _
    · -- the walk goes on behind the token, where less is left
      obtain ⟨w, t, hw, rfl, hlen⟩ := h.exists_token s h0
      have hless : t.length < n := by
        have hpos := h.length_pos hw
        rw [← hn, List.length_append]
        omega
      rw [erase_append (h.ne_nil w hw) hlen]
      exact .drop hw ((h.eq_length_iff hw).1 hlen) (ih t.length hless t rfl)

/-- **What is left without the tokens of a text** is what the walk leaves that measures
them. -/
theorem removed_iff (h : Measures token IsToken) :
    Removed IsToken s rest ↔ erase token s = rest :=
  ⟨Removed.erase_eq h, fun e => e ▸ removed_erase h s⟩

/-! ### Runs of characters at the start of a text -/

theorem length_le_takeWhile_append {p : Char → Bool} (hw : ∀ c ∈ w, p c = true) (t : Text) :
    w.length ≤ ((w ++ t).takeWhile p).length := by
  rw [List.takeWhile_append_of_pos hw, List.length_append]
  exact Nat.le_add_right _ _

/-- A run ends in front of the first character that does not belong to it. -/
theorem takeWhile_append_cons {p : Char → Bool} (hw : ∀ c ∈ w, p c = true) (hc : p c = false) :
    (w ++ c :: s).takeWhile p = w := by
  rw [List.takeWhile_append_of_pos hw, List.takeWhile_cons_of_neg (by simp [hc]),
    List.append_nil]

theorem dropWhile_append_cons {p : Char → Bool} (hw : ∀ c ∈ w, p c = true) (hc : p c = false) :
    (w ++ c :: s).dropWhile p = c :: s := by
  rw [List.dropWhile_append_of_pos hw, List.dropWhile_cons_of_neg (by simp [hc])]

end Text

namespace Reference

open Text (Measures)

variable {s d w blanks : Text}

/-! ### The spellings of a reference -/

/-- The number of a reference: digits, at least one. -/
def IsNumber (d : Text) : Prop :=
  d ≠ [] ∧ ∀ c ∈ d, c.isDigit = true

/-- `#` and a number. -/
def IsHash (w : Text) : Prop :=
  ∃ d, IsNumber d ∧ w = '#' :: d

/-- `#` and a number in parentheses. -/
def IsBracket (w : Text) : Prop :=
  ∃ d, IsNumber d ∧ w = '(' :: '#' :: d ++ [')']

/-- `PR`, blanks or none, and a number. -/
def IsWord (w : Text) : Prop :=
  ∃ blanks d, (∀ c ∈ blanks, Text.isBlank c = true) ∧ IsNumber d ∧ w = 'P' :: 'R' :: blanks ++ d

theorem isNumber_digits (h : digits s ≠ []) : IsNumber (digits s) :=
  ⟨h, fun _ => List.mem_takeWhile_imp⟩

theorem length_le_digits (h : IsNumber d) (t : Text) : d.length ≤ (digits (d ++ t)).length :=
  Text.length_le_takeWhile_append h.2 t

theorem digits_append_ne_nil (h : IsNumber d) (t : Text) : digits (d ++ t) ≠ [] := by
  rw [← List.length_pos_iff]
  exact Nat.lt_of_lt_of_le (List.length_pos_iff.2 h.1) (length_le_digits h t)

/-- A text is its digits at the start and what stands behind them, which begins with no
other one. -/
theorem exists_digits_append (s : Text) :
    ∃ t, s = digits s ++ t ∧ ∀ c, t.head? = some c → c.isDigit = false := by
  refine ⟨s.dropWhile Char.isDigit, List.takeWhile_append_dropWhile.symm, fun c hc => ?_⟩
  have hstop := List.head?_dropWhile_not Char.isDigit s
  rw [hc] at hstop
  simpa using hstop

theorem isBlank_of_isDigit {c : Char} (h : c.isDigit = true) : Text.isBlank c = false := by
  rw [Char.isDigit, Bool.and_eq_true, decide_eq_true_eq, decide_eq_true_eq] at h
  have hlo : 48 ≤ c.toNat := h.1
  have hhi : c.toNat ≤ 57 := h.2
  simp only [Text.isBlank, Bool.or_eq_false_iff, Bool.and_eq_false_iff, decide_eq_false_iff_not,
    beq_eq_false_iff_ne]
  omega

/-! ### Their measures -/

theorem hashToken_of_digits (h : digits s ≠ []) : hashToken ('#' :: s) = (digits s).length + 1 := by
  simp only [hashToken, h, if_false]

theorem measures_hashToken : Measures hashToken IsHash where
  ne_nil := by
    rintro w ⟨d, -, rfl⟩
    exact List.cons_ne_nil _ _
  exists_token := by
    intro s h
    unfold hashToken at h
    split at h
    · rename_i s
      by_cases hd : digits s = []
      · exact absurd (if_pos hd) h
      · obtain ⟨t, ht, -⟩ := exists_digits_append s
        refine ⟨'#' :: digits s, t, ⟨_, isNumber_digits hd, rfl⟩, congrArg ('#' :: ·) ht, ?_⟩
        exact hashToken_of_digits hd
    · exact absurd rfl h
  length_le := by
    rintro w t ⟨d, hd, rfl⟩
    rw [List.cons_append, hashToken_of_digits (digits_append_ne_nil hd t)]
    exact Nat.succ_le_succ (length_le_digits hd t)

/-- Only one number fits between the mark and a closing parenthesis. -/
theorem hashToken_append_bracket (h : IsNumber d) (t : Text) :
    hashToken ('#' :: d ++ ')' :: t) = d.length + 1 := by
  have hd : digits (d ++ ')' :: t) = d := Text.takeWhile_append_cons h.2 rfl
  rw [List.cons_append, hashToken_of_digits (by rw [hd]; exact h.1), hd]

theorem measures_bracketToken : Measures bracketToken IsBracket where
  ne_nil := by
    rintro w ⟨d, -, rfl⟩
    exact List.cons_ne_nil _ _
  exists_token := by
    intro s h
    unfold bracketToken at h
    split at h
    · rename_i s
      by_cases hb : hashToken s ≠ 0 ∧ (s.drop (hashToken s)).head? = some ')'
      · obtain ⟨h0, hclose⟩ := hb
        obtain ⟨w, t, ⟨d, hd, rfl⟩, rfl, hlen⟩ := measures_hashToken.exists_token s h0
        rw [hlen, List.drop_left] at hclose
        obtain ⟨rest, rfl⟩ := List.head?_eq_some_iff.1 hclose
        refine ⟨'(' :: '#' :: d ++ [')'], rest, ⟨d, hd, rfl⟩, by simp, ?_⟩
        rw [bracketToken, hashToken_append_bracket hd, if_pos]
        · simp
        · exact ⟨Nat.succ_ne_zero _, by simp⟩
      · exact absurd (if_neg hb) h
    · exact absurd rfl h
  length_le := by
    rintro w t ⟨d, hd, rfl⟩
    have hs : '(' :: '#' :: d ++ [')'] ++ t = '(' :: ('#' :: d ++ ')' :: t) := by simp
    rw [hs, bracketToken, hashToken_append_bracket hd, if_pos]
    · simp
    · exact ⟨Nat.succ_ne_zero _, by simp⟩

/-- The blanks behind `PR` are all that stand in front of the number. -/
theorem wordToken_append (hb : ∀ c ∈ blanks, Text.isBlank c = true) (h : IsNumber d) (t : Text) :
    wordToken ('P' :: 'R' :: blanks ++ d ++ t)
      = blanks.length + (digits (d ++ t)).length + 2 := by
  obtain ⟨c, d, rfl⟩ := List.exists_cons_of_ne_nil h.1
  have hc : Text.isBlank c = false := isBlank_of_isDigit (h.2 c List.mem_cons_self)
  have htake : (blanks ++ c :: (d ++ t)).takeWhile Text.isBlank = blanks :=
    Text.takeWhile_append_cons hb hc
  have hdrop : Text.trimStart (blanks ++ c :: (d ++ t)) = c :: (d ++ t) :=
    Text.dropWhile_append_cons hb hc
  have hne : digits (c :: (d ++ t)) ≠ [] := digits_append_ne_nil h t
  simp only [List.cons_append, List.append_assoc, wordToken, htake, hdrop, hne, if_false]

theorem measures_wordToken : Measures wordToken IsWord where
  ne_nil := by
    rintro w ⟨blanks, d, -, -, rfl⟩
    exact List.cons_ne_nil _ _
  exists_token := by
    intro s h
    unfold wordToken at h
    split at h
    · rename_i s
      by_cases hd : digits (Text.trimStart s) = []
      · exact absurd (if_pos hd) h
      · obtain ⟨t, ht, -⟩ := exists_digits_append (Text.trimStart s)
        have hs : s = s.takeWhile Text.isBlank ++ digits (Text.trimStart s) ++ t := by
          rw [List.append_assoc, ← ht]
          exact List.takeWhile_append_dropWhile.symm
        refine ⟨'P' :: 'R' :: s.takeWhile Text.isBlank ++ digits (Text.trimStart s), t, ?_, ?_, ?_⟩
        · exact ⟨_, _, fun _ => List.mem_takeWhile_imp, isNumber_digits hd, rfl⟩
        · exact congrArg ('P' :: 'R' :: ·) hs
        · simp only [wordToken, hd, if_false, List.cons_append, List.length_cons,
            List.length_append]
    · exact absurd rfl h
  length_le := by
    rintro w t ⟨blanks, d, hb, hd, rfl⟩
    rw [wordToken_append hb hd]
    have hle := length_le_digits hd t
    simp only [List.cons_append, List.length_cons, List.length_append]
    omega

end Reference

end ReleaseNotes
