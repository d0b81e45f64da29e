/-
ReleaseNotes/Proofs/TidyTitles.lean

What no title has: a `#` in front of a digit, and blank margins.

A removal joins the text on the two sides of a token, so it could bring a `#` and a digit
together.  But a token that is removed takes all of its digits along: what stands behind it
does not begin with one.  So a pair of characters that ends in a digit,

    [x, d] <:+: erase token s,

was a pair of `s` already, and no token starts where it stands.  The walk that removes `#`
and digits leaves no `#` in front of a digit at all, and the one that removes references by
`PR` brings none in.  The steps between and behind them take parts of the text, or put a
capital in the place of its first character, which is no `#` unless that was one.

Main results: where a pair that is left comes from (`Removed.exists_suffix`), and no title
has a `#` in front of a digit or a blank margin (`ofMessage_tidy`).
-/
import ReleaseNotes.Proofs.RepeatedTitles

namespace ReleaseNotes

namespace Text

variable {IsToken : Text → Prop} {s rest : Text} {x d : Char}

/-! ### Pairs that a walk leaves -/

/-- A token with one more digit behind it is a token. -/
def TakesDigits (IsToken : Text → Prop) : Prop :=
  ∀ w d, IsToken w → Char.isDigit d = true → IsToken (w ++ [d])

/-- A digit that begins what is left has not been behind a token. -/
theorem Removed.head?_eq (hgrow : TakesDigits IsToken) (hr : Removed IsToken s rest)
    (hd : d.isDigit = true) (h : rest.head? = some d) : s.head? = some d := by
  induction hr with
  | nil => exact h
  | keep _ _ _ => exact h
  | @drop w s rest hw hmax _ ih =>
    obtain ⟨t, rfl⟩ := List.head?_eq_some_iff.1 (ih h)
    -- the token would have been longer by this digit
    have hlong : w ++ [d] <+: w ++ d :: t := (List.prefix_append_right_inj w).2 ⟨t, rfl⟩
    have hle := hmax (w ++ [d]) (hgrow w d hw hd) hlong
    rw [List.length_append] at hle
    exact absurd hle (Nat.not_succ_le_self _)

/-- **A pair that ends in a digit is not brought together**: it was there, where no token
starts. -/
theorem Removed.exists_suffix (hgrow : TakesDigits IsToken) (hr : Removed IsToken s rest)
    (hd : d.isDigit = true) (h : [x, d] <:+: rest) :
    ∃ t, x :: d :: t <:+ s ∧ ∀ w, IsToken w → ¬ w <+: x :: d :: t := by
  induction hr with
  | nil => exact absurd (List.infix_nil.1 h) (List.cons_ne_nil x [d])
  | @keep c s rest hn hr ih =>
    rcases List.infix_cons_iff.1 h with h | h
    · obtain ⟨rfl, hnext⟩ := List.cons_prefix_cons.1 h
      obtain ⟨rest, rfl⟩ := hnext
      obtain ⟨t, rfl⟩ := List.head?_eq_some_iff.1 (hr.head?_eq hgrow hd rfl)
      exact ⟨t, List.suffix_refl _, hn⟩
    · obtain ⟨t, ht, hn⟩ := ih h
      exact ⟨t, ht.trans (List.suffix_cons c s), hn⟩
  | @drop w s rest _ _ _ ih =>
    obtain ⟨t, ht, hn⟩ := ih h
    exact ⟨t, ht.trans (List.suffix_append w s), hn⟩

end Text

namespace Reference

open Text (Lacks TakesDigits)

variable {s d : Text} {x : Char}

/-! ### Hash references -/

theorem isNumber_singleton (hx : x.isDigit = true) : IsNumber [x] :=
  ⟨List.cons_ne_nil x [], fun _ hc => List.mem_singleton.1 hc ▸ hx⟩

theorem isNumber_concat (hd : IsNumber d) (hx : x.isDigit = true) : IsNumber (d ++ [x]) := by
  refine ⟨List.concat_ne_nil x d, fun c hc => ?_⟩
  rcases List.mem_append.1 hc with hc | hc
  · exact hd.2 c hc
  · exact List.mem_singleton.1 hc ▸ hx

theorem takesDigits_isHash : TakesDigits IsHash := by
  rintro w x ⟨d, hd, rfl⟩ hx
  exact ⟨d ++ [x], isNumber_concat hd hx, rfl⟩

theorem takesDigits_isWord : TakesDigits IsWord := by
  rintro w x ⟨blanks, d, hb, hd, rfl⟩ hx
  exact ⟨blanks, d ++ [x], hb, isNumber_concat hd hx, List.append_assoc _ d [x]⟩

/-- A hash reference stands where a `#` stands in front of a digit. -/
theorem lacks_isHash_iff :
    Lacks IsHash s ↔ ∀ x : Char, x.isDigit = true → ¬ ['#', x] <:+: s := by
  constructor
  · intro h x hx
    exact h _ ⟨[x], isNumber_singleton hx, rfl⟩
  · rintro h w ⟨d, hd, rfl⟩ hw
    obtain ⟨x, d, rfl⟩ := List.exists_cons_of_ne_nil hd.1
    have hpair : ['#', x] <:+: '#' :: x :: d := (List.prefix_append ['#', x] d).isInfix
    exact h x (hd.2 x List.mem_cons_self) (hpair.trans hw)

/-- The walk that removes hash references leaves none and brings none in. -/
theorem lacks_isHash_erase_hashToken (s : Text) : Lacks IsHash (Text.erase hashToken s) := by
  rw [lacks_isHash_iff]
  intro x hx h
  obtain ⟨t, -, hn⟩ :=
    (Text.removed_erase measures_hashToken s).exists_suffix takesDigits_isHash hx h
  exact hn ['#', x] ⟨[x], isNumber_singleton hx, rfl⟩ ⟨t, rfl⟩

/-- The walk that removes references by `PR` brings no hash reference in. -/
theorem lacks_isHash_erase_wordToken (h : Lacks IsHash s) :
    Lacks IsHash (Text.erase wordToken s) := by
  rw [lacks_isHash_iff] at h ⊢
  intro x hx hpair
  obtain ⟨t, ht, -⟩ :=
    (Text.removed_erase measures_wordToken s).exists_suffix takesDigits_isWord hx hpair
  have hp : ['#', x] <+: '#' :: x :: t := ⟨t, rfl⟩
  exact h x hx (hp.isInfix.trans ht.isInfix)

end Reference

namespace Title

open Text (Lacks)

/-! ### Titles -/

theorem lacks_isHash_substance (message : Text) : Lacks Reference.IsHash (substance message) := by
  have hhashes : Lacks Reference.IsHash (withoutHashes message) :=
    Reference.lacks_isHash_erase_hashToken _
  exact Reference.lacks_isHash_erase_wordToken
    (hhashes.of_isInfix (withoutMergeTail_isPrefix _).isInfix)

theorem lacks_isHash_ofMessage (message : Text) : Lacks Reference.IsHash (ofMessage message) :=
  lacks_isHash_capitalize ((lacks_isHash_substance message).of_isInfix (Text.trim_isInfix _))

/-- A title is its own trimmed form. -/
theorem trim_ofMessage (message : Text) : Text.trim (ofMessage message) = ofMessage message :=
  Text.trim_capitalize_trim (substance message)

/-- **Every title is tidy**: whatever the message, no `#` stands in front of a digit, and
neither the first nor the last character is blank. -/
theorem ofMessage_tidy (message : Text) :
    (∀ d : Char, d.isDigit = true → ¬ ['#', d] <:+: ofMessage message)
      ∧ (∀ c, (ofMessage message).head? = some c → Text.isBlank c = false)
      ∧ (∀ c, (ofMessage message).getLast? = some c → Text.isBlank c = false) := by
  have htrim := trim_ofMessage message
  refine ⟨Reference.lacks_isHash_iff.1 (lacks_isHash_ofMessage message), fun c hc => ?_,
    fun c hc => ?_⟩
  · rw [← htrim] at hc
    exact Text.head?_trim _ c hc
  · rw [← htrim] at hc
    exact Text.getLast?_trim _ c hc

/-- Of what stands around a removed reference a `#` and a digit stay apart. -/
example : ofMessage " ##(#1)2 #PR 3 4 ".toList = "# # 4".toList := by decide

end Title

end ReleaseNotes
