/-
ReleaseNotes/Proofs/AskedRelease.lean

The release that a command line asks for when no name has fields.

Its options are words or lists of words, so two things only can be wrong with
them: the tag that is meant is missing or blank, or there is a limit that denotes
no positive whole number.  The tag is looked at first.  A branch always has a
text, and directory and address are not looked at here.

Main results: `releaseOf` in each of the three cases (`releaseOf_of_lacksTag`,
`releaseOf_of_refused`, `exists_releaseOf`).
-/
import ReleaseNotes.Proofs.ParsedValues

namespace ReleaseNotes

/-! ### What a value stands for -/

namespace Setting

/-- Of several values the last one, if there is one. -/
def last? : Setting → Option Setting
  | list items => items.getLast?
  | s => some s

/-- The number that a value denotes, if it denotes one. -/
def denoted? : Setting → Option Rat
  | number x => some x
  | text t => Number.read? t
  | _ => none

/-- A text denotes the same number before and after it is kept. -/
theorem denoted?_ofText (t : Text) : (ofText t).denoted? = Number.read? t := by
  cases h : Number.read? t with
  | some x => rw [ofText_eq_number_iff.2 h, denoted?]
  | none => rw [ofText_eq_text_iff.2 ⟨h, rfl⟩, denoted?, h]

end Setting

namespace CommandLine

variable {args : List Text} {o : Options} {value : Option Setting} {s : Setting}

/-- The text of a value, or of the last of several. -/
def lastText? (value : Option Setting) : Option Text :=
  value.bind fun s => s.last?.bind fun w => w.toText.toOption

/-- The tag that is meant: the last one typed, or else what the option's value
says. -/
def tagText? (args : List Text) (o : Options) : Option Text :=
  (lastTyped? ValueOption.tag.name args).or (lastText? o.tag)

/-- The tag is missing or blank. -/
def LacksTag (args : List Text) (o : Options) : Prop :=
  ∀ t ∈ tagText? args o, Text.trim t = []

/-- There is a limit, and it denotes no positive whole number. -/
def RefusesLimit (o : Options) : Prop :=
  ∃ s ∈ o.limit, ∀ n : Nat, 0 < n → s.denoted? ≠ some (n : Rat)

/-- What is wrong with a limit that is refused. -/
def limitFault : Setting → Fault
  | .number x => .invalidLimit (Number.render x)
  | .text t => .invalidLimit t
  | _ => .limitNotText

/-- The branch that is meant: the last one typed, or else what the option's value
says. -/
def branchText (args : List Text) (o : Options) : Text :=
  (lastTyped? ValueOption.branch.name args).getD
    ((o.branch.bind fun s => s.toText.toOption).getD defaultBranch)

/-! ### The tag -/

theorem checkTag_of_trim_eq_nil {t : Text} (h : Text.trim t = []) :
    checkTag t = .error .missingTag := by
  simp [checkTag, h]

theorem checkTag_of_trim_ne_nil {t : Text} (h : Text.trim t ≠ []) :
    checkTag t = .ok (Text.trim t) := by
  unfold checkTag
  split
  · contradiction
  · rfl

/-- The last of some words is a word. -/
theorem isWord_of_last? (h : s.IsWords) {w : Setting} (hw : s.last? = some w) : w.IsWord := by
  cases s with
  | list items => exact h w (List.mem_of_getLast? hw)
  | flag | number | text =>
    obtain rfl := Option.some.inj hw
    exact h
  | table | operation | common => exact h.elim

theorem lastValue_of_isWords (h : s.IsWords) : lastValue s = .ok s.last? := by
  cases s with
  | flag | number | text | list => rfl
  | table | operation | common => exact h.elim

/-- A tag that is made of words is checked by its text, and fails like an empty
one when there is none. -/
theorem tagName_of_isWords (h : ∀ s ∈ value, s.IsWords) :
    tagName value = checkTag ((lastText? value).getD []) := by
  cases value with
  | none => rfl
  | some s =>
    have hs := h s rfl
    simp only [tagName, lastValue_of_isWords hs, bind, Except.bind, lastText?, Option.bind]
    cases hl : s.last? with
    | none => rfl
    | some w =>
      obtain ⟨t, ht⟩ := Setting.toText_of_isWord (isWord_of_last? hs hl)
      simp only [textOf, ht]
      rfl

/-- **The tag of a run is the one that is meant**, where its options are made of
words. -/
theorem tagName_eq (h : ∀ s ∈ o.tag, s.IsWords) :
    tagName (((lastTyped? ValueOption.tag.name args).map Setting.text).or o.tag)
      = checkTag ((tagText? args o).getD []) := by
  unfold tagText?
  cases lastTyped? ValueOption.tag.name args with
  | none => exact tagName_of_isWords h
  | some t => rfl

/-! ### The limit -/

theorem isCount_iff {x : Rat} : isCount x = true ↔ ∃ n : Nat, 0 < n ∧ x = n := by
  simp only [isCount, Bool.and_eq_true, beq_iff_eq, decide_eq_true_eq]
  constructor
  · rintro ⟨hd, hn⟩
    -- a rational with denominator one is its numerator
    obtain ⟨n, hx⟩ := Int.eq_ofNat_of_zero_le (Int.le_of_lt hn)
    refine ⟨n, by omega, Rat.ext ?_ ?_⟩
    · simpa using hx
    · simpa using hd
  · rintro ⟨n, hn, rfl⟩
    simpa using hn

/-- A limit is accepted exactly when it denotes a positive whole number. -/
theorem limitOf_eq_ok_iff {n : Rat} :
    limitOf (some s) = .ok n ↔ s.denoted? = some n ∧ isCount n = true := by
  cases s with
  | number x => exact checkLimit_eq_ok_iff
  | text t => exact checkLimit_eq_ok_iff
  | flag | list | table | operation | common => simp [limitOf, Setting.denoted?]

/-- A text is accepted for what it denotes without its margins. -/
theorem limitOf_text_iff {t : Text} {n : Rat} : limitOf (some (.text t)) = .ok n
    ↔ Number.read? (Text.trim t) = some n ∧ isCount n = true := by
  rw [limitOf_eq_ok_iff, Number.read?_trim]
  exact Iff.rfl

/-- A limit that is typed counts as its text does. -/
theorem limitOf_ofText_iff {t : Text} {n : Rat} :
    limitOf (some (Setting.ofText t)) = .ok n ↔ limitOf (some (.text t)) = .ok n := by
  rw [limitOf_text_iff, limitOf_eq_ok_iff, Setting.denoted?_ofText, Number.read?_trim]

theorem limitOf_of_refused (h : ∀ n : Nat, 0 < n → s.denoted? ≠ some (n : Rat)) :
    limitOf (some s) = .error (limitFault s) := by
  have hx : s.denoted?.filter isCount = none := by
    rw [Option.filter_eq_none_iff]
    intro x hx hc
    obtain ⟨n, hn, rfl⟩ := isCount_iff.1 hc
    exact h n hn hx
  cases s with
  | number x | text t =>
    simp only [Setting.denoted?] at hx
    simp only [limitOf, checkLimit, hx, limitFault]
  | flag | list | table | operation | common => rfl

theorem exists_limitOf (h : ¬ RefusesLimit o) : ∃ n, limitOf o.limit = .ok n := by
  cases hl : o.limit with
  | none => exact ⟨defaultLimit, rfl⟩
  | some s =>
    cases e : limitOf (some s) with
    | ok n => exact ⟨n, rfl⟩
    | error f =>
      refine absurd ⟨s, hl, fun n hn hd => ?_⟩ h
      rw [limitOf_eq_ok_iff.2 ⟨hd, isCount_iff.2 ⟨n, hn, rfl⟩⟩] at e
      cases e

/-! ### The release -/

/-- A branch that is made of words has a text. -/
theorem branchName_of_isWords (h : ∀ s ∈ value, s.IsWords) :
    branchName value = .ok ((value.bind fun s => s.toText.toOption).getD defaultBranch) := by
  cases value with
  | none => rfl
  | some s =>
    obtain ⟨t, ht⟩ := Setting.toText_of_isWords (h s rfl)
    simp [branchName, ht, Except.toOption]

/-- Only the tag and the limit can be wrong, where options are made of words. -/
theorem releaseOf_eq (hw : o.AreWords) :
    releaseOf args o = do
      let tag ← checkTag ((tagText? args o).getD [])
      let limit ← limitOf o.limit
      return ⟨tag, branchText args o, limit, directoryOf o.directory⟩ := by
  have htag : ∀ s ∈ o.tag, s.IsWords := hw .tag
  have hbranch : ∀ s ∈ o.branch, s.IsWords := hw .branch
  unfold releaseOf branchText
  simp only [tagName_eq htag]
  cases lastTyped? ValueOption.branch.name args with
  | some b => rfl
  | none =>
    -- the value of the option has a text, so it cannot fail here
    rw [branchName_of_isWords hbranch]
    rfl

theorem exists_tagText? (h : ¬ LacksTag args o) :
    ∃ t, tagText? args o = some t ∧ Text.trim t ≠ [] := by
  cases e : tagText? args o with
  | none => exact absurd (fun t ht => by rw [e] at ht; cases ht) h
  | some t =>
    refine ⟨t, rfl, fun hb => h fun t' ht => ?_⟩
    rw [e] at ht
    cases ht
    exact hb

variable (hw : o.AreWords)

include hw

theorem releaseOf_of_lacksTag (h : LacksTag args o) : releaseOf args o = .error .missingTag := by
  have ht : Text.trim ((tagText? args o).getD []) = [] := by
    cases e : tagText? args o with
    | none => rfl
    | some t => exact h t e
  rw [releaseOf_eq hw, checkTag_of_trim_eq_nil ht]
  rfl

theorem releaseOf_of_refused (h : ¬ LacksTag args o) (hl : o.limit = some s)
    (hs : ∀ n : Nat, 0 < n → s.denoted? ≠ some (n : Rat)) :
    releaseOf args o = .error (limitFault s) := by
  obtain ⟨t, ht, hb⟩ := exists_tagText? h
  rw [releaseOf_eq hw, ht, Option.getD_some, checkTag_of_trim_ne_nil hb, hl,
    limitOf_of_refused hs]
  rfl

/-- **What a command line asks for is a release**, unless it lacks a tag or its
limit is refused. -/
theorem exists_releaseOf (h : ¬ LacksTag args o) (hl : ¬ RefusesLimit o) :
    ∃ t n, tagText? args o = some t ∧ releaseOf args o
      = .ok ⟨Text.trim t, branchText args o, n, directoryOf o.directory⟩ := by
  obtain ⟨t, ht, hb⟩ := exists_tagText? h
  obtain ⟨n, hn⟩ := exists_limitOf hl
  refine ⟨t, n, ht, ?_⟩
  rw [releaseOf_eq hw, ht, Option.getD_some, checkTag_of_trim_ne_nil hb, hn]
  rfl

theorem eq_of_releaseOf {r : Release} (h : releaseOf args o = .ok r) :
    (∃ t, tagText? args o = some t ∧ r.tag = Text.trim t) ∧ r.branch = branchText args o := by
  by_cases ht : LacksTag args o
  · rw [releaseOf_of_lacksTag hw ht] at h
    cases h
  · by_cases hl : RefusesLimit o
    · obtain ⟨s, hs, hd⟩ := hl
      rw [releaseOf_of_refused hw ht hs hd] at h
      cases h
    · obtain ⟨t, n, hs, hr⟩ := exists_releaseOf hw ht hl
      rw [hr] at h
      cases h
      exact ⟨⟨t, hs, rfl⟩, rfl⟩

end CommandLine

end ReleaseNotes
