/-
ReleaseNotes/Proofs/ParsedValues.lean

What kind of value an option has when no name has fields.

One occurrence gives a flag, a number or a text: a word.  Further occurrences
make a list of such words, and switching the option off starts anew with a word.
So no table, operation or common ground is ever the value of an option, and every
value has a text.

Main results: a stored value is a word or a list of words
(`isWords_storedAt`), and all values of a name that is not switched off
(`storedAt_eq_gathered`); hence the value of each option is made of words
(`areWords_of_read`), and such a value always has a text (`toText_of_isWords`).
-/
import Mathlib.Data.List.Induction
import ReleaseNotes.CommandLine.Values
import ReleaseNotes.Proofs.OptionValues

namespace ReleaseNotes

/-! ### Words -/

namespace Setting

/-- A flag, a number or a text. -/
def IsWord : Setting → Prop
  | flag _ => True
  | number _ => True
  | text _ => True
  | _ => False

/-- A word, or a list of words. -/
def IsWords : Setting → Prop
  | list items => ∀ s ∈ items, s.IsWord
  | s => s.IsWord

variable {s : Setting}

theorem isWords_of_isWord (h : s.IsWord) : s.IsWords := by
  cases s <;> first | exact h | exact h.elim

theorem isWord_ofText (t : Text) : (ofText t).IsWord := by
  unfold ofText
  split <;> trivial

theorem isFlag_ofText (t : Text) : (ofText t).isFlag = false := by
  unfold ofText
  split <;> rfl

theorem toText_of_isWord (h : s.IsWord) : ∃ t, s.toText = .ok t := by
  cases s with
  | flag | number | text => exact ⟨_, by rw [toText]⟩
  | list | table | operation | common => exact h.elim

theorem itemTexts_of_isWord {items : List Setting} (h : ∀ s ∈ items, s.IsWord) :
    ∃ ts, itemTexts items = .ok ts := by
  induction items with
  | nil => exact ⟨[], by rw [itemTexts]⟩
  | cons s rest ih =>
    obtain ⟨t, ht⟩ := toText_of_isWord (h s (by simp))
    obtain ⟨ts, hts⟩ := ih fun r hr => h r (List.mem_cons_of_mem _ hr)
    exact ⟨t :: ts, by rw [itemTexts, ht, hts]; rfl⟩

/-- Words and lists of words have a text. -/
theorem toText_of_isWords (h : s.IsWords) : ∃ t, s.toText = .ok t := by
  cases s with
  | list items =>
    obtain ⟨ts, hts⟩ := itemTexts_of_isWord h
    exact ⟨[','].intercalate ts, by rw [toText, hts]; rfl⟩
  | flag | number | text | table | operation | common => exact toText_of_isWord h

end Setting

namespace CommandLine

/-! ### Stored values -/

theorem isWord_setting (g : Given) (switch : Bool) : (g.setting switch).IsWord := by
  cases g with
  | value t =>
    cases switch
    · exact Setting.isWord_ofText t
    · trivial
  | alone | negated | plain => trivial

theorem isWords_join {old : Option Setting} {new : Setting} (ho : ∀ s ∈ old, s.IsWords)
    (hn : new.IsWord) : (join old new).IsWords := by
  cases old with
  | none => exact Setting.isWords_of_isWord hn
  | some s =>
    have hs := ho s rfl
    cases s with
    | list items =>
      intro r hr
      rcases List.mem_append.1 hr with h | h
      · exact hs r h
      · rwa [List.mem_singleton.1 h]
    | flag | number | text =>
      intro r hr
      rcases List.mem_cons.1 hr with rfl | hr
      · trivial
      · rwa [List.mem_singleton.1 hr]
    | table | operation | common => exact hs.elim

/-- One more occurrence makes words of words. -/
theorem isWords_update {o : Occurrence} (h : Setting.operation? false o.name = none)
    {old : Option Setting} (ho : ∀ s ∈ old, s.IsWords) : (o.update old).IsWords := by
  unfold Occurrence.update
  split
  · trivial
  · rw [h, Option.or_none]
    exact isWords_join ho (isWord_setting _ _)

/-- The stored value of an option that no operation is named after is a word or
a list of words. -/
theorem isWords_storedAt {found : List Occurrence} {name : Text}
    (h : Setting.operation? false name = none) {s : Setting} (hs : storedAt found name = some s) :
    s.IsWords := by
  -- the invariant of the fold is that what is stored so far is made of words
  have step : ∀ (os : List Occurrence) (old : Option Setting), (∀ o ∈ os, o.name = name) →
      (∀ s ∈ old, s.IsWords) →
      ∀ s ∈ os.foldl (fun old o => some (o.update old)) old, s.IsWords := by
    intro os
    induction os with
    | nil => exact fun old _ ho => ho
    | cons o os ih =>
      intro old hn ho
      refine ih _ (fun p hp => hn p (List.mem_cons_of_mem _ hp)) fun s hs => ?_
      obtain rfl : o.update old = s := Option.some.inj hs
      exact isWords_update (by rw [hn o List.mem_cons_self, h]) ho
  refine step _ none (fun o ho => ?_) nofun s hs
  simpa using (List.mem_filter.1 ho).2

/-! ### Several values of one name -/

/-- The values of the occurrences of a name, in their order. -/
def valuesFor (found : List Occurrence) (name : Text) : List Setting :=
  (found.filter (·.name = name)).map fun o => o.given.setting (isSwitch o.name)

/-- What is kept of the values of one name: one as it is, several as a list. -/
def gathered : List Setting → Option Setting
  | [] => none
  | [v] => some v
  | vs => some (.list vs)

/-- A further word is gathered with those before it. -/
theorem gathered_concat {vs : List Setting} (h : ∀ v ∈ vs, v.IsWord) (v : Setting) :
    gathered (vs ++ [v]) = some (join (gathered vs) v) := by
  match vs with
  | [] => rfl
  | [w] =>
    -- a word is no list, so there is a list only now
    have hw := h w List.mem_cons_self
    cases w with
    | flag | number | text => rfl
    | list | table | operation | common => exact hw.elim
  | w :: w' :: ws => rfl

/-- A name that is not switched off keeps all its values. -/
theorem storedAt_eq_gathered {found : List Occurrence} {name : Text}
    (hop : Setting.operation? false name = none)
    (h : ∀ o ∈ found, o.name = name → o.given ≠ .negated) :
    storedAt found name = gathered (valuesFor found name) := by
  have hall : ∀ o ∈ found.filter (·.name = name), o.name = name ∧ o.given ≠ .negated := by
    intro o ho
    obtain ⟨hm, hn⟩ := List.mem_filter.1 ho
    have hn : o.name = name := by simpa using hn
    exact ⟨hn, h o hm hn⟩
  rw [storedAt, valuesFor]
  generalize found.filter (·.name = name) = os at hall
  induction os using List.reverseRecOn with
  | nil => rfl
  | append_singleton os o ih =>
    obtain ⟨hos, ho⟩ := List.forall_mem_append.1 hall
    obtain ⟨hn, hg⟩ := ho o List.mem_cons_self
    have hwords : ∀ v ∈ os.map fun o => o.given.setting (isSwitch o.name), v.IsWord := by
      intro v hv
      obtain ⟨o', -, rfl⟩ := List.mem_map.1 hv
      exact isWord_setting _ _
    rw [List.foldl_append, List.map_append, ih hos, List.map_singleton, gathered_concat hwords,
      List.foldl_cons, List.foldl_nil, update_of_ne_negated (hn ▸ hop) hg]

/-! ### Values of options -/

theorem operation?_of_pathOf {o : ValueOption} {name : Text} (h : pathOf name = [o.name]) :
    Setting.operation? false name = none := by
  have hn : name ∉ Setting.makerName :: (Setting.bareNames ++ Setting.argumentNames) := by
    intro hm
    have hall : ∀ n ∈ Setting.makerName :: (Setting.bareNames ++ Setting.argumentNames),
        ∀ o ∈ ValueOption.all, pathOf n ≠ [o.name] := by decide
    exact hall name hm o (by cases o <;> decide) h
  simp only [List.mem_cons, not_or] at hn
  simp [Setting.operation?, hn.1, hn.2]

theorem isWords_valueAt? {found : List Occurrence} {o : ValueOption} {s : Setting}
    (h : valueAt? found [o.name] = some s) : s.IsWords := by
  obtain ⟨name, -, hp, hv⟩ := exists_name_of_valueAt? h
  -- no switch spells an option with a value, so the name has no other form to follow
  have hl : leader found name = name := by
    refine leader_of_no_otherForm fun other ho => ?_
    have hf : ∀ form ∈ [['h'], "help".toList, ['v'], "version".toList],
        ∀ o ∈ ValueOption.all, pathOf form ≠ [o.name] := by decide
    exact hf name (mem_switches_of_otherForm? ho) o (by cases o <;> decide) hp
  have hst : storedAt found name = some s := by
    rw [← hv, valueOf?, hl]
  exact isWords_storedAt (operation?_of_pathOf hp) hst

/-- All options have words or lists of words as their values. -/
def Options.AreWords (o : Options) : Prop :=
  ∀ v, ∀ s ∈ o.value v, s.IsWords

/-- **The value of an option is a word or a list of words.** -/
theorem areWords_of_read {args : List Text} {o : Options} (hu : Undotted args)
    (hr : read args = .ok (.compose o)) : o.AreWords := by
  intro v s h
  have hv : o.value v = some s := h
  rw [value_of_read hu hr] at hv
  rcases Option.or_eq_some_iff.1 hv with hv | ⟨-, hv⟩
  · exact isWords_valueAt? hv
  · -- a default is a text
    obtain ⟨t, -, rfl⟩ := Option.map_eq_some_iff.1 hv
    trivial

end CommandLine

end ReleaseNotes
