/-
ReleaseNotes/Proofs/BareOptions.lean

Options for which no value is typed.

Their occurrences are all without a value or switch the option off.  A single one
leaves a flag, which is refused.  A further one without a value makes a list of
flags out of that, and a list is not refused: the option then has a value that
nobody typed.

Main results: what such occurrences add up to (`isBareValue_storedAt`), and where
the tag and the branch of a run come from (`lastTyped_or_bare_of_tagText?`,
`lastTyped_or_bare_of_branchText`).
-/
import ReleaseNotes.Proofs.AskedRelease
import ReleaseNotes.Proofs.NamedOptions

namespace ReleaseNotes

namespace CommandLine

variable {args : List Text} {name : Text} {found : List Occurrence} {s : Setting}

/-- No value is typed for an option, which occurs more than once, and at last
without being switched off. -/
def Bare (name : Text) (args : List Text) : Prop :=
  (∀ i v, ¬ TypedAt name args i v)
    ∧ 2 ≤ ((occurrences args).filter (·.name = name)).length
    ∧ ∃ o, ((occurrences args).filter (·.name = name)).getLast? = some o ∧ o.given = .alone

/-! ### What bare occurrences add up to -/

/-- A list of flags, of which all but the first are on. -/
def flags (first : Bool) (n : Nat) : Setting :=
  .list (.flag first :: List.replicate (n + 1) (.flag true))

/-- The text of a list of flags. -/
def flagsText (first : Bool) (n : Nat) : Text :=
  [','].intercalate ((if first then "true".toList else "false".toList)
    :: List.replicate (n + 1) "true".toList)

/-- The values that bare occurrences add up to. -/
inductive IsBareValue : Option Setting → Prop
  | none : IsBareValue none
  | flag (on : Bool) : IsBareValue (some (.flag on))
  | flags (first : Bool) (n : Nat) : IsBareValue (some (flags first n))

theorem join_flags (first : Bool) (n : Nat) :
    join (some (flags first n)) (.flag true) = flags first (n + 1) := by
  simp [join, flags, List.replicate_succ']

theorem update_of_alone (hop : Setting.operation? false name = none) {o : Occurrence}
    (hn : o.name = name) (h : o.given = .alone) (old : Option Setting) :
    o.update old = join old (.flag true) := by
  rw [update_of_ne_negated (hn ▸ hop) (by rw [h]; exact nofun), h, Given.setting]

/-- One more bare occurrence. -/
theorem isBareValue_update (hop : Setting.operation? false name = none) {o : Occurrence}
    (hn : o.name = name) (h : o.given = .alone ∨ o.given = .negated) {old : Option Setting}
    (ho : IsBareValue old) : IsBareValue (some (o.update old)) := by
  rcases h with h | h
  · rw [update_of_alone hop hn h]
    cases ho with
    | none => exact .flag true
    | flag on =>
      -- here a flag that is refused becomes a list that is not
      exact .flags on 0
    | flags first n =>
      rw [join_flags]
      exact .flags first (n + 1)
  · -- switching off forgets what there was
    rw [update_of_negated h]
    exact .flag false

theorem isBareValue_foldl (hop : Setting.operation? false name = none)
    (h : ∀ o ∈ found, o.name = name ∧ (o.given = .alone ∨ o.given = .negated))
    {old : Option Setting} (ho : IsBareValue old) :
    IsBareValue (found.foldl (fun old o => some (o.update old)) old) := by
  induction found generalizing old with
  | nil => exact ho
  | cons o os ih =>
    obtain ⟨hn, hg⟩ := h o List.mem_cons_self
    exact ih (fun p hp => h p (List.mem_cons_of_mem _ hp)) (isBareValue_update hop hn hg ho)

/-! ### Options for which nothing is typed -/

theorem given_of_not_typed (h : IsLongName name) (ht : ∀ i v, ¬ TypedAt name args i v)
    {o : Occurrence} (ho : o ∈ (occurrences args).filter (·.name = name)) :
    o.name = name ∧ (o.given = .alone ∨ o.given = .negated) := by
  obtain ⟨hm, hn⟩ := List.mem_filter.1 ho
  have hn : o.name = name := by simpa using hn
  refine ⟨hn, ?_⟩
  by_cases ha : o.given = .alone
  · exact .inl ha
  · by_cases hg : o.given = .negated
    · exact .inr hg
    · have := isSome_lastTyped?_of_mem_occurrences h hm hn ha hg
      rw [lastTyped?_eq_none_iff.2 ht] at this
      cases this

/-- Without a typed value the stored value is bare. -/
theorem isBareValue_storedAt (h : IsLongName name) (hop : Setting.operation? false name = none)
    (ht : ∀ i v, ¬ TypedAt name args i v) : IsBareValue (storedAt (occurrences args) name) :=
  isBareValue_foldl hop (fun _ ho => given_of_not_typed h ht ho) .none

/-- A stored value that is no flag comes from bare occurrences, the last of which
is not switched off. -/
theorem bare_of_storedAt (h : IsLongName name) (hop : Setting.operation? false name = none)
    (ht : ∀ i v, ¬ TypedAt name args i v) (hs : storedAt (occurrences args) name = some s)
    (hf : s.isFlag = false) : Bare name args := by
  refine ⟨ht, ?_⟩
  have hg := fun o => given_of_not_typed h ht (o := o)
  obtain ⟨before, o, e, rfl⟩ := storedAt_eq_some_iff.1 hs
  rw [e] at hg ⊢
  obtain ⟨hn, ha | hneg⟩ := hg o (by simp)
  · refine ⟨?_, o, by simp, ha⟩
    cases before with
    | nil =>
      -- a single occurrence leaves a flag
      rw [List.foldl_nil, update_of_alone hop hn ha] at hf
      cases hf
    | cons p before => simp
  · rw [update_of_negated hneg] at hf
    cases hf

/-! ### Texts of bare options -/

theorem itemTexts_replicate (n : Nat) :
    Setting.itemTexts (List.replicate n (.flag true)) = .ok (List.replicate n "true".toList) := by
  induction n with
  | zero => rw [List.replicate_zero, Setting.itemTexts]; rfl
  | succ n ih =>
    rw [List.replicate_succ, Setting.itemTexts, ih, Setting.toText]
    rfl

theorem toText_flags (first : Bool) (n : Nat) :
    (flags first n).toText = .ok (flagsText first n) := by
  rw [flags, Setting.toText, Setting.itemTexts, itemTexts_replicate, Setting.toText]
  rfl

theorem lastText?_flags (first : Bool) (n : Nat) :
    lastText? (some (flags first n)) = some "true".toList := by
  have hl : (flags first n).last? = some (.flag true) := by
    show (Setting.flag first :: List.replicate (n + 1) (.flag true)).getLast? = _
    rw [List.replicate_succ', ← List.cons_append, List.getLast?_append]
    rfl
  simp only [lastText?, Option.bind, hl, Setting.toText]
  rfl

/-! ### The tag and the branch of a run -/

variable {o : Options} {t : Text}

/-- An option for which nothing is typed does not occur, or is bare. -/
theorem value_of_not_typed (hu : Undotted args) (hr : read args = .ok (.compose o))
    {v : ValueOption} (hv : v ≠ .address) (ht : ∀ i w, ¬ TypedAt v.name args i w) :
    (o.value v = v.default?.map .text ∧ ∀ oc ∈ occurrences args, oc.name ≠ v.name)
      ∨ Bare v.name args ∧ ∃ first n, o.value v = some (flags first n) := by
  have hl : IsLongName v.name := typedName_of_ne_address hv ▸ isLongName_typedName v
  have hop : Setting.operation? false v.name = none :=
    typedName_of_ne_address hv ▸ operation?_typedName v
  have hval := value_of_ne_address hu hr hv
  have hb := isBareValue_storedAt hl hop ht
  cases hs : storedAt (occurrences args) v.name with
  | none =>
    rw [hs, Option.none_or] at hval
    exact .inl ⟨hval, not_used_of_storedAt hs⟩
  | some s =>
    rw [hs, Option.some_or] at hval
    have hf := not_isFlag_of_read hr hval
    rw [hs] at hb
    cases hb with
    | flag on => cases hf
    | flags first n => exact .inr ⟨bare_of_storedAt hl hop ht hs hf, first, n, hval⟩

/-- **The tag is the last one typed**, or else the last value of a bare option. -/
theorem lastTyped_or_bare_of_tagText? (hu : Undotted args) (hr : read args = .ok (.compose o))
    (ht : tagText? args o = some t) :
    LastTyped ValueOption.tag.name args t
      ∨ Bare ValueOption.tag.name args ∧ t = "true".toList := by
  rw [tagText?] at ht
  cases e : lastTyped? ValueOption.tag.name args with
  | some t' =>
    rw [e] at ht
    obtain rfl : t' = t := Option.some.inj ht
    exact .inl (lastTyped?_eq_some_iff.1 e)
  | none =>
    rw [e, Option.none_or] at ht
    have hnt : ∀ i w, ¬ TypedAt ValueOption.tag.name args i w := lastTyped?_eq_none_iff.1 e
    rcases value_of_not_typed hu hr (by decide) hnt with ⟨hv, -⟩ | ⟨hb, first, n, hv⟩
    · -- the tag has no default
      have hnone : o.tag = none := hv
      rw [hnone] at ht
      cases ht
    · have hflags : o.tag = some (flags first n) := hv
      rw [hflags, lastText?_flags] at ht
      exact .inr ⟨hb, (Option.some.inj ht).symm⟩

/-- **The branch is the last one typed**, or the default where the option does not
occur, or else the values of a bare option with commas between them. -/
theorem lastTyped_or_bare_of_branchText (hu : Undotted args)
    (hr : read args = .ok (.compose o)) :
    LastTyped ValueOption.branch.name args (branchText args o)
      ∨ (branchText args o = defaultBranch
        ∧ ∀ oc ∈ occurrences args, oc.name ≠ ValueOption.branch.name)
      ∨ Bare ValueOption.branch.name args ∧ ∃ first n, branchText args o = flagsText first n := by
  unfold branchText
  cases e : lastTyped? ValueOption.branch.name args with
  | some b => exact .inl (lastTyped?_eq_some_iff.1 e)
  | none =>
    refine .inr ?_
    have hnt : ∀ i w, ¬ TypedAt ValueOption.branch.name args i w := lastTyped?_eq_none_iff.1 e
    rcases value_of_not_typed hu hr (by decide) hnt with ⟨hv, hn⟩ | ⟨hb, first, n, hv⟩
    · have hdefault : o.branch = some (.text defaultBranch) := hv
      refine .inl ⟨?_, hn⟩
      rw [hdefault]
      simp [Setting.toText, Except.toOption]
    · have hflags : o.branch = some (flags first n) := hv
      refine .inr ⟨hb, first, n, ?_⟩
      rw [hflags]
      simp [toText_flags, Except.toOption]

end CommandLine

end ReleaseNotes
