/-
ReleaseNotes/Proofs/TypedValue.lean

Typed values by their places on the command line.

`lastTyped?` goes through the arguments once, from the first one on.  Here a
value has a place instead: `TypedAt name args i v` says that the argument at
position `i` gives `v` to the option `name`, and `LastTyped` that no later one
gives it anything.

Main results: the scan finds exactly the value at the last such place
(`lastTyped?_eq_some_iff`), and nothing when there is none
(`lastTyped?_eq_none_iff`).
-/
import ReleaseNotes.CommandLine.Typed

namespace ReleaseNotes

namespace CommandLine

variable {name arg v : Text} {args rest : List Text}

/-- The argument at position `i` gives the option `name` the value `v`: it is in
front of the separator, and it is `--name` with `v` behind it, where `v` does not
begin with a dash, or it is `--name=v`. -/
def TypedAt (name : Text) (args : List Text) (i : Nat) (v : Text) : Prop :=
  separator ∉ args.take (i + 1)
    ∧ (args[i]? = some (flag name) ∧ args[i + 1]? = some v ∧ isDashed v = false
      ∨ args[i]? = some (flag name ++ '=' :: v))

/-- The value at the last position that gives the option `name` any. -/
def LastTyped (name : Text) (args : List Text) (v : Text) : Prop :=
  ∃ i, TypedAt name args i v ∧ ∀ j w, i < j → ¬ TypedAt name args j w

/-! ### One argument -/

theorem typedAt?_eq_some_iff {next : Option Text} :
    typedAt? name arg next = some v
      ↔ arg = flag name ∧ next = some v ∧ isDashed v = false ∨ arg = flag name ++ '=' :: v := by
  by_cases hf : arg = flag name
  · -- no text is longer than itself, so `--name` is not of the form `--name=v`
    subst hf
    simp [typedAt?]
  · by_cases hp : (flag name ++ ['=']).isPrefixOf arg = true
    · obtain ⟨w, rfl⟩ := List.isPrefixOf_iff_prefix.1 hp
      simp [typedAt?]
    · simp only [typedAt?, hf, if_false, hp]
      refine ⟨nofun, ?_⟩
      rintro (⟨h, -⟩ | rfl)
      · cases h
      · exact absurd (List.isPrefixOf_iff_prefix.2 ⟨v, by simp⟩) hp

/-! ### Places -/

theorem not_typedAt_nil (i : Nat) : ¬ TypedAt name [] i v := by
  rintro ⟨-, ⟨h, -⟩ | h⟩ <;> simp at h

theorem not_typedAt_separator (i : Nat) : ¬ TypedAt name (separator :: rest) i v := by
  rintro ⟨h, -⟩
  simp at h

theorem typedAt_zero (h : arg ≠ separator) :
    TypedAt name (arg :: rest) 0 v ↔ typedAt? name arg rest.head? = some v := by
  rw [typedAt?_eq_some_iff, TypedAt]
  simp [Ne.symm h, List.head?_eq_getElem?]

theorem typedAt_succ (h : arg ≠ separator) (i : Nat) :
    TypedAt name (arg :: rest) (i + 1) v ↔ TypedAt name rest i v := by
  rw [TypedAt, TypedAt]
  simp [Ne.symm h]

/-! ### The last place -/

theorem lastTyped?_eq_none_iff : lastTyped? name args = none ↔ ∀ i v, ¬ TypedAt name args i v := by
  induction args with
  | nil => simp [lastTyped?, not_typedAt_nil]
  | cons arg rest ih =>
    by_cases hs : arg = separator
    · subst hs
      simp [lastTyped?, not_typedAt_separator]
    · rw [lastTyped?_cons hs, Option.or_eq_none_iff, ih]
      constructor
      · rintro ⟨hr, ha⟩ i v h
        cases i with
        | zero => rw [typedAt_zero hs, ha] at h; cases h
        | succ i => exact hr i v ((typedAt_succ hs i).1 h)
      · intro h
        refine ⟨fun i v hi => h (i + 1) v ((typedAt_succ hs i).2 hi), ?_⟩
        refine Option.eq_none_iff_forall_ne_some.2 fun v hv => ?_
        exact h 0 v ((typedAt_zero hs).2 hv)

/-- **The scan finds the value at the last place that gives one.** -/
theorem lastTyped?_eq_some_iff : lastTyped? name args = some v ↔ LastTyped name args v := by
  induction args with
  | nil => simp [lastTyped?, LastTyped, not_typedAt_nil]
  | cons arg rest ih =>
    by_cases hs : arg = separator
    · subst hs
      simp [lastTyped?, LastTyped, not_typedAt_separator]
    · rw [lastTyped?_cons hs, Option.or_eq_some_iff, ih]
      constructor
      · rintro (⟨i, hi, hl⟩ | ⟨hn, ha⟩)
        · refine ⟨i + 1, (typedAt_succ hs i).2 hi, fun j w hj h => ?_⟩
          cases j with
          | zero => omega
          | succ j => exact hl j w (by omega) ((typedAt_succ hs j).1 h)
        · refine ⟨0, (typedAt_zero hs).2 ha, fun j w hj h => ?_⟩
          cases j with
          | zero => omega
          | succ j => exact lastTyped?_eq_none_iff.1 hn j w ((typedAt_succ hs j).1 h)
      · rintro ⟨i, hi, hl⟩
        cases i with
        | zero =>
          refine .inr ⟨lastTyped?_eq_none_iff.2 fun j w h => ?_, (typedAt_zero hs).1 hi⟩
          exact hl (j + 1) w (by omega) ((typedAt_succ hs j).2 h)
        | succ i =>
          refine .inl ⟨i, (typedAt_succ hs i).1 hi, fun j w hj h => ?_⟩
          exact hl (j + 1) w (by omega) ((typedAt_succ hs j).2 h)

end CommandLine

end ReleaseNotes
