/-
ReleaseNotes/Proofs/IdleArguments.lean

Arguments that give an option no value.

The scan for a typed value looks at each argument and at the one behind it, so what it
finds can be cut in front of any argument with a dash, which is the value of none:

    lastTyped? name (front ++ rest) = (lastTyped? name rest).or (lastTyped? name front).

An idle argument is one with a dash that gives the option no value: the option itself with
no value behind it, or another option whose name begins alike.  Wherever one stands, the
value is found in what precedes it and in what follows, and that is all the difference it
makes.

Main results: the scan is cut in front of a dash (`lastTyped?_append_of_isDashed`), and the
value that is typed last by its place, whatever idle arguments there are and whatever follows
the separator (`lastTyped?_places`).
-/
import ReleaseNotes.Proofs.TypedValue

namespace ReleaseNotes

namespace CommandLine

variable {name arg v : Text} {front rest : List Text} {next : Option Text}

/-! ### Cuts -/

/-- An argument with a dash is no value, so it is as if there were no argument. -/
theorem typedAt?_of_isDashed (h : isDashed v = true) :
    typedAt? name arg (some v) = typedAt? name arg none := by
  simp [typedAt?, Option.filter, h]

/-- **The scan is cut in front of a dash.** -/
theorem lastTyped?_append_of_isDashed (hs : separator ∉ front)
    (hr : ∀ v ∈ rest.head?, isDashed v = true) :
    lastTyped? name (front ++ rest) = (lastTyped? name rest).or (lastTyped? name front) := by
  induction front with
  | nil => exact (Option.or_none).symm
  | cons arg front ih =>
    obtain ⟨ha, hs⟩ := List.ne_and_not_mem_of_not_mem_cons hs
    -- the argument behind `arg` is the same one, or has a dash
    have hnext : typedAt? name arg (front ++ rest).head? = typedAt? name arg front.head? := by
      cases front with
      | nil =>
        cases rest with
        | nil => rfl
        | cons v rest => exact typedAt?_of_isDashed (hr v rfl)
      | cons next front => rfl
    rw [List.cons_append, lastTyped?_cons (Ne.symm ha), lastTyped?_cons (Ne.symm ha), ih hs, hnext,
      Option.or_assoc]

/-! ### Idle arguments -/

/-- The argument `arg`, with `next` behind it, gives the option `name` no value: it is the
option without a value, or an option with a longer name. -/
inductive Idle (name : Text) (next : Option Text) : Text → Prop
  | bare : (∀ v ∈ next, isDashed v = true) → Idle name next (flag name)
  | longer {c : Char} (more : Text) : c ≠ '=' → Idle name next (flag name ++ c :: more)

theorem Idle.isDashed (h : Idle name next arg) : isDashed arg = true := by
  cases h <;> rfl

theorem Idle.typedAt?_eq_none (h : Idle name next arg) : typedAt? name arg next = none := by
  refine Option.eq_none_iff_forall_ne_some.2 fun v hv => ?_
  rcases typedAt?_eq_some_iff.1 hv with ⟨he, hn, hd⟩ | he
  · cases h with
    | bare hnext =>
      rw [hnext v hn] at hd
      cases hd
    | longer more hc => simp at he
  · cases h with
    | bare hnext => simp at he
    | longer more hc => exact hc (List.cons_eq_cons.1 (List.append_cancel_left he)).1

/-- The value is found in front of an idle argument or behind it. -/
theorem lastTyped?_of_idle (hs : separator ∉ front ++ [arg]) (h : Idle name rest.head? arg) :
    lastTyped? name (front ++ arg :: rest)
      = (lastTyped? name rest).or (lastTyped? name front) := by
  rw [List.mem_append, List.mem_singleton, not_or] at hs
  obtain ⟨hfront, harg⟩ := hs
  have hdash : ∀ v ∈ (arg :: rest).head?, CommandLine.isDashed v = true := by
    intro v hv
    obtain rfl := Option.some.inj hv
    exact h.isDashed
  rw [lastTyped?_append_of_isDashed hfront hdash, lastTyped?_cons (Ne.symm harg),
    h.typedAt?_eq_none, Option.or_none]

/-! ### The value that is typed last -/

/-- **What is found is the value at the last place that gives one**, and nothing exactly when
there is no such place.  An idle argument only parts what precedes it from what follows, and
from the separator on nothing matters. -/
theorem lastTyped?_places (name : Text) (args : List Text) :
    (∀ v, lastTyped? name args = some v ↔
        ∃ i, TypedAt name args i v ∧ ∀ j w, TypedAt name args j w → j ≤ i)
      ∧ (lastTyped? name args = none ↔ ∀ i v, ¬ TypedAt name args i v)
      ∧ (∀ front arg rest, args = front ++ arg :: rest → separator ∉ front ++ [arg] →
        Idle name rest.head? arg →
          lastTyped? name args = (lastTyped? name rest).or (lastTyped? name front))
      ∧ ∀ behind, lastTyped? name (args ++ separator :: behind) = lastTyped? name args := by
  refine ⟨fun v => ?_, lastTyped?_eq_none_iff, ?_, lastTyped?_append_separator name args⟩
  · rw [lastTyped?_eq_some_iff, LastTyped]
    refine exists_congr fun i => and_congr_right fun _ => ?_
    exact ⟨fun h j w hj => Nat.le_of_not_lt fun hlt => h j w hlt hj,
      fun h j w hlt hj => Nat.not_le_of_lt hlt (h j w hj)⟩
  · rintro front arg rest rfl hs h
    exact lastTyped?_of_idle hs h

/-- An inline value with a sign in it, behind which the option is without a value twice and
another one begins alike. -/
theorem lastTyped?_places_of_idle :
    let front := ["x".toList, "--tag".toList, "v1".toList, "--tag=a=b".toList, "--tag".toList]
    let rest := ["w".toList, "--tag".toList, "--".toList, "--tag=z".toList]
    Idle "tag".toList rest.head? "--tagged".toList
      ∧ lastTyped? "tag".toList (front ++ "--tagged".toList :: rest)
        = (lastTyped? "tag".toList rest).or (lastTyped? "tag".toList front)
      ∧ ∃ i, TypedAt "tag".toList (front ++ "--tagged".toList :: rest) i "a=b".toList
        ∧ ∀ j w, TypedAt "tag".toList (front ++ "--tagged".toList :: rest) j w → j ≤ i := by
  intro front rest
  have hidle : Idle "tag".toList rest.head? "--tagged".toList :=
    .longer (c := 'g') "ed".toList (by decide)
  obtain ⟨hlast, -, hparts, -⟩ :=
    lastTyped?_places "tag".toList (front ++ "--tagged".toList :: rest)
  exact ⟨hidle, hparts front _ rest rfl (by decide) hidle, (hlast _).1 (by decide)⟩

end CommandLine

end ReleaseNotes
