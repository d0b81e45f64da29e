/-
ReleaseNotes/Proofs/ScannedArguments.lean

How the occurrences on a command line come about.

The scan goes through the arguments once.  It stops at the separator, passes over an
argument that was taken as a value, and reads any other one by itself.  An argument that
is taken does not begin with a dash, so it is neither the separator nor an option.

One argument gives occurrences of four kinds: a plain argument, a name that is switched
off, a short name of one character, or the long name behind two dashes.

Main results: induction along the scan (`scan_induction`), the kinds of occurrences
(`readFrom_of_mem_readArgument`), and every occurrence is read from an argument in front
of the separator (`exists_readFrom_of_mem_occurrences`).
-/
import ReleaseNotes.CommandLine.Occurrence

namespace ReleaseNotes

namespace CommandLine

variable {arg : Text} {args : List Text} {next : Option Text} {o : Occurrence}

/-! ### Along the scan -/

theorem ne_separator_of_not_isDashed (h : isDashed arg = false) : arg ≠ separator := by
  rintro rfl
  cases h

/-- An argument that is taken as a value does not begin with a dash. -/
theorem not_isDashed_of_takes (h : (readArgument arg next).2 = true) :
    ∃ v, next = some v ∧ isDashed v = false := by
  unfold readArgument at h
  simp only at h
  split at h
  · cases h
  · split at h
    · cases h
    · cases h
    · rename_i w _ _ hw
      obtain ⟨hn, hd⟩ := Option.filter_eq_some_iff.1 hw
      exact ⟨w, hn, by simpa using hd⟩
    · cases h

/-- Induction along the scan: `P taken args` is about the arguments `args`, of which the
first is already taken as a value if `taken` says so. -/
theorem scan_induction {P : Bool → List Text → Prop} (nil : P false [])
    (taken : ∀ arg rest, isDashed arg = false → P false rest → P true (arg :: rest))
    (stop : ∀ rest, P false (separator :: rest))
    (read : ∀ arg rest, arg ≠ separator → P (readArgument arg rest.head?).2 rest →
      P false (arg :: rest))
    (args : List Text) : P false args := by
  have scan : ∀ (args : List Text) (t : Bool),
      (t = true → ∃ v, args.head? = some v ∧ isDashed v = false) → P t args := by
    intro args
    induction args with
    | nil =>
      intro t ht
      cases t with
      | true =>
        obtain ⟨v, hv, -⟩ := ht rfl
        cases hv
      | false => exact nil
    | cons arg rest ih =>
      intro t ht
      cases t with
      | true =>
        obtain ⟨v, hv, hd⟩ := ht rfl
        obtain rfl : arg = v := Option.some.inj hv
        exact taken arg rest hd (ih false nofun)
      | false =>
        by_cases hs : arg = separator
        · exact hs ▸ stop rest
        · exact read arg rest hs (ih _ not_isDashed_of_takes)
  exact scan args false nofun

theorem occurrencesFrom_taken (arg : Text) (rest : List Text) :
    occurrencesFrom true (arg :: rest) = occurrencesFrom false rest := by
  rw [occurrencesFrom, if_pos rfl]

theorem occurrencesFrom_separator (rest : List Text) :
    occurrencesFrom false (separator :: rest) = [] := by
  rw [occurrencesFrom, if_neg Bool.false_ne_true, if_pos rfl]

theorem occurrencesFrom_cons (h : arg ≠ separator) (rest : List Text) :
    occurrencesFrom false (arg :: rest) = (readArgument arg rest.head?).1
      ++ occurrencesFrom (readArgument arg rest.head?).2 rest := by
  rw [occurrencesFrom, if_neg Bool.false_ne_true, if_neg h]

/-! ### Dashes in front -/

theorem dashCount_eq_zero_iff : dashCount arg = 0 ↔ isDashed arg = false := by
  cases arg with
  | nil => simp [dashCount, isDashed]
  | cons c s => by_cases hc : c = '-' <;> simp [dashCount, isDashed, hc]

theorem dashCount_cons_dash (text : Text) : dashCount ('-' :: text) = dashCount text + 1 := rfl

/-- All dashes in front of a text are counted, and no others. -/
theorem dashCount_replicate_append {text : Text} (h : isDashed text = false) (n : Nat) :
    dashCount (List.replicate n '-' ++ text) = n := by
  induction n with
  | zero => exact dashCount_eq_zero_iff.2 h
  | succ n ih => rw [List.replicate_succ, List.cons_append, dashCount_cons_dash, ih]

/-- An argument is its dashes in front and a text that does not begin with one. -/
theorem replicate_append_drop (arg : Text) :
    List.replicate (dashCount arg) '-' ++ arg.drop (dashCount arg) = arg := by
  induction arg with
  | nil => rfl
  | cons c s ih =>
    by_cases hc : c = '-'
    · subst hc
      rw [dashCount_cons_dash, List.replicate_succ, List.drop_succ_cons, List.cons_append, ih]
    · simp [dashCount, hc]

theorem isDashed_drop_dashCount (arg : Text) : isDashed (arg.drop (dashCount arg)) = false := by
  induction arg with
  | nil => rfl
  | cons c s ih =>
    by_cases hc : c = '-'
    · subst hc
      rwa [dashCount_cons_dash, List.drop_succ_cons]
    · simp [dashCount, isDashed, hc]

theorem negated?_eq_some_iff {name text : Text} :
    negated? text = some name ↔ text = negation ++ name := by
  unfold negated?
  constructor
  · intro h
    split at h
    · rename_i hp
      obtain ⟨t, rfl⟩ := List.isPrefixOf_iff_prefix.1 hp
      rw [List.drop_left] at h
      rw [Option.some.inj h]
    · cases h
  · rintro rfl
    rw [if_pos (List.isPrefixOf_iff_prefix.2 (List.prefix_append _ _)), List.drop_left]

/-! ### One argument -/

/-- Given as an option is that is not switched off: alone or with a value. -/
def Given.IsDirect (g : Given) : Prop :=
  g = .alone ∨ ∃ v, g = .value v

/-- How an occurrence is read from one argument. -/
inductive ReadFrom (arg : Text) : Occurrence → Prop
  | plain : isDashed arg = false → ReadFrom arg ⟨plainName, .plain arg⟩
  | negated {name : Text} : isDashed arg = true →
    negated? (arg.drop (dashCount arg)) = some name → ReadFrom arg ⟨name, .negated⟩
  | short (c : Char) {given : Given} : given.IsDirect → ReadFrom arg ⟨[c], given⟩
  | long {given : Given} : dashCount arg = 2 → given.IsDirect →
    ReadFrom arg ⟨(nameAndValue (arg.drop 2)).1, given⟩

theorem readFrom_of_mem_cluster {given : Given} {text : Text} (hg : given.IsDirect)
    (h : o ∈ cluster given text) : ReadFrom arg o := by
  fun_induction cluster given text with
  | case1 => cases h
  | case2 c =>
    obtain rfl := List.mem_singleton.1 h
    exact .short c hg
  | case3 c s _ ih =>
    rcases List.mem_cons.1 h with rfl | h
    · exact .short c (.inl rfl)
    · exact ih h

theorem readFrom_of_mem_spread {name v : Text} {given : Given} (hg : given.IsDirect)
    (hv : nameAndValue (arg.drop (dashCount arg)) = (name, v))
    (h : o ∈ spread (dashCount arg) name given) : ReadFrom arg o := by
  unfold spread at h
  split at h
  · rename_i hd
    obtain rfl := List.mem_singleton.1 h
    rw [hd] at hv
    have hname : (nameAndValue (arg.drop 2)).1 = name := by rw [hv]
    exact hname ▸ .long hd hg
  · exact readFrom_of_mem_cluster hg h

/-- What is read from an argument is a plain argument, a name that is switched off, a
short name or the long one. -/
theorem readFrom_of_mem_readArgument (h : o ∈ (readArgument arg next).1) : ReadFrom arg o := by
  unfold readArgument at h
  simp only at h
  split at h
  · rename_i hd
    obtain rfl := List.mem_singleton.1 h
    exact .plain (dashCount_eq_zero_iff.1 hd)
  · rename_i hd
    have hdash : isDashed arg = true := by
      simpa using mt dashCount_eq_zero_iff.2 hd
    split at h
    · rename_i hn
      obtain rfl := List.mem_singleton.1 h
      exact .negated hdash hn
    · rename_i hv
      exact readFrom_of_mem_spread (.inr ⟨_, rfl⟩) hv h
    · rename_i hv _
      exact readFrom_of_mem_spread (.inr ⟨_, rfl⟩) hv h
    · rename_i hv _
      exact readFrom_of_mem_spread (.inl rfl) hv h

/-! ### All arguments -/

theorem takeWhile_cons_of_ne (h : arg ≠ separator) (rest : List Text) :
    (arg :: rest).takeWhile (· ≠ separator) = arg :: rest.takeWhile (· ≠ separator) :=
  List.takeWhile_cons_of_pos (by simpa using h)

/-- **Every occurrence is read from an argument in front of the separator.** -/
theorem exists_readFrom_of_mem_occurrences :
    o ∈ occurrences args → ∃ arg ∈ args.takeWhile (· ≠ separator), ReadFrom arg o := by
  refine scan_induction (P := fun taken args => o ∈ occurrencesFrom taken args →
    ∃ arg ∈ args.takeWhile (· ≠ separator), ReadFrom arg o) ?_ ?_ ?_ ?_ args
  · exact fun h => absurd h List.not_mem_nil
  · intro arg rest hd ih h
    rw [occurrencesFrom_taken] at h
    obtain ⟨arg', hm, hr⟩ := ih h
    rw [takeWhile_cons_of_ne (ne_separator_of_not_isDashed hd)]
    exact ⟨arg', List.mem_cons_of_mem arg hm, hr⟩
  · intro rest h
    rw [occurrencesFrom_separator] at h
    cases h
  · intro arg rest hs ih h
    rw [occurrencesFrom_cons hs] at h
    rw [takeWhile_cons_of_ne hs]
    rcases List.mem_append.1 h with h | h
    · exact ⟨arg, List.mem_cons_self, readFrom_of_mem_readArgument h⟩
    · obtain ⟨arg', hm, hr⟩ := ih h
      exact ⟨arg', List.mem_cons_of_mem arg hm, hr⟩

end CommandLine

end ReleaseNotes
