/-
ReleaseNotes/Proofs/LongNames.lean

Options with long names: how one argument gives them a value.

A name of two characters or more is reached by two dashes only.  If it does not
look like a name that is switched off, its argument is read in one of two ways,
as the name alone or as name, sign and value; and where the reading finds a value
for the name, that value was typed for it.

Main results: the readings of the two spellings (`occurrencesFrom_flag`,
`occurrencesFrom_inline`), and the converse, that a value found for a long name is
one typed for it (`isSome_typedAt?_of_mem_readArgument`,
`isSome_lastTyped?_of_mem_occurrences`).
-/
import ReleaseNotes.Proofs.ScannedArguments
import ReleaseNotes.Proofs.TypedValue

namespace ReleaseNotes

namespace CommandLine

/-- A name of several characters that begins neither with a dash nor with an
`n`, and holds no sign. -/
structure IsLongName (name : Text) : Prop where
  two_le_length : 2 ≤ name.length
  head?_ne_dash : name.head? ≠ some '-'
  head?_ne_n : name.head? ≠ some 'n'
  sign_not_mem : '=' ∉ name

variable {name text v : Text} {next : Option Text}

/-! ### Names and values in one argument -/

theorem dashCount_flag (h : text.head? ≠ some '-') : dashCount (flag text) = 2 :=
  dashCount_replicate_append (beq_eq_false_iff_ne.2 h) 2

theorem negated?_eq_none (hne : name ≠ []) (h : name.head? ≠ some 'n') (s : Text) :
    negated? (name ++ s) = none := by
  obtain ⟨c, t, rfl⟩ := List.exists_cons_of_ne_nil hne
  have hc : 'n' ≠ c := by
    rintro rfl
    exact h rfl
  simp [negated?, negation, hc]

theorem nameAndValue_name (h : '=' ∉ name) : nameAndValue name = (name, []) := by
  cases name with
  | nil => rfl
  | cons c s =>
    have hs : ∀ d ∈ s, (d != '=') = true := by
      intro d hd
      have : d ≠ '=' := by
        rintro rfl
        exact h (List.mem_cons_of_mem _ hd)
      simpa using this
    have htake : s.takeWhile (· != '=') = s := by
      have h : (s ++ []).takeWhile (· != '=') = s ++ [].takeWhile (· != '=') :=
        List.takeWhile_append_of_pos hs
      simpa using h
    have hdrop : s.dropWhile (· != '=') = [] := by
      have h : (s ++ []).dropWhile (· != '=') = [].dropWhile (· != '=') :=
        List.dropWhile_append_of_pos hs
      simpa using h
    rw [nameAndValue, htake, hdrop]
    rfl

theorem nameAndValue_sign (hne : name ≠ []) (h : '=' ∉ name) (v : Text) :
    nameAndValue (name ++ '=' :: v) = (name, v) := by
  obtain ⟨c, s, rfl⟩ := List.exists_cons_of_ne_nil hne
  have hs : ∀ d ∈ s, (d != '=') = true := by
    intro d hd
    have : d ≠ '=' := by
      rintro rfl
      exact h (List.mem_cons_of_mem _ hd)
    simpa using this
  rw [List.cons_append, nameAndValue, List.takeWhile_append_of_pos hs,
    List.dropWhile_append_of_pos hs]
  simp

/-- Name and value make up the argument, with a sign between them if there is a
value. -/
theorem eq_of_nameAndValue (h : nameAndValue text = (name, v)) :
    text = name ∧ v = [] ∨ text = name ++ '=' :: v := by
  cases text with
  | nil =>
    obtain ⟨rfl, rfl⟩ := Prod.mk.inj h
    exact .inl ⟨rfl, rfl⟩
  | cons c s =>
    obtain ⟨rfl, rfl⟩ := Prod.mk.inj h
    have hs : s.takeWhile (· != '=') ++ s.dropWhile (· != '=') = s :=
      List.takeWhile_append_dropWhile
    cases hd : s.dropWhile (· != '=') with
    | nil =>
      rw [hd, List.append_nil] at hs
      exact .inl ⟨by rw [hs], rfl⟩
    | cons d rest =>
      obtain rfl : d = '=' := by
        have := List.head?_dropWhile_not (· != '=') s
        rw [hd] at this
        simpa using this
      rw [hd] at hs
      exact .inr (congrArg (c :: ·) hs.symm)

/-! ### The two spellings -/

theorem IsLongName.ne_nil (h : IsLongName name) : name ≠ [] := by
  rintro rfl
  exact absurd h.two_le_length (by decide)

theorem IsLongName.flag_append_ne_separator (h : IsLongName name) (s : Text) :
    flag name ++ s ≠ separator := by
  intro hs
  obtain ⟨c, t, rfl⟩ := List.exists_cons_of_ne_nil h.ne_nil
  simp [flag, separator] at hs

/-- A long name takes the next argument as its value, if there is one without a dash. -/
theorem readArgument_flag (h : IsLongName name) (next : Option Text) :
    readArgument (flag name) next = match next.filter (!isDashed ·) with
      | some v => ([⟨name, .value v⟩], true)
      | none => ([⟨name, .alone⟩], false) := by
  have hneg : negated? name = none := by
    simpa using negated?_eq_none h.ne_nil h.head?_ne_n []
  have htext : (flag name).drop 2 = name := rfl
  cases hn : next.filter (!isDashed ·) <;>
    simp [readArgument, dashCount_flag h.head?_ne_dash, htext, hneg,
      nameAndValue_name h.sign_not_mem, hn, spread]

/-- A long name with a sign has the text behind the sign as its value. -/
theorem readArgument_inline (h : IsLongName name) (hv : v ≠ []) (next : Option Text) :
    readArgument (flag name ++ '=' :: v) next = ([⟨name, .value v⟩], false) := by
  obtain ⟨c, s, rfl⟩ := List.exists_cons_of_ne_nil hv
  have hhead : (name ++ '=' :: c :: s).head? ≠ some '-' := by
    obtain ⟨d, t, rfl⟩ := List.exists_cons_of_ne_nil h.ne_nil
    exact h.head?_ne_dash
  have hcount : dashCount (flag name ++ '=' :: c :: s) = 2 := dashCount_flag hhead
  have htext : (flag name ++ '=' :: c :: s).drop 2 = name ++ '=' :: c :: s := rfl
  simp [readArgument, hcount, htext, negated?_eq_none h.ne_nil h.head?_ne_n,
    nameAndValue_sign h.ne_nil h.sign_not_mem, spread]

/-- A long name in front of a text without a dash is one occurrence. -/
theorem occurrencesFrom_flag (h : IsLongName name) (hv : isDashed v = false) (rest : List Text) :
    occurrencesFrom false (flag name :: v :: rest)
      = ⟨name, .value v⟩ :: occurrencesFrom false rest := by
  have hf : flag name ≠ separator := by
    simpa using h.flag_append_ne_separator []
  have hnext : (some v).filter (!isDashed ·) = some v := by
    simp [Option.filter_some, hv]
  rw [occurrencesFrom_cons hf, List.head?_cons, readArgument_flag h, hnext, occurrencesFrom_taken]
  rfl

/-- A long name with a sign and a text behind it is one occurrence. -/
theorem occurrencesFrom_inline (h : IsLongName name) (hv : v ≠ []) (rest : List Text) :
    occurrencesFrom false ((flag name ++ '=' :: v) :: rest)
      = ⟨name, .value v⟩ :: occurrencesFrom false rest := by
  rw [occurrencesFrom_cons (h.flag_append_ne_separator _), readArgument_inline h hv]
  rfl

theorem eq_of_flag {s t : Text} (h : flag s = flag t) : s = t :=
  (List.cons.inj (List.cons.inj h).2).2

theorem typedAt?_flag {name' : Text} (h : IsLongName name) (next : Option Text) :
    typedAt? name' (flag name) next
      = if name = name' then next.filter (!isDashed ·) else none := by
  by_cases hn : name = name'
  · simp [typedAt?, hn]
  · have hf : flag name ≠ flag name' := fun he => hn (eq_of_flag he)
    refine (Option.eq_none_iff_forall_ne_some.2 fun w hw => ?_).trans (if_neg hn).symm
    rcases typedAt?_eq_some_iff.1 hw with ⟨he, -⟩ | he
    · exact hf he
    · have he : name = name' ++ '=' :: w := eq_of_flag he
      exact h.sign_not_mem (he ▸ by simp)

theorem typedAt?_inline {name' : Text} (h : IsLongName name) (h' : IsLongName name') (v : Text)
    (next : Option Text) :
    typedAt? name' (flag name ++ '=' :: v) next = if name = name' then some v else none := by
  by_cases hn : name = name'
  · rw [if_pos hn, ← hn]
    exact typedAt?_eq_some_iff.2 (.inr rfl)
  · refine (Option.eq_none_iff_forall_ne_some.2 fun w hw => ?_).trans (if_neg hn).symm
    rcases typedAt?_eq_some_iff.1 hw with ⟨he, -⟩ | he
    · have he : name ++ '=' :: v = name' := eq_of_flag he
      exact h'.sign_not_mem (he ▸ by simp)
    · -- both names end at the first sign
      have he : name ++ '=' :: v = name' ++ '=' :: w := eq_of_flag he
      have hs := congrArg nameAndValue he
      rw [nameAndValue_sign h.ne_nil h.sign_not_mem, nameAndValue_sign h'.ne_nil h'.sign_not_mem]
        at hs
      exact hn (Prod.mk.inj hs).1

theorem typedAt?_of_not_isDashed {arg : Text} (h : isDashed arg = false) :
    typedAt? name arg next = none := by
  refine Option.eq_none_iff_forall_ne_some.2 fun w hw => ?_
  rcases typedAt?_eq_some_iff.1 hw with ⟨rfl, -⟩ | rfl <;> cases h

/-! ### Values that are found were typed -/

variable {arg : Text} {args : List Text} {o : Occurrence}

/-- A cluster consists of short names. -/
theorem length_of_mem_cluster {given : Given} (h : o ∈ cluster given text) : o.name.length = 1 := by
  fun_induction cluster given text with
  | case1 => cases h
  | case2 c =>
    rw [List.mem_singleton.1 h]
    rfl
  | case3 c s _ ih =>
    rcases List.mem_cons.1 h with rfl | h
    · rfl
    · exact ih h

/-- A long name is reached by two dashes only. -/
theorem eq_of_mem_spread (h : IsLongName name) {dashes : Nat} {given : Given}
    (ho : o ∈ spread dashes text given) (hn : o.name = name) :
    dashes = 2 ∧ text = name ∧ o.given = given := by
  unfold spread at ho
  split at ho
  · obtain rfl := List.mem_singleton.1 ho
    exact ⟨‹_›, hn, rfl⟩
  · have hl := h.two_le_length
    rw [← hn, length_of_mem_cluster ho] at hl
    omega

theorem eq_flag_of_dashCount (h : dashCount arg = 2) : arg = flag (arg.drop (dashCount arg)) := by
  have hd : ∀ c ∈ arg.takeWhile (· == '-'), c = '-' := by
    intro c hc
    simpa using List.all_eq_true.1 List.all_takeWhile c hc
  have ht : arg.takeWhile (· == '-') = ['-', '-'] :=
    List.eq_replicate_iff.2 ⟨h, hd⟩
  have ha := List.takeWhile_append_dropWhile (p := (· == '-')) (l := arg)
  rw [ht] at ha
  rw [h, ← ha]
  rfl

theorem isSome_typedAt?_of_mem_readArgument (h : IsLongName name)
    (ho : o ∈ (readArgument arg next).1) (hn : o.name = name) (ha : o.given ≠ .alone)
    (hneg : o.given ≠ .negated) : (typedAt? name arg next).isSome = true := by
  unfold readArgument at ho
  simp only at ho
  split at ho
  · -- an argument without dashes is kept under a short name
    obtain rfl := List.mem_singleton.1 ho
    have hl := h.two_le_length
    rw [← hn] at hl
    exact absurd hl (show ¬ 2 ≤ plainName.length by decide)
  · split at ho
    · obtain rfl := List.mem_singleton.1 ho
      exact absurd rfl hneg
    · -- the value stands in the argument
      rename_i _ text' c value _ hv
      obtain ⟨hd, rfl, -⟩ := eq_of_mem_spread h ho hn
      rcases eq_of_nameAndValue hv with ⟨-, he⟩ | he
      · cases he
      · have hf := eq_flag_of_dashCount hd
        rw [he] at hf
        have : typedAt? text' arg next = some (c :: value) := by
          rw [hf]
          simp [typedAt?, flag]
        rw [this]
        rfl
    · -- the value is the next argument, and the name may have a sign behind it
      rename_i text' w _ hv hw
      obtain ⟨hd, rfl, -⟩ := eq_of_mem_spread h ho hn
      have hf := eq_flag_of_dashCount hd
      rcases eq_of_nameAndValue hv with ⟨he, -⟩ | he
      · rw [he] at hf
        simp [typedAt?, hf, hw]
      · rw [he] at hf
        rw [hf]
        simp [typedAt?, flag]
    · obtain ⟨-, -, he⟩ := eq_of_mem_spread h ho hn
      exact absurd he ha

/-- **Where an occurrence of a long name has a value, one was typed for it.** -/
theorem isSome_lastTyped?_of_mem_occurrences (h : IsLongName name)
    (ho : o ∈ occurrences args) (hn : o.name = name) (ha : o.given ≠ .alone)
    (hneg : o.given ≠ .negated) : (lastTyped? name args).isSome = true := by
  have scan : o ∈ occurrencesFrom false args → (lastTyped? name args).isSome = true := by
    refine scan_induction (P := fun taken args => o ∈ occurrencesFrom taken args →
      (lastTyped? name args).isSome = true) ?_ ?_ ?_ ?_ args
    · exact fun ho => absurd ho List.not_mem_nil
    · -- nothing occurs here, and the value was found one argument earlier
      intro arg rest hd ih ho
      rw [occurrencesFrom_taken] at ho
      rw [lastTyped?_cons (ne_separator_of_not_isDashed hd), Option.isSome_or, ih ho, Bool.true_or]
    · intro rest ho
      rw [occurrencesFrom_separator] at ho
      cases ho
    · intro arg rest hs ih ho
      rw [occurrencesFrom_cons hs] at ho
      rw [lastTyped?_cons hs, Option.isSome_or]
      rcases List.mem_append.1 ho with ho | ho
      · rw [isSome_typedAt?_of_mem_readArgument h ho hn ha hneg, Bool.or_true]
      · rw [ih ho, Bool.true_or]
  exact scan ho

end CommandLine

end ReleaseNotes
