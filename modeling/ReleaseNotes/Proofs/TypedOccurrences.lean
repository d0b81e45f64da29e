/-
ReleaseNotes/Proofs/TypedOccurrences.lean

The two scans of a command line find the same values.

One scan looks for occurrences of options: it passes over the values that it takes, cuts
names at the first sign, and keeps numbers for what reads as numbers.  The other one
looks for typed values: it looks at every argument and at the one behind it.  Still the
typed values of a long name are the values of its occurrences, one for one.  The one
exception is a name with a sign and nothing behind it: the first scan then takes the
next argument, and the second one takes the empty text.

So the value that is typed last is, as a number or as a text, the last value that is
kept, apart from those of occurrences that have none and are just on.

Main results: the value that is typed last is that of the last occurrence with a value
(`lastTyped?_eq_getLast?`), and how the typed value and those that are kept go together
(`lastTyped?_of_valuesFor`).
-/
import ReleaseNotes.Proofs.NamedOptions
import ReleaseNotes.Proofs.ParsedValues

namespace ReleaseNotes

namespace CommandLine

variable {name arg t : Text} {args : List Text} {next : Option Text}
  {found : List Occurrence} {gs : List Given}

/-! ### The texts of occurrences -/

/-- The text that is given as a value. -/
def Given.text? : Given → Option Text
  | .value t => some t
  | _ => none

/-- The texts that a name is given as its values, in their order. -/
def textsFor (found : List Occurrence) (name : Text) : List Text :=
  (found.filter (·.name = name)).filterMap (·.given.text?)

theorem textsFor_append (found more : List Occurrence) (name : Text) :
    textsFor (found ++ more) name = textsFor found name ++ textsFor more name := by
  rw [textsFor, List.filter_append, List.filterMap_append]
  rfl

theorem textsFor_singleton (name : Text) (g : Given) :
    textsFor [⟨name, g⟩] name = g.text?.toList := by
  cases g <;> simp [textsFor, Given.text?]

/-- One argument gives a long name the value that is typed in it, and no other. -/
theorem textsFor_readArgument (h : IsLongName name) (hs : arg ≠ flag name ++ ['='])
    (next : Option Text) :
    textsFor (readArgument arg next).1 name = (typedAt? name arg next).toList := by
  by_cases hf : arg = flag name
  · subst hf
    rw [typedAt?_flag h, if_pos rfl]
    rw [readArgument_flag h]
    cases next.filter (!isDashed ·) <;> exact textsFor_singleton name _
  · by_cases hi : ∃ v, arg = flag name ++ '=' :: v
    · obtain ⟨v, rfl⟩ := hi
      have hv : v ≠ [] := by
        rintro rfl
        exact hs rfl
      rw [readArgument_inline h hv, textsFor_singleton, typedAt?_inline h h, if_pos rfl]
      rfl
    · -- the argument is of neither form, so no value is typed in it and none is read from it
      have hnone : typedAt? name arg next = none := by
        refine Option.eq_none_iff_forall_ne_some.2 fun v hv => ?_
        rcases typedAt?_eq_some_iff.1 hv with ⟨he, -⟩ | he
        · exact hf he
        · exact hi ⟨v, he⟩
      rw [hnone, textsFor, List.filterMap_eq_nil_iff.2]
      · rfl
      · intro o ho
        obtain ⟨hm, hn⟩ := List.mem_filter.1 ho
        cases hg : o.given with
        | value t =>
          have := isSome_typedAt?_of_mem_readArgument h hm (by simpa using hn)
            (by rw [hg]; exact nofun) (by rw [hg]; exact nofun)
          rw [hnone] at this
          cases this
        | alone | negated | plain => rfl

/-- **The value that is typed last is that of the last occurrence with a value.** -/
theorem lastTyped?_eq_getLast? (h : IsLongName name) : flag name ++ ['='] ∉ args →
    lastTyped? name args = (textsFor (occurrences args) name).getLast? := by
  refine scan_induction (P := fun taken args => flag name ++ ['='] ∉ args →
    lastTyped? name args = (textsFor (occurrencesFrom taken args) name).getLast?) ?_ ?_ ?_ ?_ args
  · exact fun _ => rfl
  · intro arg rest hd ih hs
    rw [lastTyped?_cons (ne_separator_of_not_isDashed hd), typedAt?_of_not_isDashed hd,
      Option.or_none, occurrencesFrom_taken, ih (fun hm => hs (List.mem_cons_of_mem arg hm))]
  · intro rest _
    rw [occurrencesFrom_separator, lastTyped?, if_pos rfl]
    rfl
  · intro arg rest hsep ih hs
    obtain ⟨ha, hr⟩ := List.ne_and_not_mem_of_not_mem_cons hs
    rw [lastTyped?_cons hsep, occurrencesFrom_cons hsep, textsFor_append,
      textsFor_readArgument h (Ne.symm ha), List.getLast?_append, ih hr]
    cases typedAt? name arg rest.head? <;> rfl

/-! ### The last value that is not just on -/

/-- `v` is the last of the values `vs` that is not just on. -/
def IsLastWord (vs : List Setting) (v : Setting) : Prop :=
  ∃ before after, vs = before ++ v :: after ∧ v ≠ .flag true ∧ ∀ w ∈ after, w = .flag true

theorem ofText_ne_flag (t : Text) (on : Bool) : Setting.ofText t ≠ .flag on := by
  unfold Setting.ofText
  split <;> exact nofun

/-- Without a text all values are just on. -/
theorem filterMap_text?_eq_nil_iff (h : ∀ g ∈ gs, g.IsDirect) :
    gs.filterMap Given.text? = [] ↔ ∀ v ∈ gs.map (Given.setting false), v = .flag true := by
  rw [List.filterMap_eq_nil_iff, List.forall_mem_map]
  refine forall₂_congr fun g hg => ?_
  rcases h g hg with rfl | ⟨v, rfl⟩
  · exact iff_of_true rfl rfl
  · exact iff_of_false nofun (ofText_ne_flag v true)

/-- The last text is the last value that is not just on. -/
theorem isLastWord_of_getLast? (h : ∀ g ∈ gs, g.IsDirect)
    (ht : (gs.filterMap Given.text?).getLast? = some t) :
    IsLastWord (gs.map (Given.setting false)) (Setting.ofText t) := by
  induction gs using List.reverseRecOn with
  | nil => cases ht
  | append_singleton gs g ih =>
    obtain ⟨hgs, hg⟩ := List.forall_mem_append.1 h
    rw [List.filterMap_append] at ht
    rw [List.map_append]
    rcases hg g List.mem_cons_self with rfl | ⟨v, rfl⟩
    · -- one more occurrence without a value
      obtain ⟨before, after, he, hne, hon⟩ := ih hgs (by simpa [Given.text?] using ht)
      refine ⟨before, after ++ [.flag true], ?_, hne, ?_⟩
      · rw [he, List.append_assoc]
        rfl
      · exact List.forall_mem_append.2 ⟨hon, by simp⟩
    · obtain rfl : v = t := by simpa [Given.text?] using ht
      exact ⟨gs.map (Given.setting false), [], rfl, ofText_ne_flag v true, nofun⟩

/-! ### The two scans -/

/-- No argument switches an option off. -/
def Unnegated (args : List Text) : Prop :=
  ∀ arg ∈ args, isDashed arg = true → negated? (arg.drop (dashCount arg)) = none

theorem isDirect_of_mem_occurrences (hneg : Unnegated args) (h : IsLongName name)
    {o : Occurrence} (ho : o ∈ occurrences args) (hn : o.name = name) : o.given.IsDirect := by
  obtain ⟨arg, hm, hr⟩ := exists_readFrom_of_mem_occurrences ho
  have hl := h.two_le_length
  cases hr with
  | plain =>
    rw [← hn] at hl
    exact absurd hl (show ¬ 2 ≤ plainName.length by decide)
  | negated hd hneg' =>
    rw [hneg arg (List.takeWhile_subset _ hm) hd] at hneg'
    cases hneg'
  | short _ hg => exact hg
  | long _ hg => exact hg

/-- **The two scans find the same values**: let `vs` be the values of the occurrences of an
option.  They are what the option has, and the value that is typed last is the last of
them that is not just on; nothing is typed when all of them are. -/
theorem lastTyped?_of_valuesFor {f : ValueOption} (hf : f ≠ .address)
    (hsign : flag f.name ++ ['='] ∉ args) (hneg : Unnegated args) :
    let vs := valuesFor (occurrences args) f.name
    (Undotted args → ∀ o, read args = .ok (.compose o) →
        o.value f = (gathered vs).or (f.default?.map .text))
      ∧ (lastTyped? f.name args = none ↔ ∀ v ∈ vs, v = .flag true)
      ∧ ∀ t, lastTyped? f.name args = some t → IsLastWord vs (Setting.ofText t) := by
  intro vs
  have hl : IsLongName f.name := typedName_of_ne_address hf ▸ isLongName_typedName f
  have hop : Setting.operation? false f.name = none :=
    typedName_of_ne_address hf ▸ operation?_typedName f
  have hswitch : isSwitch f.name = false := typedName_of_ne_address hf ▸ isSwitch_typedName f
  let gs := ((occurrences args).filter (·.name = f.name)).map (·.given)
  have hdirect : ∀ g ∈ gs, g.IsDirect := by
    intro g hg
    obtain ⟨o, ho, rfl⟩ := List.mem_map.1 hg
    obtain ⟨hm, hn⟩ := List.mem_filter.1 ho
    exact isDirect_of_mem_occurrences hneg hl hm (by simpa using hn)
  have htexts : textsFor (occurrences args) f.name = gs.filterMap Given.text? := by
    rw [List.filterMap_map]
    rfl
  have hvalues : vs = gs.map (Given.setting false) := by
    rw [List.map_map]
    refine List.map_congr_left fun o ho => ?_
    have hn : o.name = f.name := by simpa using (List.mem_filter.1 ho).2
    rw [hn, hswitch]
    rfl
  refine ⟨fun hu o hr => ?_, ?_, fun t ht => ?_⟩
  · rw [value_of_ne_address hu hr hf, storedAt_eq_gathered hop]
    intro o ho hn hg
    rcases isDirect_of_mem_occurrences hneg hl ho hn with h | ⟨v, h⟩ <;> rw [hg] at h <;> cases h
  · rw [lastTyped?_eq_getLast? hl hsign, htexts, List.getLast?_eq_none_iff, hvalues]
    exact filterMap_text?_eq_nil_iff hdirect
  · rw [lastTyped?_eq_getLast? hl hsign, htexts] at ht
    rw [hvalues]
    exact isLastWord_of_getLast? hdirect ht

/-- A tag that reads as a number, behind which the option is twice without a value. -/
theorem lastTyped?_of_valuesFor_of_number :
    let args := ["--tag".toList, "2.50".toList, "x".toList, "--tag".toList,
      "--branch=-v".toList, "-abc=1".toList, "--tag".toList, "--".toList, "--tag=z".toList]
    ValueOption.tag ≠ .address ∧ flag ValueOption.tag.name ++ ['='] ∉ args ∧ Unnegated args
      ∧ lastTyped? ValueOption.tag.name args = some "2.50".toList
      ∧ IsLastWord (valuesFor (occurrences args) ValueOption.tag.name) (.number (5 / 2)) := by
  intro args
  have hf : ValueOption.tag ≠ .address := by decide
  have hsign : flag ValueOption.tag.name ++ ['='] ∉ args := by decide
  have hneg : Unnegated args := by
    show ∀ arg ∈ args, isDashed arg = true → negated? (arg.drop (dashCount arg)) = none
    decide
  have htyped : lastTyped? ValueOption.tag.name args = some "2.50".toList := by decide
  obtain ⟨-, -, hlast⟩ := lastTyped?_of_valuesFor hf hsign hneg
  have hread : Number.read? "2.50".toList = some (5 / 2) := by decide +kernel
  exact ⟨hf, hsign, hneg, htyped, Setting.ofText_eq_number_iff.2 hread ▸ hlast _ htyped⟩

end CommandLine

end ReleaseNotes
