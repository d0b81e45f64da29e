/-
ReleaseNotes/Proofs/NamedOptions.lean

Command lines that name nothing but the options with values.

The five names that are typed for these options have no fields, are not reserved
and spell no switch, and each spells its own option.  So nothing that could go
wrong with a name goes wrong, help is not asked for, and an option has the value
stored for the name that is typed for it.

Main result: what such a command line asks for (`exists_read`).
-/
import ReleaseNotes.Proofs.LongNames
import ReleaseNotes.Proofs.OptionValues

namespace ReleaseNotes

namespace CommandLine

/-! ### Typed names -/

/-- The name that is typed for an option. -/
def ValueOption.typedName : ValueOption → Text
  | .address => "repo-url".toList
  | o => o.name

theorem isLongName_typedName (o : ValueOption) : IsLongName o.typedName := by
  cases o <;> constructor <;> decide

theorem eq_of_typedName {o o' : ValueOption} (h : o.typedName = o'.typedName) : o = o' := by
  revert h
  cases o <;> cases o' <;> decide

theorem typedName_of_ne_address {o : ValueOption} (h : o ≠ .address) : o.typedName = o.name := by
  revert h
  cases o <;> decide

theorem pathOf_typedName (o : ValueOption) : pathOf o.typedName = [o.name] := by
  cases o <;> decide

theorem eq_of_pathOf_typedName {o o' : ValueOption} (h : pathOf o.typedName = [o'.name]) :
    o = o' := by
  rw [pathOf_typedName] at h
  revert h
  cases o <;> cases o' <;> decide

theorem otherForm?_typedName (o : ValueOption) : otherForm? o.typedName = none := by
  cases o <;> rfl

/-- No operation is found under the name of an option. -/
theorem operation?_typedName (o : ValueOption) : Setting.operation? false o.typedName = none := by
  cases o <;> decide

theorem isSwitch_typedName (o : ValueOption) : isSwitch o.typedName = false := by
  cases o <;> decide

/-! ### Values -/

variable {found : List Occurrence} {args : List Text}

/-- All names are those of options with values. -/
def OnlyOptions (found : List Occurrence) : Prop :=
  ∀ oc ∈ found, ∃ o : ValueOption, oc.name = o.typedName

theorem exists_typedName_of_mem_names (h : OnlyOptions found) {n : Text} (hn : n ∈ names found) :
    ∃ o : ValueOption, n = o.typedName := by
  have hu : ∀ m ∈ usedNames found, ∃ o : ValueOption, m = o.typedName := by
    intro m hm
    obtain ⟨-, oc, hoc, rfl⟩ := mem_usedNames_iff.1 hm
    exact h oc hoc
  rcases mem_names_iff.1 hn with hn | ⟨m, hm, hf⟩
  · exact hu n hn
  · -- only a switch has another form
    obtain ⟨o, rfl⟩ := hu m hm
    rw [otherForm?_typedName] at hf
    cases hf

/-- What such names spell are the options. -/
theorem exists_name_of_pathOf (h : OnlyOptions found) {n field : Text} (hn : n ∈ names found)
    (hp : pathOf n = [field]) : ∃ o : ValueOption, field = o.name := by
  obtain ⟨o, rfl⟩ := exists_typedName_of_mem_names h hn
  rw [pathOf_typedName] at hp
  exact ⟨o, (List.cons.inj hp).1.symm⟩

/-- An option has the value stored for its typed name. -/
theorem valueAt?_of_onlyOptions (h : OnlyOptions found) (o : ValueOption) :
    valueAt? found [o.name] = storedAt found o.typedName := by
  refine valueAt?_of_spelled_once (fun n hm hp => ?_) (pathOf_typedName o) ?_ (otherForm?_ne ?_)
  · obtain ⟨o', rfl⟩ := exists_typedName_of_mem_names h hm
    rw [eq_of_pathOf_typedName hp]
  · cases o <;> decide
  · cases o <;> decide

/-! ### What is asked for -/

theorem undotted_of_onlyOptions (h : OnlyOptions (occurrences args)) : Undotted args := by
  intro oc hoc
  obtain ⟨o, ho⟩ := h oc hoc
  rw [ho]
  cases o <;> decide

theorem isReserved_of_onlyOptions (h : OnlyOptions found) {oc : Occurrence} (hoc : oc ∈ found) :
    isReserved oc.name = false := by
  obtain ⟨o, ho⟩ := h oc hoc
  rw [ho]
  cases o <;> decide

variable {s : Setting}

theorem isOn_of_onlyOptions (h : OnlyOptions (occurrences args)) (hs : settings args = .ok s)
    {name : Text} (hn : name ∈ switches.map (·.2)) : isOn s name = false := by
  have hv : valueAt? (occurrences args) [name] = none := by
    refine valueAt?_eq_none fun n hm hp => ?_
    -- a switch is no option with a value
    obtain ⟨o, rfl⟩ := exists_name_of_pathOf h hm hp
    revert hn
    cases o <;> decide
  have hr : (record (behindSeparator args) defaults).get? name = none := by
    have hne : ∀ name ∈ switches.map (·.2), name ≠ separator := by decide
    have hnone : ∀ name ∈ switches.map (·.2),
        ((Setting.table none defaults).get? name).isNone = true := by decide
    rw [record_eq_keeping, get?_keeping (hne name hn)]
    exact Option.isNone_iff_eq_none.1 (hnone name hn)
  rw [isOn, get?_settings (undotted_of_onlyOptions h) hs, hv, hr]
  rfl

theorem unknown?_of_onlyOptions (h : OnlyOptions (occurrences args))
    (hs : settings args = .ok s) : unknown? s = none := by
  refine unknown?_settings (undotted_of_onlyOptions h) hs fun n hm field hp => ?_
  obtain ⟨o, rfl⟩ := exists_name_of_pathOf h hm hp
  cases o <;> decide

/-- **A command line that names only options asks for a changelog** with the values
stored for them, provided that no option is only on or off. -/
theorem exists_read (h : OnlyOptions (occurrences args))
    (hp : refusesPlain false (occurrences args) = false)
    (hf : ∀ v : ValueOption, ∀ s ∈ storedAt (occurrences args) v.typedName, s.isFlag = false) :
    ∃ o, read args = .ok (.compose o) ∧ ∀ v : ValueOption,
      o.value v = (storedAt (occurrences args) v.typedName).or (v.default?.map .text) := by
  obtain ⟨s, hs⟩ := exists_settings (undotted_of_onlyOptions h) hp
    fun oc => isReserved_of_onlyOptions h
  have hget : ∀ v : ValueOption, s.get? v.name
      = (storedAt (occurrences args) v.typedName).or (v.default?.map .text) := by
    intro v
    rw [get?_settings (undotted_of_onlyOptions h) hs, get?_record_defaults,
      valueAt?_of_onlyOptions h]
  have hv : valueless? s = none := by
    rw [valueless?, List.find?_eq_none]
    intro v _
    rw [hget]
    cases e : storedAt (occurrences args) v.typedName with
    | none => cases v <;> decide
    | some w => simp [hf v w e]
  refine ⟨⟨s.get? ValueOption.tag.name, s.get? ValueOption.branch.name,
    s.get? ValueOption.limit.name, s.get? ValueOption.address.name,
    s.get? ValueOption.directory.name⟩, ?_, fun v => ?_⟩
  · refine read_eq_compose_iff.2 ⟨s, hs, isOn_of_onlyOptions h hs (by decide),
      isOn_of_onlyOptions h hs (by decide), unknown?_of_onlyOptions h hs, hv, fun v => ?_⟩
    cases v <;> rfl
  · rw [← hget]
    cases v <;> rfl

end CommandLine

end ReleaseNotes
