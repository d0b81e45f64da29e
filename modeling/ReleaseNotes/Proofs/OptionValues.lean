/-
ReleaseNotes/Proofs/OptionValues.lean

The value of each option on a command line whose names have no fields.

The values that are found go into one record, one name after the other.  Without
fields nothing can go wrong on the way: every value is put under its spelled
name, and other names are not touched.  So an option has the value that is found
for the names spelled as its own, or else its default.

Main results: filling the record always succeeds (`exists_settings`), the value
of an option is the one found for its spelled name (`get?_settings`), and for an
option that is spelled in one way only this is the value stored for that name
(`valueAt?_of_spelled_once`).
-/
import ReleaseNotes.CommandLine.Separator
import ReleaseNotes.Proofs.SpelledNames

namespace ReleaseNotes

namespace CommandLine

variable {found : List Occurrence} {path : List Text} {name : Text}

/-- No name on the command line has fields. -/
def Undotted (args : List Text) : Prop :=
  ∀ o ∈ occurrences args, '.' ∉ o.name

/-- The value found for the names that are spelled as `path`. -/
def valueAt? (found : List Occurrence) (path : List Text) : Option Setting :=
  ((names found).filter (pathOf · = path)).getLast?.bind (valueOf? found)

/-! ### The values that are found -/

theorem exists_name_of_valueAt? {s : Setting} (h : valueAt? found path = some s) :
    ∃ name ∈ names found, pathOf name = path ∧ valueOf? found name = some s := by
  obtain ⟨name, hn, hv⟩ := Option.bind_eq_some_iff.1 h
  obtain ⟨hm, hp⟩ := List.mem_filter.1 (List.mem_of_getLast? hn)
  exact ⟨name, hm, by simpa using hp, hv⟩

/-- Each path that is found is listed with its value, and no other is. -/
theorem mem_entries_iff {s : Setting} :
    (path, s) ∈ entries found ↔ valueAt? found path = some s := by
  rw [entries, List.mem_filterMap]
  constructor
  · rintro ⟨p, -, hp⟩
    obtain ⟨s', hs, he⟩ := Option.map_eq_some_iff.1 hp
    obtain ⟨rfl, rfl⟩ := Prod.mk.inj he
    exact hs
  · intro h
    obtain ⟨name, hn, hp, -⟩ := exists_name_of_valueAt? h
    refine ⟨path, List.mem_eraseDups.2 (List.mem_map.2 ⟨name, hn, hp⟩), ?_⟩
    show (valueAt? found path).map (path, ·) = some (path, s)
    rw [h]
    rfl

theorem mem_usedNames_iff :
    name ∈ usedNames found ↔ isOptionName name = true ∧ ∃ o ∈ found, o.name = name := by
  simp only [usedNames, Setting.mem_arranged, List.mem_eraseDups, List.mem_filter, List.mem_map]
  exact And.comm

theorem mem_names_iff :
    name ∈ names found
      ↔ name ∈ usedNames found ∨ ∃ other ∈ usedNames found, otherForm? other = some name := by
  simp only [names, List.mem_append, List.mem_filter, List.mem_filterMap, decide_eq_true_eq]
  by_cases h : name ∈ usedNames found <;> simp [h]

/-! ### Names without fields -/

/-- A name without fields is put under its spelled name, which is never
`__proto__`. -/
theorem pathOf_of_mem_names (hu : ∀ o ∈ found, '.' ∉ o.name) (hn : name ∈ names found) :
    ∃ field, pathOf name = [field] ∧ field ≠ Setting.behindName := by
  rcases mem_names_iff.1 hn with h | ⟨other, -, h⟩
  · obtain ⟨ho, o, hm, rfl⟩ := mem_usedNames_iff.1 h
    refine ⟨joined o.name, pathOf_of_dot_not_mem (hu o hm), fun hj => ?_⟩
    have hb : o.name = Setting.behindName := eq_of_joined (isUpper_of_any (by decide)) hj
    simp [isOptionName, hb] at ho
  · refine ⟨name, pathOf_of_otherForm? h, ?_⟩
    have hb : ∀ m ∈ [['h'], "help".toList, ['v'], "version".toList],
        m ≠ Setting.behindName := by decide
    exact hb name (mem_switches_of_otherForm? h)

theorem path_of_mem_entries (hu : ∀ o ∈ found, '.' ∉ o.name) {e : List Text × Setting}
    (he : e ∈ entries found) : ∃ field, e.1 = [field] ∧ field ≠ Setting.behindName := by
  obtain ⟨name, hn, hp, -⟩ := exists_name_of_valueAt? (mem_entries_iff.1 he)
  obtain ⟨field, hf, hb⟩ := pathOf_of_mem_names hu hn
  exact ⟨field, hp ▸ hf, hb⟩

/-! ### Filling the record -/

/-- A record is filled by names without fields, and gets no other names. -/
theorem exists_foldlM_enter {es : List (List Text × Setting)}
    (hf : ∀ e ∈ es, ∃ field, e.1 = [field] ∧ field ≠ Setting.behindName)
    (own : List (Text × Setting)) :
    ∃ own', es.foldlM enter (.table none own) = .ok (.table none own')
      ∧ ∀ name ∈ own'.map (·.1), name ∈ own.map (·.1) ∨ [name] ∈ es.map (·.1) := by
  induction es generalizing own with
  | nil => exact ⟨own, rfl, fun name h => .inl h⟩
  | cons e es ih =>
    obtain ⟨path, value⟩ := e
    obtain ⟨field, hp, hb⟩ := hf (path, value) (by simp)
    obtain rfl : path = [field] := hp
    -- the first entry is one more field of the record, for the others to go on with
    obtain ⟨own', ho, hn⟩ := ih (fun e he => hf e (List.mem_cons_of_mem _ he))
      (Setting.setField field value own)
    refine ⟨own', ?_, fun name h => ?_⟩
    · rw [List.foldlM_cons]
      simp only [enter, Setting.place, Setting.put, if_neg hb]
      exact ho
    · rcases hn name h with h | h
      · rcases Setting.mem_names_setField h with rfl | h
        · exact .inr (by simp)
        · exact .inl h
      · exact .inr (List.mem_cons_of_mem _ h)

/-- In a filled record a name that was put has its value, and every other name
has what it had. -/
theorem get?_foldlM_enter {es : List (List Text × Setting)} {value : List Text → Option Setting}
    (hf : ∀ e ∈ es, ∃ field, e.1 = [field] ∧ field ≠ Setting.behindName)
    (hv : ∀ e ∈ es, value e.1 = some e.2) {own : List (Text × Setting)} {s : Setting}
    (h : es.foldlM enter (.table none own) = .ok s) (name : Text) :
    s.get? name
      = if [name] ∈ es.map (·.1) then value [name] else (Setting.table none own).get? name := by
  induction es generalizing own with
  | nil =>
    obtain rfl : Setting.table none own = s := Except.ok.inj h
    simp
  | cons e es ih =>
    obtain ⟨path, v⟩ := e
    obtain ⟨field, hp, hb⟩ := hf (path, v) (by simp)
    obtain rfl : path = [field] := hp
    have hput : (Setting.table none own).put field v
        = .ok (.table none (Setting.setField field v own)) := by
      simp only [Setting.put, if_neg hb]
    have hrest : es.foldlM enter (.table none (Setting.setField field v own)) = .ok s := by
      rw [List.foldlM_cons] at h
      simp only [enter, Setting.place, hput] at h
      exact h
    rw [ih (fun e he => hf e (List.mem_cons_of_mem _ he))
      (fun e he => hv e (List.mem_cons_of_mem _ he)) hrest]
    -- a later entry of the same name has the same value, so only the first use of a name matters
    by_cases hes : [name] ∈ es.map (·.1)
    · simp [hes]
    · by_cases hn : name = field
      · subst hn
        rw [if_neg hes, if_pos (by simp), Setting.get?_put_self hb hput]
        exact (hv _ List.mem_cons_self).symm
      · rw [if_neg hes, if_neg (by simpa [hn] using hes), Setting.get?_put_of_ne hb hn hput]

/-! ### The record of all options -/

variable {args : List Text} {s : Setting}

/-- What the record holds before anything is found. -/
theorem get?_record_defaults (o : ValueOption) (rest : List Text) :
    (record rest defaults).get? o.name = o.default?.map .text := by
  rw [record_eq_keeping, get?_keeping (by cases o <;> decide)]
  cases o <;> rfl

theorem settings_eq_ok_iff :
    settings args = .ok s
      ↔ refusesPlain false (occurrences args) = false
        ∧ (∀ o ∈ occurrences args, isReserved o.name = false)
        ∧ (entries (occurrences args)).foldlM enter (record (behindSeparator args) defaults)
          = .ok s := by
  have hr : ((occurrences args).any fun o => isReserved o.name) = false
      ↔ ∀ o ∈ occurrences args, isReserved o.name = false := by
    simp only [List.any_eq_false, Bool.not_eq_true]
  rw [← hr, settings]
  cases refusesPlain false (occurrences args) with
  | true => simp
  | false => cases (occurrences args).any fun o => isReserved o.name <;> simp

/-- Without fields the record can be filled, whatever the values are. -/
theorem exists_settings (hu : Undotted args)
    (hp : refusesPlain false (occurrences args) = false)
    (hr : ∀ o ∈ occurrences args, isReserved o.name = false) :
    ∃ s, settings args = .ok s := by
  obtain ⟨own, ho, -⟩ := exists_foldlM_enter (fun e => path_of_mem_entries hu (e := e))
    ((separator, .list ((behindSeparator args).map .text)) :: defaults)
  exact ⟨_, settings_eq_ok_iff.2 ⟨hp, hr, ho⟩⟩

/-- A name in the record has the value found for it, or else what it had. -/
theorem get?_settings (hu : Undotted args) (hs : settings args = .ok s) (name : Text) :
    s.get? name = (valueAt? (occurrences args) [name]).or
      ((record (behindSeparator args) defaults).get? name) := by
  obtain ⟨-, -, hs⟩ := settings_eq_ok_iff.1 hs
  rw [get?_foldlM_enter (fun e => path_of_mem_entries hu) (fun e he => mem_entries_iff.1 he) hs]
  by_cases hv : valueAt? (occurrences args) [name] = none
  · -- the name was not put, so it has what it had
    have hn : [name] ∉ (entries (occurrences args)).map (·.1) := by
      intro h
      obtain ⟨e, he, hp⟩ := List.mem_map.1 h
      have := mem_entries_iff.1 he
      rw [hp, hv] at this
      cases this
    rw [if_neg hn, hv]
    rfl
  · obtain ⟨v, hv⟩ := Option.ne_none_iff_exists'.1 hv
    have hn : [name] ∈ (entries (occurrences args)).map (·.1) :=
      List.mem_map.2 ⟨_, mem_entries_iff.2 hv, rfl⟩
    rw [if_pos hn, hv]
    rfl

/-- The record holds only the names in it from the start and those that are
found. -/
theorem unknown?_settings (hu : Undotted args) (hs : settings args = .ok s)
    (hk : ∀ name ∈ names (occurrences args), ∀ field, pathOf name = [field] →
      isKnown field = true) :
    unknown? s = none := by
  obtain ⟨-, -, hs⟩ := settings_eq_ok_iff.1 hs
  obtain ⟨own, ho, hn⟩ := exists_foldlM_enter (fun e => path_of_mem_entries hu (e := e))
    ((separator, .list ((behindSeparator args).map .text)) :: defaults)
  obtain rfl : Setting.table none own = s := Except.ok.inj (ho.symm.trans hs)
  refine List.find?_eq_none.2 fun name h => ?_
  rw [Setting.mem_arranged] at h
  have hkn : isKnown name = true := by
    rcases hn name h with h | h
    · have hd : ∀ name ∈ separator :: defaults.map (·.1), isKnown name = true := by decide
      exact hd name (by simpa using h)
    · obtain ⟨e, he, hp⟩ := List.mem_map.1 h
      obtain ⟨typed, ht, hpt, -⟩ := exists_name_of_valueAt? (mem_entries_iff.1 he)
      exact hk typed ht name (hpt.trans hp)
  simp [hkn]

/-! ### Names that are spelled in one way -/

theorem leader_of_no_otherForm (h : ∀ other, otherForm? other ≠ some name) :
    leader found name = name := by
  unfold leader
  cases e : (usedNames found).find? fun n => n = name ∨ otherForm? n = some name with
  | none => rfl
  | some n =>
    have hn := List.find?_some e
    simp only [decide_eq_true_eq] at hn
    exact hn.resolve_right (h n)

theorem storedAt_of_not_used (h : ∀ o ∈ found, o.name ≠ name) : storedAt found name = none := by
  have hf : found.filter (·.name = name) = [] := by simpa using h
  simp [storedAt, hf]

theorem not_used_of_storedAt (h : storedAt found name = none) : ∀ o ∈ found, o.name ≠ name := by
  rcases List.eq_nil_or_concat (found.filter (·.name = name)) with e | ⟨before, o, e⟩
  · simpa using e
  · rw [storedAt_eq_some_iff.2 ⟨before, o, by simpa using e, rfl⟩] at h
    cases h

/-- A name that is no form of a switch is the other form of none. -/
theorem otherForm?_ne (h : name ∉ [['h'], "help".toList, ['v'], "version".toList])
    (other : Text) : otherForm? other ≠ some name := fun ho =>
  h (mem_switches_of_otherForm? ho)

/-- Where one name alone is spelled in some way, the value found for this
spelling is the one stored for the name. -/
theorem valueAt?_of_spelled_once (hspell : ∀ n ∈ names found, pathOf n = path → n = name)
    (hself : pathOf name = path) (hopt : isOptionName name = true)
    (hform : ∀ other, otherForm? other ≠ some name) :
    valueAt? found path = storedAt found name := by
  have hall : ∀ n ∈ (names found).filter (pathOf · = path), n = name := by
    intro n hn
    obtain ⟨hm, hp⟩ := List.mem_filter.1 hn
    exact hspell n hm (by simpa using hp)
  cases e : ((names found).filter (pathOf · = path)).getLast? with
  | none =>
    -- the name is not used: if it were, it would be among those that are spelled so
    have hnil := List.getLast?_eq_none_iff.1 e
    have hn : ∀ o ∈ found, o.name ≠ name := by
      intro o ho he
      have hm : name ∈ names found := mem_names_iff.2 (.inl (mem_usedNames_iff.2 ⟨hopt, o, ho, he⟩))
      have : name ∈ (names found).filter (pathOf · = path) :=
        List.mem_filter.2 ⟨hm, by simpa using hself⟩
      rw [hnil] at this
      cases this
    rw [valueAt?, e, storedAt_of_not_used hn]
    rfl
  | some n =>
    obtain rfl : n = name := hall n (List.mem_of_getLast? e)
    rw [valueAt?, e]
    show storedAt found (leader found n) = storedAt found n
    rw [leader_of_no_otherForm hform]

/-- No value is found for a spelling that no name has. -/
theorem valueAt?_eq_none (h : ∀ n ∈ names found, pathOf n ≠ path) : valueAt? found path = none := by
  cases e : valueAt? found path with
  | none => rfl
  | some s =>
    obtain ⟨n, hn, hp, -⟩ := exists_name_of_valueAt? e
    exact absurd hp (h n hn)

/-- Only the address can be spelled in two ways. -/
theorem valueAt?_of_ne_address {o : ValueOption} (h : o ≠ .address) :
    valueAt? found [o.name] = storedAt found o.name := by
  have hm : o.name.any Char.isUpper = false := by
    revert h
    cases o <;> decide
  refine valueAt?_of_spelled_once (fun n _ hn => eq_of_pathOf (isUpper_of_any hm) hn) ?_ ?_
    (otherForm?_ne ?_)
  · revert h
    cases o <;> decide
  · cases o <;> decide
  · cases o <;> decide

/-! ### What is asked for -/

variable {o : Options}

/-- The value of an option. -/
def Options.value (o : Options) : ValueOption → Option Setting
  | .tag => o.tag
  | .branch => o.branch
  | .limit => o.limit
  | .address => o.address
  | .directory => o.directory

theorem read_eq_compose_iff :
    read args = .ok (.compose o)
      ↔ ∃ s, settings args = .ok s
        ∧ isOn s "help".toList = false ∧ isOn s "version".toList = false
        ∧ unknown? s = none ∧ valueless? s = none ∧ ∀ v, o.value v = s.get? v.name := by
  cases hs : settings args with
  | error e => simp [read, hs, bind, Except.bind]
  | ok s =>
    have hv : (⟨s.get? ValueOption.tag.name, s.get? ValueOption.branch.name,
          s.get? ValueOption.limit.name, s.get? ValueOption.address.name,
          s.get? ValueOption.directory.name⟩ : Options) = o
        ↔ ∀ v, o.value v = s.get? v.name := by
      constructor
      · rintro rfl v
        cases v <;> rfl
      · intro h
        cases o
        simp only [Options.mk.injEq]
        exact ⟨(h .tag).symm, (h .branch).symm, (h .limit).symm, (h .address).symm,
          (h .directory).symm⟩
    simp only [read, hs, bind, Except.bind, Except.ok.injEq, exists_eq_left', ← hv, invocationOf]
    cases isOn s "help".toList <;> cases isOn s "version".toList <;>
      cases unknown? s <;> cases valueless? s <;> simp

/-- An option has the value found for its name, or else its default. -/
theorem value_of_read (hu : Undotted args) (hr : read args = .ok (.compose o)) (v : ValueOption) :
    o.value v = (valueAt? (occurrences args) [v.name]).or (v.default?.map .text) := by
  obtain ⟨s, hs, -, -, -, -, hv⟩ := read_eq_compose_iff.1 hr
  rw [hv v, get?_settings hu hs, get?_record_defaults]

/-- An option other than the address has the value stored for its name. -/
theorem value_of_ne_address (hu : Undotted args) (hr : read args = .ok (.compose o))
    {v : ValueOption} (h : v ≠ .address) :
    o.value v = (storedAt (occurrences args) v.name).or (v.default?.map .text) := by
  rw [value_of_read hu hr, valueAt?_of_ne_address h]

/-- No option is only on or off. -/
theorem not_isFlag_of_read (hr : read args = .ok (.compose o)) {v : ValueOption} {s : Setting}
    (h : o.value v = some s) : s.isFlag = false := by
  obtain ⟨r, -, -, -, -, hn, hv⟩ := read_eq_compose_iff.1 hr
  have hf := List.find?_eq_none.1 hn v (by cases v <;> decide)
  rw [← hv v, h] at hf
  simpa using hf

end CommandLine

end ReleaseNotes
