/-
ReleaseNotes/Proofs/GivenLimit.lean

A limit that is given once.

The text of a limit is read as a number twice: first when the options are
collected, where a text that reads as a number is kept as that number, and then
when the limit is checked.  What is checked is the value that was kept, and it
denotes the same number as the text itself:

    given text --ofText--> kept value --denoted?--> number
         \______________ read? ∘ trim ______________/

A text that reads as no number is kept as it is and refused either way.

Main results: every text can be given as a limit, in one argument or in two
(`exists_read_of_spelled`), and what is kept of it is accepted exactly when the
text is, as the same number (`limitOf_given`).
-/
import ReleaseNotes.Proofs.AskedRelease
import ReleaseNotes.Proofs.NamedOptions

namespace ReleaseNotes

namespace CommandLine

variable {v : Text} {args : List Text} {o : Options}

/-! ### One limit -/

/-- The limit is given once, with the text `v`. -/
def GivesLimit (v : Text) (args : List Text) : Prop :=
  (occurrences args).filter (·.name = ValueOption.limit.typedName)
    = [⟨ValueOption.limit.typedName, .value v⟩]

/-- The two spellings of a limit: with the text in an argument of its own, which
then has no dash in front, or behind a sign, where it is not empty. -/
inductive SpellsLimit (v : Text) : List Text → Prop
  | apart (h : isDashed v = false) : SpellsLimit v [flag ValueOption.limit.typedName, v]
  | inline (h : v ≠ []) : SpellsLimit v [flag ValueOption.limit.typedName ++ '=' :: v]

/-- A text with a dash in front is not empty, so it can stand behind a sign. -/
theorem exists_spellsLimit (v : Text) : ∃ args, SpellsLimit v args := by
  cases h : isDashed v with
  | false => exact ⟨_, .apart h⟩
  | true =>
    refine ⟨_, .inline ?_⟩
    rintro rfl
    cases h

theorem occurrences_of_spelled (h : SpellsLimit v args) :
    occurrences args = [⟨ValueOption.limit.typedName, .value v⟩] := by
  have hl := isLongName_typedName .limit
  cases h with
  | apart hd => exact occurrencesFrom_flag hl hd []
  | inline hv => exact occurrencesFrom_inline hl hv []

/-- What is kept of a limit that is given once is the value of its text. -/
theorem storedAt_of_givesLimit (h : GivesLimit v args) :
    storedAt (occurrences args) ValueOption.limit.typedName = some (Setting.ofText v) := by
  rw [storedAt, h, List.foldl_cons, List.foldl_nil,
    update_none (operation?_typedName ValueOption.limit), isSwitch_typedName]
  rfl

/-- A limit is never only on or off, and nothing else is given. -/
theorem exists_read_of_spelled (h : SpellsLimit v args) :
    GivesLimit v args ∧ Undotted args ∧ ∃ o, read args = .ok (.compose o) := by
  have hoc := occurrences_of_spelled h
  have hg : GivesLimit v args := by
    rw [GivesLimit, hoc]
    rfl
  have honly : OnlyOptions (occurrences args) := by
    intro oc hm
    rw [hoc, List.mem_singleton] at hm
    exact ⟨.limit, hm ▸ rfl⟩
  have hflag : ∀ a : ValueOption, ∀ s ∈ storedAt (occurrences args) a.typedName,
      s.isFlag = false := by
    intro a s hs
    by_cases ha : a = .limit
    · rw [ha, storedAt_of_givesLimit hg] at hs
      obtain rfl := Option.some.inj hs
      exact Setting.isFlag_ofText v
    · rw [storedAt_of_not_used] at hs
      · cases hs
      · intro oc hm he
        rw [hoc, List.mem_singleton] at hm
        rw [hm] at he
        exact ha (eq_of_typedName he).symm
  obtain ⟨o, hr, -⟩ := exists_read honly (by rw [hoc]; rfl) hflag
  exact ⟨hg, undotted_of_onlyOptions honly, o, hr⟩

/-- The value of the limit is what is kept of its text. -/
theorem limit_of_givesLimit (hg : GivesLimit v args) (hu : Undotted args)
    (hr : read args = .ok (.compose o)) : o.limit = some (Setting.ofText v) := by
  have hl := value_of_ne_address hu hr (v := .limit) nofun
  have hs : storedAt (occurrences args) ValueOption.limit.name = some (Setting.ofText v) :=
    storedAt_of_givesLimit hg
  rw [hs, Option.some_or] at hl
  exact hl

/-- **Keeping a limit as a number does not change whether it is accepted.** Every
text can be given as a limit; the value that is kept of it, which is the number
that it reads as if there is one, is accepted exactly when the text is, and as the
same number.  The text is accepted for what it reads as without its margins. -/
theorem limitOf_given (v : Text) :
    (∃ args o, GivesLimit v args ∧ Undotted args ∧ read args = .ok (.compose o))
      ∧ ∀ args o, GivesLimit v args → Undotted args → read args = .ok (.compose o) →
        o.limit = some ((Number.read? v).elim (.text v) .number)
          ∧ ∀ n, (limitOf o.limit = .ok n ↔ limitOf (some (.text v)) = .ok n)
            ∧ (limitOf (some (.text v)) = .ok n
              ↔ Number.read? (Text.trim v) = some n ∧ isCount n = true) := by
  constructor
  · obtain ⟨args, hs⟩ := exists_spellsLimit v
    obtain ⟨hg, hu, o, hr⟩ := exists_read_of_spelled hs
    exact ⟨args, o, hg, hu, hr⟩
  · intro args o hg hu hr
    rw [limit_of_givesLimit hg hu hr]
    refine ⟨?_, fun n => ⟨limitOf_ofText_iff, limitOf_text_iff⟩⟩
    cases h : Number.read? v with
    | some x => exact congrArg some (Setting.ofText_eq_number_iff.2 h)
    | none => exact congrArg some (Setting.ofText_eq_text_iff.2 ⟨h, rfl⟩)

/-- The number in blank margins, in another base and behind a sign is the count
that is meant. -/
theorem limitOf_given_of_margins :
    let args := ["--limit=\t0x1F ".toList]
    GivesLimit "\t0x1F ".toList args ∧ ∃ o, read args = .ok (.compose o)
      ∧ o.limit = some (.number 31) ∧ limitOf o.limit = .ok 31
      ∧ limitOf (some (.text "\t0x1F ".toList)) = .ok 31 := by
  intro args
  have hread : Number.read? "\t0x1F ".toList = some 31 := by decide +kernel
  have htext : limitOf (some (.text "\t0x1F ".toList)) = .ok 31 :=
    limitOf_eq_ok_iff.2 ⟨hread, by decide⟩
  obtain ⟨hg, hu, o, hr⟩ := exists_read_of_spelled (.inline (v := "\t0x1F ".toList) (by decide))
  obtain ⟨hkept, hlimit⟩ := (limitOf_given "\t0x1F ".toList).2 args o hg hu hr
  rw [hread] at hkept
  exact ⟨hg, o, hr, hkept, (hlimit 31).1.2 htext, htext⟩

end CommandLine

end ReleaseNotes
