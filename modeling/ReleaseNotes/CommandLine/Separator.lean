/-
ReleaseNotes/CommandLine/Separator.lean

Arguments behind the separator.

They are kept in the record of all options under the name `--`.  No option is
called so, but a name such as `--no---.0.x` leads there, and to such a name it
matters what is kept.  To all other names it does not, nor to what the options
ask for.

Main facts: a path that leads elsewhere leaves what is kept alone
(`place_keeping`), one that leads there changes nothing else
(`place_keeping_separator`), and what is asked for does not depend on what is kept
(`invocationOf_keeping`).
-/
import ReleaseNotes.CommandLine.Options

namespace ReleaseNotes

namespace CommandLine

/-- The record of all options, with `kept` for the arguments behind the
separator. -/
def keeping (kept : Setting) (own : List (Text × Setting)) : Setting :=
  .table none ((separator, kept) :: own)

theorem record_eq_keeping (rest : List Text) (own : List (Text × Setting)) :
    record rest own = keeping (.list (rest.map .text)) own := rfl

theorem separator_ne_behindName : separator ≠ Setting.behindName := by decide

variable {field : Text} {path : List Text}

/-! ### Fields of the record -/

theorem fieldsBehind_keeping (kept : Setting) (own : List (Text × Setting)) :
    Setting.fieldsBehind ((separator, kept) :: own) = Setting.fieldsBehind own := by
  simp [Setting.fieldsBehind, separator_ne_behindName]

theorem get?_keeping (h : field ≠ separator) (kept : Setting) (own : List (Text × Setting)) :
    (keeping kept own).get? field = (Setting.table none own).get? field := by
  simp [keeping, Setting.get?, Setting.fields, Setting.sizeField, Setting.ground,
    Setting.isListLike, fieldsBehind_keeping, List.lookup_cons, beq_eq_false_iff_ne.2 h,
    separator_ne_behindName]

theorem get?_keeping_separator (kept : Setting) (own : List (Text × Setting)) :
    (keeping kept own).get? separator = some kept := by
  simp [keeping, Setting.get?, Setting.fields, Setting.sizeField]

theorem setField_keeping (h : field ≠ separator) (value kept : Setting)
    (own : List (Text × Setting)) :
    Setting.setField field value ((separator, kept) :: own)
      = (separator, kept) :: Setting.setField field value own := by
  simp [Setting.setField, Ne.symm h]

theorem put_keeping (h : field ≠ separator) (value : Setting) (own : List (Text × Setting)) :
    ∃ own', ∀ kept, (keeping kept own).put field value = .ok (keeping kept own') := by
  by_cases hb : field = Setting.behindName
  · by_cases hv : value.isCollection = true
    · refine ⟨Setting.setField field value own, fun kept => ?_⟩
      have hc : (keeping kept own).isCollection = true := rfl
      simp only [Setting.put, hb, if_true, Setting.putBehind, hc, hv, Bool.and_self]
      exact congrArg Except.ok (congrArg _ (setField_keeping (hb ▸ h) _ _ _))
    · exact ⟨own, fun kept => by simp [Setting.put, Setting.putBehind, hb, hv]⟩
  · exact ⟨Setting.setField field value own, fun kept => by
      simp [Setting.put, hb, keeping, setField_keeping h]⟩

theorem put_keeping_separator (kept value : Setting) (own : List (Text × Setting)) :
    (keeping kept own).put separator value = .ok (keeping value own) := by
  simp [keeping, Setting.put, separator_ne_behindName, Setting.setField]

/-! ### Paths into the record -/

/-- A path that does not lead to the arguments behind the separator leaves them
alone, and they do not matter to it. -/
theorem place_keeping (hp : path ≠ []) (h : path.head? ≠ some separator) (value : Setting)
    (own : List (Text × Setting)) :
    ∃ r : Except UsageError (List (Text × Setting)),
      ∀ kept, (keeping kept own).place path value = r.map (keeping kept) := by
  obtain ⟨field, more, rfl⟩ := List.exists_cons_of_ne_nil hp
  have hf : field ≠ separator := by simpa using h
  cases more with
  | nil =>
    obtain ⟨own', ho⟩ := put_keeping hf value own
    exact ⟨.ok own', fun kept => by simp [Setting.place, ho, Except.map]⟩
  | cons next deeper =>
    have hi : ∀ kept, (keeping kept own).inner field next
        = (Setting.table none own).inner field next := fun kept => by
      simp [Setting.inner, get?_keeping hf]
    obtain ⟨own₁, ho₁⟩ := put_keeping hf ((Setting.table none own).inner field next) own
    cases hv : ((Setting.table none own).inner field next).place (next :: deeper) value with
    | error e =>
      exact ⟨.error e, fun kept => by
        simp [Setting.place, hi, ho₁, hv, bind, Except.bind, Except.map]⟩
    | ok v =>
      obtain ⟨own₂, ho₂⟩ := put_keeping hf v own₁
      exact ⟨.ok own₂, fun kept => by
        simp [Setting.place, hi, ho₁, hv, ho₂, bind, Except.bind, Except.map]⟩

/-- A path that leads to the arguments behind the separator goes on in what is kept
for them. -/
theorem place_keeping_separator (path : List Text) (value kept : Setting)
    (own : List (Text × Setting)) :
    (keeping kept own).place (separator :: path) value
      = (kept.place path value).map (keeping · own) := by
  cases path with
  | nil => simp [Setting.place, put_keeping_separator, Except.map]
  | cons next deeper =>
    have hi : (keeping kept own).inner separator next = kept := by
      simp [Setting.inner, get?_keeping_separator]
    cases hv : kept.place (next :: deeper) value <;>
      simp [Setting.place, hi, put_keeping_separator, hv, bind, Except.bind, Except.map]

/-! ### What is asked for -/

theorem invocationOf_keeping (kept kept' : Setting) (own : List (Text × Setting)) :
    invocationOf (keeping kept own) = invocationOf (keeping kept' own) := by
  have hg : ∀ field, field ≠ separator →
      (keeping kept own).get? field = (keeping kept' own).get? field := fun field h => by
    rw [get?_keeping h, get?_keeping h]
  have hn : ∀ o : ValueOption, (keeping kept own).get? o.name = (keeping kept' own).get? o.name :=
    fun o => hg _ (by cases o <;> decide)
  have ho : ∀ name, name ≠ separator →
      isOn (keeping kept own) name = isOn (keeping kept' own) name :=
    fun name h => by rw [isOn, isOn, hg name h]
  have hv : valueless? (keeping kept own) = valueless? (keeping kept' own) := by
    simp only [valueless?, hn]
  have hu : unknown? (keeping kept own) = unknown? (keeping kept' own) := rfl
  rw [invocationOf, invocationOf, ho _ (by decide), ho _ (by decide), hu, hv]
  simp only [hn]

/-! ### Names that lead there -/

/-- Whether a name leads to the arguments behind the separator. -/
def leadsBehind (name : Text) : Bool :=
  (pathOf name).head? == some separator

theorem leadsBehind_otherForm {name other : Text} (h : otherForm? name = some other) :
    leadsBehind other = false := by
  have hf : ∀ form ∈ [['h'], "help".toList, ['v'], "version".toList],
      leadsBehind form = false := by decide
  exact hf other (mem_switches_of_otherForm? h)

end CommandLine

end ReleaseNotes
