/-
ReleaseNotes/Proofs/Answers.lean

What is learnt from an answer of git.

A call shows something when it can be started, git does not fail, and not all of
what git prints is blank.  Blank characters are lost on the way from an answer to
what is made of it, and so are line ends, which are blank too.  So a reference is
there exactly when looking it up shows something, and there are tags exactly when
listing them does.

Main results: when a reference is there (`hasReference_iff`), and when there are tags
(`tags_eq_nil_iff`).
-/
import ReleaseNotes.Proofs.PrintedLog

namespace ReleaseNotes

namespace Text

/-! ### The characters of lines -/

variable {p : Char → Prop} {s : Text} {ls : List Text}

theorem forall_mem_intercalate_iff (hn : p '\n') :
    (∀ c ∈ ['\n'].intercalate ls, p c) ↔ ∀ l ∈ ls, ∀ c ∈ l, p c := by
  induction ls with
  | nil => simp
  | cons l rest ih =>
    cases rest with
    | nil => simp
    | cons next rest =>
      have hsep : ∀ c ∈ ['\n'], p c := by simpa using hn
      rw [List.intercalate_cons_cons, List.forall_mem_append, List.forall_mem_append, ih,
        List.forall_mem_cons (a := l)]
      exact ⟨fun ⟨⟨hl, _⟩, hrest⟩ => ⟨hl, hrest⟩, fun ⟨hl, hrest⟩ => ⟨⟨hl, hsep⟩, hrest⟩⟩

theorem forall_mem_chopReturn_iff (hr : p '\r') :
    (∀ c ∈ chopReturn s, p c) ↔ ∀ c ∈ s, p c := by
  unfold chopReturn
  split
  · rename_i hl
    have hend : ∀ c ∈ ['\r'], p c := by simpa using hr
    rw [← List.dropLast_append_getLast? '\r' hl, List.dropLast_concat, List.forall_mem_append]
    exact ⟨fun h => ⟨h, hend⟩, fun h => h.1⟩
  · rfl

theorem forall_mem_chopReturns_iff (hr : p '\r') :
    (∀ l ∈ chopReturns ls, ∀ c ∈ l, p c) ↔ ∀ l ∈ ls, ∀ c ∈ l, p c := by
  induction ls with
  | nil => rfl
  | cons l rest ih =>
    cases rest with
    | nil => rfl
    | cons next rest =>
      rw [chopReturns, List.forall_mem_cons, ih, forall_mem_chopReturn_iff hr,
        List.forall_mem_cons (a := l)]
      simp

/-- What holds of line ends holds of all characters of a text if it holds of those
of its lines. -/
theorem forall_mem_lines_iff (hn : p '\n') (hr : p '\r') :
    (∀ l ∈ lines s, ∀ c ∈ l, p c) ↔ ∀ c ∈ s, p c := by
  rw [lines, forall_mem_chopReturns_iff hr, ← forall_mem_intercalate_iff hn,
    List.intercalate_splitOn]

/-- Only blanks are lost at the end of a text. -/
theorem forall_isBlank_trimEnd_iff :
    (∀ c ∈ trimEnd s, isBlank c = true) ↔ ∀ c ∈ s, isBlank c = true := by
  obtain ⟨blanks, hs, hb⟩ := exists_trimEnd_append s
  constructor
  · intro h
    rw [hs, List.forall_mem_append]
    exact ⟨h, hb⟩
  · intro h
    rw [hs, List.forall_mem_append] at h
    exact h.1

end Text

namespace Repository

variable {repo : Repository} {dir : Directory} {arguments : List Text} {printed : Text}

/-! ### Calls that show something -/

/-- Git is started, does not fail, and prints something that is not blank. -/
def Shows (repo : Repository) (c : Call) : Prop :=
  ∃ printed, repo.Answers c printed ∧ ∃ ch ∈ printed, Text.isBlank ch = false

theorem shows_iff_of_answers {c : Call} (h : repo.Answers c printed) :
    repo.Shows c ↔ ¬ ∀ ch ∈ printed, Text.isBlank ch = true := by
  have hone : ∀ p, repo.Answers c p → p = printed := fun p hp =>
    Option.some.inj (hp.2.symm.trans h.2)
  constructor
  · rintro ⟨p, hp, ch, hc, hb⟩ hall
    obtain rfl := hone p hp
    rw [hall ch hc] at hb
    cases hb
  · intro hn
    refine ⟨printed, h, ?_⟩
    simpa using hn

theorem result_ask (h : repo.Answers ⟨arguments, dir⟩ printed) :
    (repo.ask dir arguments).result = some (Text.trimEnd printed) := by
  obtain ⟨hs, hp⟩ := h
  have hp : repo arguments = some printed := hp
  simp only [ask, hs, if_true, hp, Option.map_some]

/-- A call that is not answered has no result. -/
theorem result_ask_eq_none (h : ∀ printed, ¬ repo.Answers ⟨arguments, dir⟩ printed) :
    (repo.ask dir arguments).result = none := by
  by_cases hs : (⟨arguments, dir⟩ : Call).canStart = true
  · cases hp : repo arguments with
    | none => simp [ask, hp]
    | some printed => exact absurd ⟨hs, hp⟩ (h printed)
  · simp [ask, hs]

/-! ### References -/

/-- **A reference is there exactly when looking it up shows something.** -/
theorem hasReference_iff {reference : Text} : (repo.hasReference dir reference).result = true
    ↔ repo.Shows ⟨probeArguments reference, dir⟩ := by
  have hres : (repo.hasReference dir reference).result
      = (Text.present? (repo.ask dir (probeArguments reference)).result).isSome := rfl
  rw [hres]
  by_cases h : ∃ printed, repo.Answers ⟨probeArguments reference, dir⟩ printed
  · obtain ⟨printed, ha⟩ := h
    rw [result_ask ha, shows_iff_of_answers ha, ← Text.trimEnd_eq_nil_iff]
    cases Text.trimEnd printed <;> simp [Text.present?]
  · -- without an answer neither side holds
    have hn : ¬ repo.Shows ⟨probeArguments reference, dir⟩ := fun ⟨p, hp, _⟩ => h ⟨p, hp⟩
    rw [result_ask_eq_none (not_exists.1 h)]
    simp [Text.present?, hn]

/-! ### Tags -/

theorem result_tags (h : repo.Answers ⟨tagArguments, dir⟩ printed) :
    (repo.tags dir).result = tagNames (Text.trimEnd printed) := by
  have hres : (repo.tags dir).result
      = ((repo.ask dir tagArguments).result.map tagNames).getD [] := rfl
  rw [hres, result_ask h]
  rfl

theorem tagNames_eq_nil_iff {listing : Text} :
    tagNames listing = [] ↔ ∀ c ∈ listing, Text.isBlank c = true := by
  rw [← Text.forall_mem_lines_iff (p := fun c => Text.isBlank c = true) (by decide) (by decide),
    tagNames, List.filter_eq_nil_iff]
  simp [Text.trim_eq_nil_iff]

/-- Every tag that is listed has a name. -/
theorem ne_nil_of_mem_tags {tag : Text} (h : tag ∈ (repo.tags dir).result) : tag ≠ [] := by
  have hres : (repo.tags dir).result
      = ((repo.ask dir tagArguments).result.map tagNames).getD [] := rfl
  rw [hres] at h
  cases e : (repo.ask dir tagArguments).result with
  | none =>
    rw [e] at h
    cases h
  | some listing =>
    rw [e] at h
    simpa using (List.mem_filter.1 h).2

/-- **There are tags exactly when listing them shows something.** -/
theorem tags_eq_nil_iff : (repo.tags dir).result = [] ↔ ¬ repo.Shows ⟨tagArguments, dir⟩ := by
  by_cases h : ∃ printed, repo.Answers ⟨tagArguments, dir⟩ printed
  · obtain ⟨printed, ha⟩ := h
    rw [result_tags ha, tagNames_eq_nil_iff, Text.forall_isBlank_trimEnd_iff,
      shows_iff_of_answers ha, not_not]
  · have hn : ¬ repo.Shows ⟨tagArguments, dir⟩ := fun ⟨p, hp, _⟩ => h ⟨p, hp⟩
    have hres : (repo.tags dir).result
        = ((repo.ask dir tagArguments).result.map tagNames).getD [] := rfl
    rw [hres, result_ask_eq_none (not_exists.1 h)]
    simp [hn]

end Repository

end ReleaseNotes
