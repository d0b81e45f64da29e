/-
ReleaseNotes/Proofs/LogRevision.lean

The revision of the log that a build asks for, and how it begins.

Git takes an argument that begins with a dash for an option.  The revision of a log
is the argument right behind `log`, and it begins with a name: that of the tag listed
behind the release's own, of that tag itself, of the newest tag, of a branch, or
HEAD.  Nothing stands in front of the name, so the revision begins with a dash exactly
when the name does:

    isDashed revision = isDashed name.

A listed name is whatever the repository lists, and a tag or a branch whatever is asked
for; HEAD is the only name that is known not to begin with a dash.

Main results: the name that the revision begins with (`isDashed_revision_of_opens`), and
when the one revision that a build asks for begins with a dash (`isDashed_revision_iff`).
-/
import ReleaseNotes.CommandLine.Typed
import ReleaseNotes.Proofs.BuildQueries

namespace ReleaseNotes

open CommandLine

variable {repo : Repository} {r : Release} {tags : List Text} {tag older name : Text}

/-! ### The tag behind another one -/

namespace CommitRange

/-- `older` is listed right behind `tag`, where that is listed first. -/
def Follows (tags : List Text) (tag older : Text) : Prop :=
  ∃ newer rest, tags = newer ++ tag :: older :: rest ∧ tag ∉ newer

theorem Follows.mem (h : Follows tags tag older) : older ∈ tags := by
  obtain ⟨newer, rest, rfl, -⟩ := h
  simp

/-- Among names, the tag that a release begins at is the one behind its own. -/
theorem previous?_eq_some_iff (hne : ∀ t ∈ tags, t ≠ []) :
    previous? tags tag = some older ↔ Follows tags tag older := by
  constructor
  · intro h
    obtain ⟨hhead, -⟩ := Text.present?_eq_some h
    have hsplit : tags.takeWhile (· != tag) ++ tags.dropWhile (· != tag) = tags :=
      List.takeWhile_append_dropWhile
    have hfirst := List.head?_dropWhile_not (· != tag) tags
    cases hd : tags.dropWhile (· != tag) with
    | nil =>
      rw [hd] at hhead
      cases hhead
    | cons t behind =>
      rw [hd] at hhead hsplit hfirst
      obtain ⟨rest, rfl⟩ : ∃ rest, behind = older :: rest := by
        cases behind with
        | nil => cases hhead
        | cons o rest => exact ⟨rest, by rw [Option.some.inj hhead]⟩
      obtain rfl : t = tag := by simpa using hfirst
      refine ⟨tags.takeWhile (· != t), rest, hsplit.symm, fun hm => ?_⟩
      simpa using List.all_eq_true.1 List.all_takeWhile t hm
  · intro h
    have ho := hne older h.mem
    obtain ⟨newer, rest, rfl, hn⟩ := h
    exact previous?_of_adjacent hn ho

end CommitRange

namespace Release

/-! ### The range of a release, by the name that it begins with -/

/-- The revision of a release's log begins with the name `name`. -/
inductive Opens (repo : Repository) (r : Release) : Text → Prop
  /-- The tag is there, and `older` is listed behind it. -/
  | older {older : Text} : repo.Shows r.tagProbe →
    CommitRange.Follows (repo.tags r.directory).result r.tag older → Opens repo r older
  /-- The tag is there, and none is listed behind it. -/
  | tag : repo.Shows r.tagProbe →
    (∀ older, ¬ CommitRange.Follows (repo.tags r.directory).result r.tag older) →
    Opens repo r r.tag
  /-- The tag is missing, and `newest` is the first that is listed. -/
  | newest {newest : Text} {rest : List Text} : ¬ repo.Shows r.tagProbe →
    (repo.tags r.directory).result = newest :: rest → Opens repo r newest
  /-- There are no tags, and the branch is there. -/
  | branch : ¬ repo.Shows r.tagProbe → (repo.tags r.directory).result = [] →
    repo.Shows r.branchProbe → Opens repo r r.branch
  /-- There are no tags, and the branch is missing. -/
  | head : ¬ repo.Shows r.tagProbe → (repo.tags r.directory).result = [] →
    ¬ repo.Shows r.branchProbe → Opens repo r "HEAD".toList

/-- There is always a name to begin with. -/
theorem exists_opens (repo : Repository) (r : Release) : ∃ name, r.Opens repo name := by
  by_cases ht : repo.Shows r.tagProbe
  · by_cases hf : ∃ older, CommitRange.Follows (repo.tags r.directory).result r.tag older
    · obtain ⟨older, hf⟩ := hf
      exact ⟨older, .older ht hf⟩
    · exact ⟨r.tag, .tag ht (not_exists.1 hf)⟩
  · cases hl : (repo.tags r.directory).result with
    | cons newest rest => exact ⟨newest, .newest ht hl⟩
    | nil =>
      by_cases hb : repo.Shows r.branchProbe
      · exact ⟨r.branch, .branch ht hl hb⟩
      · exact ⟨_, .head ht hl hb⟩

/-- A span begins as its lower end does. -/
theorem isDashed_span (hne : older ≠ []) (newer : Text) :
    isDashed (CommitRange.span older newer) = isDashed older := by
  obtain ⟨c, s, rfl⟩ := List.exists_cons_of_ne_nil hne
  rfl

/-- **The revision begins with a dash exactly when the name does that it begins with.** -/
theorem isDashed_revision_of_opens (h : r.Opens repo name) :
    isDashed (r.range repo).result.revision = isDashed name := by
  have hne : ∀ t ∈ (repo.tags r.directory).result, t ≠ [] := fun _ =>
    Repository.ne_nil_of_mem_tags
  cases h with
  | older ht hf =>
    rw [result_range_of_shows ht, CommitRange.choose, if_pos rfl,
      (CommitRange.previous?_eq_some_iff hne).2 hf]
    exact isDashed_span (hne name hf.mem) r.tag
  | tag ht hf =>
    have hnone : CommitRange.previous? (repo.tags r.directory).result r.tag = none :=
      Option.eq_none_iff_forall_ne_some.2 fun o ho =>
        hf o ((CommitRange.previous?_eq_some_iff hne).1 ho)
    rw [result_range_of_shows ht, CommitRange.choose, if_pos rfl, hnone]
    rfl
  | newest ht hl =>
    obtain ⟨branch, -, hr⟩ := result_range_of_not_shows ht
    have hn : name ≠ [] := hne name (hl ▸ List.mem_cons_self)
    rw [hr, hl]
    obtain ⟨c, s, rfl⟩ := List.exists_cons_of_ne_nil hn
    rfl
  | branch ht hl hb =>
    obtain ⟨branch, hu, hr⟩ := result_range_of_not_shows ht
    rw [usableBranch_of_shows hb] at hu
    rw [hr, hl, ← hu]
    rfl
  | head ht hl hb =>
    obtain ⟨branch, hu, hr⟩ := result_range_of_not_shows ht
    rw [usableBranch_of_not_shows hb] at hu
    rw [hr, hl, ← hu]
    rfl

end Release

/-! ### The call that asks for the log -/

/-- The revision in a call that asks for a log: the argument right behind `log`. -/
def Call.revision? (c : Call) : Option Text :=
  match c.arguments with
  | command :: revision :: _ => if command = "log".toList then some revision else none
  | _ => none

namespace Release

/-- A build asks for one log, that of its range. -/
theorem filterMap_revision?_calls (repo : Repository) (r : Release) (address : Text) :
    (r.changelog repo address).calls.filterMap Call.revision?
      = [(r.range repo).result.revision] := by
  have hprobe : ∀ reference, Call.revision? ⟨Repository.probeArguments reference, r.directory⟩
      = none := fun _ => rfl
  rw [calls_changelog, List.filterMap_append, List.filterMap_append]
  split <;> simp only [List.filterMap_cons, List.filterMap_nil, hprobe] <;> rfl

/-- **How the revision of a build begins**: a build asks for one log, and the revision
of it begins with a dash exactly when the name does that the release is opened with.
So it does not when no name does. -/
theorem isDashed_revision_iff (repo : Repository) (r : Release) (address : Text) :
    ∃ revision, (r.changelog repo address).calls.filterMap Call.revision? = [revision]
      ∧ (isDashed revision = true ↔ ∃ name, r.Opens repo name ∧ isDashed name = true)
      ∧ ((∀ t ∈ (repo.tags r.directory).result, isDashed t = false) →
        isDashed r.tag = false → isDashed r.branch = false → isDashed revision = false) := by
  obtain ⟨name, hname⟩ := exists_opens repo r
  refine ⟨_, filterMap_revision?_calls repo r address, ⟨fun h => ?_, ?_⟩, ?_⟩
  · exact ⟨name, hname, isDashed_revision_of_opens hname ▸ h⟩
  · rintro ⟨name', hname', h⟩
    rw [isDashed_revision_of_opens hname', h]
  · intro htags htag hbranch
    rw [isDashed_revision_of_opens hname]
    cases hname with
    | older _ hf => exact htags name hf.mem
    | tag => exact htag
    | newest _ hl => exact htags name (hl ▸ List.mem_cons_self)
    | branch => exact hbranch
    | head => rfl

/-- A repository that lists a tag with dashes in front makes git read an option. -/
theorem exists_dashed_revision :
    let repo : Repository := fun arguments =>
      if arguments = Repository.tagArguments then some "v1.1.0\n--output=x".toList
      else some "0a1b2c".toList
    let r : Release := { tag := "v1.1.0".toList }
    ∃ c ∈ (r.changelog repo Markdown.defaultAddress).calls,
      c.arguments = ["log".toList, "--output=x..v1.1.0".toList, Commit.logFormat]
        ∧ ∃ revision ∈ c.revision?, isDashed revision = true := by
  intro repo r
  have hargs : (r.range repo).result.logArguments
      = ["log".toList, "--output=x..v1.1.0".toList, Commit.logFormat] := by decide
  refine ⟨⟨(r.range repo).result.logArguments, r.directory⟩, ?_, hargs, ?_⟩
  · rw [calls_changelog]
    simp
  · rw [hargs]
    exact ⟨_, rfl, rfl⟩

end Release

end ReleaseNotes
