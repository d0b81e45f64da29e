/-
ReleaseNotes/Proofs/BuildQueries.lean

What a build asks of git, what it warns of, and which range comes of it.

A build lists the tags, looks up its own tag, and at the end asks for the log of
its range.  A tag that is there settles the range without a word.  For a tag that
is missing the branch is looked up as well, and the range begins at the newest tag
and ends at the branch, or at HEAD in its place; warnings tell of both.

Every step is a session, so each lemma gives the whole session at once: what is
found out, by which calls, with which warnings.

Main result: the queries of a build, with its range and its warnings
(`changelog_queries`).
-/
import ReleaseNotes.Proofs.Answers

namespace ReleaseNotes

namespace Release

variable {repo : Repository} {r : Release} {tags : List Text}

/-! ### The calls -/

/-- The call that lists the tags. -/
def tagsCall (r : Release) : Call :=
  ⟨["tag".toList, "--sort=-creatordate".toList], r.directory⟩

/-- The call that looks up the tag. -/
def tagProbe (r : Release) : Call :=
  ⟨["rev-parse".toList, "--verify".toList, "--quiet".toList, "refs/tags/".toList ++ r.tag],
    r.directory⟩

/-- The call that looks up the branch. -/
def branchProbe (r : Release) : Call :=
  ⟨["rev-parse".toList, "--verify".toList, "--quiet".toList, "refs/heads/".toList ++ r.branch],
    r.directory⟩

/-- The call that asks for the log of a range. -/
def logCall (r : Release) (range : CommitRange) : Call :=
  ⟨range.logArguments, r.directory⟩

/-! ### The steps of a build -/

/-- Looking up a reference is one call and no warning. -/
theorem hasReference_eq (repo : Repository) (dir : Directory) (reference : Text) :
    repo.hasReference dir reference = ⟨(repo.hasReference dir reference).result,
      [⟨Repository.probeArguments reference, dir⟩], []⟩ := rfl

theorem usableBranch_of_shows (h : repo.Shows r.branchProbe) :
    r.usableBranch repo = ⟨r.branch, [r.branchProbe], []⟩ := by
  have hb : (repo.hasReference r.directory r.branchReference).result = true :=
    Repository.hasReference_iff.2 h
  rw [usableBranch, hasReference_eq, hb]
  rfl

theorem usableBranch_of_not_shows (h : ¬ repo.Shows r.branchProbe) :
    r.usableBranch repo = ⟨head, [r.branchProbe], [.branchNotFound r.branch]⟩ := by
  have hb : (repo.hasReference r.directory r.branchReference).result = false :=
    Bool.eq_false_iff.2 (mt Repository.hasReference_iff.1 h)
  rw [usableBranch, hasReference_eq, hb]
  rfl

/-- Without its tag the range of a release is that of a branch, and a warning
says so. -/
theorem untaggedRange_eq {branch : Text} {calls : List Call} {warnings : List Warning}
    (h : r.usableBranch repo = ⟨branch, calls, warnings⟩) :
    let range := CommitRange.choose false tags r.tag branch r.limit
    r.untaggedRange repo tags = ⟨range, calls, warnings ++ [.tagNotFound r.tag range]⟩ := by
  intro range
  rw [untaggedRange, h]
  show (⟨range, calls ++ [], warnings ++ [.tagNotFound r.tag range]⟩ : Session CommitRange) = _
  rw [List.append_nil]

/-- With its tag the range of a release takes two calls and no warning. -/
theorem range_of_shows (h : repo.Shows r.tagProbe) :
    r.range repo = ⟨CommitRange.choose true (repo.tags r.directory).result r.tag r.branch r.limit,
      [r.tagsCall, r.tagProbe], []⟩ := by
  have ht : (repo.hasReference r.directory r.tagReference).result = true :=
    Repository.hasReference_iff.2 h
  rw [range, hasReference_eq, ht]
  rfl

theorem range_of_not_shows (h : ¬ repo.Shows r.tagProbe) {range : CommitRange}
    {calls : List Call} {warnings : List Warning}
    (hu : r.untaggedRange repo (repo.tags r.directory).result = ⟨range, calls, warnings⟩) :
    r.range repo = ⟨range, r.tagsCall :: r.tagProbe :: calls, warnings⟩ := by
  have ht : (repo.hasReference r.directory r.tagReference).result = false :=
    Bool.eq_false_iff.2 (mt Repository.hasReference_iff.1 h)
  rw [Release.range, hasReference_eq, ht]
  show (⟨(r.untaggedRange repo (repo.tags r.directory).result).result,
    r.tagsCall :: r.tagProbe :: (r.untaggedRange repo (repo.tags r.directory).result).calls,
    (r.untaggedRange repo (repo.tags r.directory).result).warnings⟩ : Session CommitRange) = _
  rw [hu]

theorem result_range_of_shows (h : repo.Shows r.tagProbe) : (r.range repo).result
    = CommitRange.choose true (repo.tags r.directory).result r.tag r.branch r.limit := by
  rw [range_of_shows h]

theorem result_range_of_not_shows (h : ¬ repo.Shows r.tagProbe) : ∃ branch,
    (r.usableBranch repo).result = branch ∧ (r.range repo).result
      = CommitRange.choose false (repo.tags r.directory).result r.tag branch r.limit := by
  rw [range_of_not_shows h (untaggedRange_eq rfl)]
  exact ⟨_, rfl, rfl⟩

/-- The log comes last, and it is that of the range that is told. -/
theorem changelog_of_range {range : CommitRange} {calls : List Call} {warnings : List Warning}
    (h : r.range repo = ⟨range, calls, warnings⟩) (address : Text) :
    (r.changelog repo address).result.range = range
      ∧ (r.changelog repo address).calls = calls ++ [r.logCall range]
      ∧ (r.changelog repo address).warnings = warnings := by
  rw [changelog, h]
  exact ⟨rfl, rfl, List.append_nil warnings⟩

/-! ### How a build goes -/

/-- A build that finds its tag does not ask for the branch and warns of nothing, and
its range ends at the tag. -/
structure EndsAtTag (r : Release) (built : Session Changelog) : Prop where
  calls : built.calls = [r.tagsCall, r.tagProbe, r.logCall built.result.range]
  stderr : built.warnings.flatMap Warning.line = []
  range : (∃ older, built.result.range = .between older r.tag)
    ∨ built.result.range = .capped r.tag r.limit

/-- A build that misses its tag takes the range of `branch`, since the first tag that
is listed if there is one.  Behind the text `told` it warns of the range that it
takes. -/
structure EndsAtBranch (repo : Repository) (r : Release) (branch told : Text)
    (built : Session Changelog) : Prop where
  calls : built.calls = [r.tagsCall, r.tagProbe, r.branchProbe, r.logCall built.result.range]
  stderr : built.warnings.flatMap Warning.line = told
    ++ (Colour.yellow.paint ("⚠️  Tag \"".toList ++ r.tag ++ "\" not found, using ".toList
      ++ built.result.range.describe) ++ ['\n'])
  range_of_tags : repo.Shows r.tagsCall → ∃ newest older,
    (repo.tags r.directory).result = newest :: older
      ∧ built.result.range = .branchSince newest branch
  range_of_no_tags : ¬ repo.Shows r.tagsCall →
    built.result.range = .cappedBranch branch r.limit

theorem endsAtTag_changelog (h : repo.Shows r.tagProbe) (address : Text) :
    r.EndsAtTag (r.changelog repo address) := by
  obtain ⟨hrange, hcalls, hwarnings⟩ := changelog_of_range (range_of_shows h) address
  refine ⟨?_, ?_, ?_⟩
  · rw [hcalls, hrange]
    rfl
  · rw [hwarnings]
    rfl
  · rw [hrange]
    exact CommitRange.choose_true _ _ _ _

/-- Whatever branch is found, the range is chosen for it, and the warnings that were
given on the way come first. -/
theorem endsAtBranch_changelog (h : ¬ repo.Shows r.tagProbe) {branch : Text}
    {warnings : List Warning} (hb : r.usableBranch repo = ⟨branch, [r.branchProbe], warnings⟩)
    (address : Text) :
    EndsAtBranch repo r branch (warnings.flatMap Warning.line) (r.changelog repo address) := by
  have hr := range_of_not_shows h (untaggedRange_eq hb)
  obtain ⟨hrange, hcalls, hwarnings⟩ := changelog_of_range hr address
  refine ⟨?_, ?_, fun ht => ?_, fun ht => ?_⟩
  · rw [hcalls, hrange]
    rfl
  · rw [hwarnings, hrange, List.flatMap_append, List.flatMap_singleton]
    rfl
  · -- a tag that is listed has a name, so it is the lower end of the range
    rw [hrange]
    cases e : (repo.tags r.directory).result with
    | nil => exact absurd ht (Repository.tags_eq_nil_iff.1 e)
    | cons newest older =>
      have hne : newest ≠ [] := Repository.ne_nil_of_mem_tags (e ▸ List.mem_cons_self)
      obtain ⟨c, s, rfl⟩ := List.exists_cons_of_ne_nil hne
      exact ⟨c :: s, older, rfl, rfl⟩
  · rw [hrange, Repository.tags_eq_nil_iff.2 ht]
    rfl

/-- **The queries of a build**: the tags, its own tag, the branch exactly if the tag
is missing, and the log of the range that it tells, all in one directory.  What it
prints besides are warnings of a missing branch and of a missing tag, and the range
in them is the one that it tells. -/
theorem changelog_queries (repo : Repository) (r : Release) (address : Text) :
    (repo.Shows r.tagProbe → r.EndsAtTag (r.changelog repo address))
      ∧ (¬ repo.Shows r.tagProbe → repo.Shows r.branchProbe →
        EndsAtBranch repo r r.branch [] (r.changelog repo address))
      ∧ (¬ repo.Shows r.tagProbe → ¬ repo.Shows r.branchProbe →
        EndsAtBranch repo r "HEAD".toList
          (Colour.yellow.paint ("⚠️  Branch \"".toList ++ r.branch
            ++ "\" not found, using HEAD".toList) ++ ['\n'])
          (r.changelog repo address)) := by
  refine ⟨fun ht => endsAtTag_changelog ht address, fun ht hb => ?_, fun ht hb => ?_⟩
  · exact endsAtBranch_changelog ht (usableBranch_of_shows hb) address
  · have h := endsAtBranch_changelog ht (usableBranch_of_not_shows hb) address
    rwa [List.flatMap_singleton] at h

/-- Two tags in a listing with a blank line and mixed line ends, where neither the
tag nor the branch of the release is known. -/
theorem changelog_queries_of_unknown :
    let repo : Repository := fun arguments =>
      if arguments = Repository.tagArguments then some " \nv1\r\n v0\n".toList else none
    let r : Release := { tag := "v2".toList, branch := "dev".toList }
    ¬ repo.Shows r.tagProbe ∧ ¬ repo.Shows r.branchProbe ∧ repo.Shows r.tagsCall
      ∧ (r.changelog repo Markdown.defaultAddress).result.range
        = .branchSince "v1".toList "HEAD".toList
      ∧ (r.changelog repo Markdown.defaultAddress).calls.map (·.arguments)
        = [["tag".toList, "--sort=-creatordate".toList],
          ["rev-parse".toList, "--verify".toList, "--quiet".toList, "refs/tags/v2".toList],
          ["rev-parse".toList, "--verify".toList, "--quiet".toList, "refs/heads/dev".toList],
          ["log".toList, "v1..HEAD".toList, "--pretty=format:%h||%s||%an".toList]] := by
  intro repo r
  have hnone : ∀ c : Call, repo c.arguments = none → ¬ repo.Shows c := by
    rintro c hc ⟨printed, ⟨-, hp⟩, -⟩
    rw [hc] at hp
    cases hp
  have ht : ¬ repo.Shows r.tagProbe := hnone _ rfl
  have hb : ¬ repo.Shows r.branchProbe := hnone _ rfl
  have hl : repo.Shows r.tagsCall := ⟨_, ⟨by decide, rfl⟩, 'v', by decide, by decide⟩
  have h := (changelog_queries repo r Markdown.defaultAddress).2.2 ht hb
  obtain ⟨newest, older, htags, hrange⟩ := h.range_of_tags hl
  have htwo : (repo.tags r.directory).result = ["v1".toList, "v0".toList] := by decide
  obtain rfl : newest = "v1".toList := (List.cons.inj (htags.symm.trans htwo)).1
  refine ⟨ht, hb, hl, hrange, ?_⟩
  rw [h.calls, hrange]
  rfl

end Release

end ReleaseNotes
