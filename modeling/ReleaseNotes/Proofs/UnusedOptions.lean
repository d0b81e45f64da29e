/-
ReleaseNotes/Proofs/UnusedOptions.lean

Options that do not matter to a build.

What git answers decides which options a range is chosen from.  A tag that is there
needs no branch.  A range that begins at a tag is as long as it is, whatever the limit
says.  And a tag that is missing is no more than a name, for the heading and for the
warning.

An option has no other way into a build than its range and its heading, so two builds
with the same steps towards their ranges are the same in every respect.

Main results: what a range is not chosen from (`choose_of_limit?_eq_none`,
`choose_of_missing`), and the builds that are the same (`changelog_eq_of_unused`).
-/
import ReleaseNotes.Proofs.BuildQueries

namespace ReleaseNotes

namespace CommitRange

variable {tagged : Bool} {tags : List Text} {tag branch : Text} {limit : Rat}

/-! ### What a range is not chosen from -/

/-- Without its tag in the repository, a release does not depend on its name. -/
theorem choose_of_missing (tags : List Text) (tag tag' branch : Text) (limit : Rat) :
    choose false tags tag branch limit = choose false tags tag' branch limit := rfl

/-- A range without a limit is the same for every limit. -/
theorem choose_of_limit?_eq_none (h : (choose tagged tags tag branch limit).limit? = none)
    (limit' : Rat) : choose tagged tags tag branch limit' = choose tagged tags tag branch limit := by
  cases tagged with
  | true =>
    cases hp : previous? tags tag with
    | some older => simp [choose, hp]
    | none => simp [choose, hp, limit?] at h
  | false =>
    cases hn : Text.present? tags.head? with
    | some newest => simp [choose, hn]
    | none => simp [choose, hn, limit?] at h

end CommitRange

namespace Release

variable {repo : Repository} {r r' : Release}

/-! ### The way to a range -/

/-- With its tag in the repository, a release takes the same way to its range for every
branch. -/
theorem range_of_branch (h : repo.Shows r.tagProbe) (branch : Text) :
    range repo { r with branch := branch } = r.range repo := by
  rw [range_of_shows h]
  exact range_of_shows (r := { r with branch := branch }) h

/-- A release takes the same way to a range without a limit for every limit. -/
theorem range_of_limit (h : (r.range repo).result.limit? = none) (limit : Rat) :
    range repo { r with limit := limit } = r.range repo := by
  by_cases ht : repo.Shows r.tagProbe
  · rw [range_of_shows ht] at h ⊢
    rw [range_of_shows (r := { r with limit := limit }) ht,
      CommitRange.choose_of_limit?_eq_none h limit]
    rfl
  · -- the branch is looked up without the limit, so there is only the choice to compare
    rw [range_of_not_shows ht (untaggedRange_eq rfl)] at h ⊢
    rw [range_of_not_shows (r := { r with limit := limit }) ht (untaggedRange_eq rfl),
      CommitRange.choose_of_limit?_eq_none h limit]
    rfl

/-- Two names that no tag has lead to the same range. -/
theorem result_range_of_missing (h : ¬ repo.Shows r.tagProbe) {tag : Text}
    (h' : ¬ repo.Shows (tagProbe { r with tag := tag })) :
    (range repo { r with tag := tag }).result = (r.range repo).result := by
  obtain ⟨branch, hb, hrange⟩ := result_range_of_not_shows h
  obtain ⟨branch', hb', hrange'⟩ := result_range_of_not_shows h'
  -- the branch is looked up without the tag, so both ranges are chosen for the same one
  obtain rfl : branch' = branch := hb'.symm.trans hb
  rw [hrange, hrange']
  exact CommitRange.choose_of_missing _ _ _ _ _

/-! ### Builds that are the same -/

/-- A build depends on the way to the range, the directory and the heading only. -/
theorem changelog_congr (hrange : r.range repo = r'.range repo)
    (hdir : r.directory = r'.directory) (htag : r.tag = r'.tag) (address : Text) :
    r.changelog repo address = r'.changelog repo address := by
  rw [changelog, changelog, hrange, hdir, htag]

/-- **Options that do not matter**: the branch, if the tag is in the repository; the
limit, if the range begins at a tag; and of a tag that is missing the name, but for the
heading and the warning. -/
theorem changelog_eq_of_unused (repo : Repository) (r : Release) (address : Text) :
    ((repo.hasReference r.directory r.tagReference).result = true → ∀ branch branch',
      changelog repo { r with branch := branch } address
        = changelog repo { r with branch := branch' } address)
    ∧ ((∃ older newer, (r.changelog repo address).result.range = .between older newer)
        ∨ (∃ tag branch, (r.changelog repo address).result.range = .branchSince tag branch) →
      ∀ limit, changelog repo { r with limit := limit } address = r.changelog repo address)
    ∧ ∀ tag tag', (repo.hasReference r.directory ("refs/tags/".toList ++ tag)).result = false →
      (repo.hasReference r.directory ("refs/tags/".toList ++ tag')).result = false →
      let built := (changelog repo { r with tag := tag } address).result
      let built' := (changelog repo { r with tag := tag' } address).result
      built.range = built'.range ∧ built.commits = built'.commits
        ∧ built.entries = built'.entries := by
  refine ⟨fun h branch branch' => ?_, fun h limit => ?_, fun tag tag' h h' => ?_⟩
  · have ht : repo.Shows r.tagProbe := Repository.hasReference_iff.1 h
    have hrange := (range_of_branch ht branch).trans (range_of_branch ht branch').symm
    exact changelog_congr hrange rfl rfl address
  · have hlimit : (r.range repo).result.limit? = none := by
      show (r.changelog repo address).result.range.limit? = none
      rcases h with ⟨older, newer, h⟩ | ⟨tag, branch, h⟩ <;> rw [h] <;> rfl
    exact changelog_congr (range_of_limit hlimit limit) rfl rfl address
  · have hmissing : ∀ tag,
        (repo.hasReference r.directory ("refs/tags/".toList ++ tag)).result = false →
          ¬ repo.Shows (tagProbe { r with tag := tag }) := by
      intro tag h hshows
      exact Bool.false_ne_true (h.symm.trans (Repository.hasReference_iff.2 hshows))
    have hrange : (range repo { r with tag := tag }).result
        = (range repo { r with tag := tag' }).result :=
      result_range_of_missing (r := { r with tag := tag' }) (hmissing tag' h') (hmissing tag h)
    intro built built'
    have hlog : (repo.commitLines r.directory (range repo { r with tag := tag }).result).result
        = (repo.commitLines r.directory (range repo { r with tag := tag' }).result).result := by
      rw [hrange]
    exact ⟨hrange, congrArg List.length hlog, congrArg Entry.ofLines hlog⟩

/-- Two tags, of which `v2` is asked for: neither branch nor limit matters, and any other
two names would give the same list. -/
theorem changelog_eq_of_unused_of_two_tags :
    let repo : Repository := fun arguments =>
      if arguments = Repository.tagArguments then some "v2\nv1\n".toList
      else if arguments = Repository.probeArguments "refs/tags/v2".toList then some "0a1b".toList
      else if arguments.head? = some "log".toList then some "a1||Fix it (#7)||Jo".toList
      else none
    let r : Release := { tag := "v2".toList }
    let address := Markdown.defaultAddress
    (r.changelog repo address).result.range = .between "v1".toList "v2".toList
      ∧ changelog repo { r with branch := "dev".toList } address
        = changelog repo { r with branch := "gone".toList } address
      ∧ changelog repo { r with limit := 0 } address = r.changelog repo address
      ∧ (changelog repo { r with tag := "v3".toList } address).result.entries
        = (changelog repo { r with tag := "V2".toList } address).result.entries
      ∧ (changelog repo { r with tag := "V2".toList } address).result.entries
        = [⟨"Fix it".toList, "Jo".toList, some "7".toList⟩] := by
  intro repo r address
  have hrange : (r.changelog repo address).result.range = .between "v1".toList "v2".toList := by
    decide +kernel
  obtain ⟨hbranch, hlimit, hname⟩ := changelog_eq_of_unused repo r address
  refine ⟨hrange, ?_, ?_, ?_, ?_⟩
  · exact hbranch (by decide) _ _
  · exact hlimit (.inl ⟨_, _, hrange⟩) 0
  · exact (hname "v3".toList "V2".toList (by decide) (by decide)).2.2
  · decide +kernel

end Release

end ReleaseNotes
