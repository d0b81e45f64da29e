/-
ReleaseNotes/Proofs/TypedRelease.lean

The tag and the branch that a run takes, and those that are typed.

A run that asks git looks up its tag, and its branch when the tag is missing, and
its changelog begins with the tag.  Both are taken as they are typed.  Only where
an option is bare is there a tag or a branch that nobody typed, and then it is the
text of flags.

Main results: what a run looks up (`probes_outcome_iff`), and when tag and branch
are those that are typed (`takenAsTyped_iff`).
-/
import ReleaseNotes.Proofs.BareOptions
import ReleaseNotes.Proofs.ExitCode

namespace ReleaseNotes

namespace CommandLine

variable {repo : Repository} {args : List Text} {o : Options} {out : Outcome} {r : Release}
  {address : Option Text} {reference : Text}

/-! ### What a run looks up -/

/-- A run looks up a reference. -/
def Outcome.Probes (out : Outcome) (reference : Text) : Prop :=
  ∃ dir, ⟨Repository.probeArguments reference, dir⟩ ∈ out.calls

theorem calls_outcome (s : Session (Except Fault Changelog)) : (outcome s).calls = s.calls := by
  unfold outcome
  split <;> rfl

theorem calls_linked : (linked repo r address).calls
    = (r.changelog repo (address.getD Markdown.defaultAddress)).calls := by
  cases address <;> rfl

/-- A run for a release asks git. -/
theorem calls_linked_ne_nil : (outcome (linked repo r address)).calls ≠ [] := by
  rw [calls_outcome, calls_linked, Release.calls_changelog]
  simp

theorem calls_ne_nil_of_release (h : releaseOf args o = .ok r) :
    (outcome (compose repo args o)).calls ≠ [] := by
  simp only [compose, h]
  exact calls_linked_ne_nil

/-- A run that asks git is one for a release. -/
theorem exists_release_of_calls (h : run repo args = .ok out) (hc : out.calls ≠ []) :
    ∃ o r, read args = .ok (.compose o) ∧ releaseOf args o = .ok r
      ∧ out = outcome (linked repo r (addressOf? o.address)) := by
  unfold run at h
  cases hr : read args with
  | error e =>
    rw [hr] at h
    cases h
  | ok i =>
    rw [hr] at h
    cases i with
    | explain help version =>
      obtain rfl := Except.ok.inj h
      exact absurd rfl hc
    | compose o =>
      obtain rfl : outcome (compose repo args o) = out := Except.ok.inj h
      cases hrel : releaseOf args o with
      | error f =>
        rw [outcome_of_fault hrel] at hc
        exact absurd rfl hc
      | ok r =>
        refine ⟨o, r, rfl, hrel, ?_⟩
        simp only [compose, hrel]

/-- A run looks up its tag, and its branch if the tag is missing. -/
theorem probes_outcome_iff : (outcome (linked repo r address)).Probes reference
    ↔ reference = r.tagReference
      ∨ (repo.hasReference r.directory r.tagReference).result = false
        ∧ reference = r.branchReference := by
  -- a look-up is told from the other calls by its first word
  have htags : ∀ dir dir', (⟨Repository.probeArguments reference, dir⟩ : Call)
      ≠ ⟨Repository.tagArguments, dir'⟩ := by
    intro dir dir' h
    have hw : some "rev-parse".toList = some "tag".toList := congrArg (·.arguments.head?) h
    exact absurd hw (by decide)
  have hlog : ∀ (range : CommitRange) dir dir', (⟨Repository.probeArguments reference, dir⟩ : Call)
      ≠ ⟨range.logArguments, dir'⟩ := by
    intro range dir dir' h
    have hw : some "rev-parse".toList = some "log".toList := congrArg (·.arguments.head?) h
    exact absurd hw (by decide)
  have heq : ∀ (other : Text) (dir dir' : Directory),
      (⟨Repository.probeArguments reference, dir⟩ : Call)
        = ⟨Repository.probeArguments other, dir'⟩ ↔ reference = other ∧ dir = dir' := by
    intro other dir dir'
    simp [Repository.probeArguments]
  unfold Outcome.Probes
  rw [calls_outcome, calls_linked, Release.calls_changelog]
  cases (repo.hasReference r.directory r.tagReference).result <;>
    simp [htags, hlog, heq, exists_or]

/-! ### The tag and the branch of a run -/

/-- A run looks up this tag and no other, and it is the tag of the changelog that
is printed. -/
structure Outcome.UsesTag (out : Outcome) (tag : Text) : Prop where
  probes : out.Probes ("refs/tags/".toList ++ tag)
  eq_of_probes : ∀ tag', out.Probes ("refs/tags/".toList ++ tag') → tag' = tag
  heading : out.exitCode = 0 →
    "# Changelog\n\n".toList ++ (Markdown.heading tag ++ ['\n']) <+: out.stdout

theorem tagReference_ne_branchReference (tag branch : Text) :
    "refs/tags/".toList ++ tag ≠ "refs/heads/".toList ++ branch := by
  intro h
  have := congrArg (·[5]?) h
  simp at this

theorem heading_isPrefix_releaseSection (address tag : Text) (entries : List Entry) :
    Markdown.heading tag ++ ['\n'] <+: Markdown.releaseSection address tag entries := by
  obtain ⟨i, is, hi⟩ : ∃ i is, Markdown.items address entries = i :: is := by
    unfold Markdown.items
    cases entries with
    | nil => exact ⟨_, _, rfl⟩
    | cons e es => exact ⟨_, _, rfl⟩
  refine ⟨['\n'].intercalate (i :: is), ?_⟩
  rw [Markdown.releaseSection, hi, List.intercalate_cons_cons]

theorem markdown_linked {c : Changelog} (h : (linked repo r address).result = .ok c) :
    c.markdown = Markdown.releaseSection (address.getD Markdown.defaultAddress) r.tag
      (r.collected repo) := by
  rw [result_linked] at h
  split at h
  · cases h
  · obtain rfl := Except.ok.inj h
    exact markdown_changelog _ _ _

/-- A run that nothing stops prints the section of its release. -/
theorem stdout_linked (h : (outcome (linked repo r address)).exitCode = 0) :
    (outcome (linked repo r address)).stdout = "# Changelog\n\n".toList
      ++ Markdown.releaseSection (address.getD Markdown.defaultAddress) r.tag (r.collected repo)
      ++ ['\n'] := by
  obtain ⟨c, hc⟩ := (exitCode_outcome _).1 h
  have hout : (outcome (linked repo r address)).stdout = document c := by
    simp only [outcome, hc]
  rw [hout, ← markdown_linked hc]
  rfl

theorem heading_isPrefix_stdout (h : (outcome (linked repo r address)).exitCode = 0) :
    "# Changelog\n\n".toList ++ (Markdown.heading r.tag ++ ['\n'])
      <+: (outcome (linked repo r address)).stdout := by
  rw [stdout_linked h]
  have hsection := heading_isPrefix_releaseSection (address.getD Markdown.defaultAddress) r.tag
    (r.collected repo)
  exact ((List.prefix_append_right_inj _).2 hsection).trans (List.prefix_append _ _)

/-- The tag that a run looks up is the one of its release. -/
theorem usesTag_outcome : (outcome (linked repo r address)).UsesTag r.tag where
  probes := probes_outcome_iff.2 (.inl rfl)
  eq_of_probes := by
    intro tag' h
    rcases probes_outcome_iff.1 h with h | ⟨-, h⟩
    · exact List.append_cancel_left h
    · exact absurd h (tagReference_ne_branchReference tag' r.branch)
  heading := heading_isPrefix_stdout

theorem branch_of_probes {b : Text}
    (h : (outcome (linked repo r address)).Probes ("refs/heads/".toList ++ b)) : b = r.branch := by
  rcases probes_outcome_iff.1 h with h | ⟨-, h⟩
  · exact absurd h.symm (tagReference_ne_branchReference r.tag b)
  · exact List.append_cancel_left h

/-- A run takes the last tag that is typed, or `true` for a bare option. -/
theorem usesTag_of_calls (hu : Undotted args) (h : run repo args = .ok out)
    (hc : out.calls ≠ []) :
    (∃ t, LastTyped ValueOption.tag.name args t ∧ out.UsesTag (Text.trim t))
      ∨ Bare ValueOption.tag.name args ∧ out.UsesTag "true".toList := by
  obtain ⟨o, r, hr, hrel, rfl⟩ := exists_release_of_calls h hc
  have hw := areWords_of_read hu hr
  obtain ⟨⟨t, ht, htag⟩, -⟩ := eq_of_releaseOf hw hrel
  have huse : (outcome (linked repo r (addressOf? o.address))).UsesTag (Text.trim t) :=
    htag ▸ usesTag_outcome
  rcases lastTyped_or_bare_of_tagText? hu hr ht with hl | ⟨hb, rfl⟩
  · exact .inl ⟨t, hl, huse⟩
  · have htrim : Text.trim "true".toList = "true".toList := by decide
    exact .inr ⟨hb, htrim ▸ huse⟩

/-- A run looks up the last branch that is typed, or the default, or the values of
a bare option. -/
theorem branch_of_run (hu : Undotted args) (h : run repo args = .ok out) {b : Text}
    (hp : out.Probes ("refs/heads/".toList ++ b)) :
    LastTyped ValueOption.branch.name args b
      ∨ (b = defaultBranch ∧ ∀ oc ∈ occurrences args, oc.name ≠ ValueOption.branch.name)
      ∨ Bare ValueOption.branch.name args ∧ ∃ first n, b = flagsText first n := by
  have hc : out.calls ≠ [] := by
    obtain ⟨dir, hm⟩ := hp
    exact List.ne_nil_of_mem hm
  obtain ⟨o, r, hr, hrel, rfl⟩ := exists_release_of_calls h hc
  have hw := areWords_of_read hu hr
  obtain ⟨-, hbranch⟩ := eq_of_releaseOf hw hrel
  rw [branch_of_probes hp, hbranch]
  exact lastTyped_or_bare_of_branchText hu hr

/-! ### What is typed and what is taken -/

/-- A run takes tag and branch as they are typed. -/
structure TakenAsTyped (args : List Text) (out : Outcome) : Prop where
  tag : out.calls ≠ [] →
    ∃ t, LastTyped ValueOption.tag.name args t ∧ out.UsesTag (Text.trim t)
  branch : ∀ b, out.Probes ("refs/heads/".toList ++ b) →
    LastTyped ValueOption.branch.name args b
      ∨ b = defaultBranch ∧ ∀ oc ∈ occurrences args, oc.name ≠ ValueOption.branch.name
  calls_eq_nil : (∀ i v, ¬ TypedAt ValueOption.tag.name args i v) → out.calls = []

theorem Bare.not_lastTyped {name t : Text} (h : Bare name args) : ¬ LastTyped name args t := by
  rintro ⟨i, hi, -⟩
  exact h.1 i t hi

theorem Bare.exists_occurrence {name : Text} (h : Bare name args) :
    ∃ oc ∈ occurrences args, oc.name = name := by
  obtain ⟨-, -, oc, hoc, -⟩ := h
  obtain ⟨hm, hn⟩ := List.mem_filter.1 (List.mem_of_getLast? hoc)
  exact ⟨oc, hm, by simpa using hn⟩

/-- **Tag and branch are taken as they are typed, except for bare options**: the
tag is then `true`, and the branch is the text of a list of flags. -/
theorem takenAsTyped_iff (hu : Undotted args) (h : run repo args = .ok out) :
    (TakenAsTyped args out
        ↔ (out.calls ≠ [] → ¬ Bare ValueOption.tag.name args)
          ∧ ((∃ b, out.Probes ("refs/heads/".toList ++ b)) → ¬ Bare ValueOption.branch.name args))
      ∧ (out.calls ≠ [] → Bare ValueOption.tag.name args → out.UsesTag "true".toList)
      ∧ ∀ b, out.Probes ("refs/heads/".toList ++ b) → Bare ValueOption.branch.name args →
          ∃ first n, b = flagsText first n := by
  refine ⟨⟨fun hta => ⟨?_, ?_⟩, fun ⟨htag, hbranch⟩ => ?_⟩, ?_, ?_⟩
  -- for a bare option nothing is typed, so what is taken is not what is typed
  · intro hc hb
    obtain ⟨t, hl, -⟩ := hta.tag hc
    exact hb.not_lastTyped hl
  · rintro ⟨b, hp⟩ hb
    rcases hta.branch b hp with hl | ⟨-, hn⟩
    · exact hb.not_lastTyped hl
    · obtain ⟨oc, hm, ho⟩ := hb.exists_occurrence
      exact hn oc hm ho
  -- otherwise a run that asks git has a typed tag
  · have hlast : out.calls ≠ [] →
        ∃ t, LastTyped ValueOption.tag.name args t ∧ out.UsesTag (Text.trim t) := fun hc =>
      (usesTag_of_calls hu h hc).resolve_right fun ⟨hb, _⟩ => htag hc hb
    refine ⟨hlast, fun b hp => ?_, fun hn => ?_⟩
    · rcases branch_of_run hu h hp with hl | hd | ⟨hb, -⟩
      · exact .inl hl
      · exact .inr hd
      · exact absurd hb (hbranch ⟨b, hp⟩)
    · cases e : out.calls with
      | nil => rfl
      | cons c cs =>
        obtain ⟨t, ⟨i, hi, -⟩, -⟩ := hlast (by simp [e])
        exact absurd hi (hn i t)
  -- what is taken for a bare option
  · intro hc hb
    rcases usesTag_of_calls hu h hc with ⟨t, hl, -⟩ | ⟨-, huse⟩
    · exact absurd hl hb.not_lastTyped
    · exact huse
  · intro b hp hb
    rcases branch_of_run hu h hp with hl | ⟨-, hn⟩ | ⟨-, hf⟩
    · exact absurd hl hb.not_lastTyped
    · obtain ⟨oc, hm, ho⟩ := hb.exists_occurrence
      exact absurd ho (hn oc hm)
    · exact hf

/-- With a tag and a branch that are typed no option is bare. -/
theorem takenAsTyped_of_typed :
    let bs : List Block :=
      [⟨.branch, "1.10".toList, false, by decide, fun _ => by decide⟩,
        ⟨.tag, " v1".toList, true, by decide, nofun⟩]
    Undotted (bs.flatMap Block.args)
      ∧ ∃ out, run (fun _ => none) (bs.flatMap Block.args) = .ok out
        ∧ TakenAsTyped (bs.flatMap Block.args) out := by
  intro bs
  have hn : (bs.map (·.option)).Nodup := by decide
  have hrun := run_of_read (read_args hn) fun _ => none
  have hbare : ∀ o : ValueOption, textIn bs o ≠ none →
      ¬ Bare o.typedName (bs.flatMap Block.args) := by
    intro o ht hb
    rw [← lastTyped?_args hn] at ht
    exact ht (lastTyped?_eq_none_iff.2 hb.1)
  refine ⟨undotted_args bs, _, hrun, (takenAsTyped_iff (undotted_args bs) hrun).1.2 ⟨?_, ?_⟩⟩
  · exact fun _ => hbare .tag nofun
  · exact fun _ => hbare .branch nofun

/-- An option that is given twice without a value makes a tag that nobody typed. -/
theorem not_takenAsTyped_of_repeated :
    let args := ["--tag".toList, "--tag".toList]
    Undotted args ∧ (∀ i v, ¬ TypedAt ValueOption.tag.name args i v)
      ∧ ∃ out, run (fun _ => none) args = .ok out ∧ out.calls ≠ []
        ∧ out.UsesTag "true".toList ∧ ¬ TakenAsTyped args out := by
  intro args
  have hoc : occurrences args
      = [⟨ValueOption.tag.name, .alone⟩, ⟨ValueOption.tag.name, .alone⟩] := by decide
  have honly : OnlyOptions (occurrences args) := by
    intro oc h
    obtain rfl : oc = ⟨ValueOption.tag.name, .alone⟩ := by simpa [hoc] using h
    exact ⟨.tag, rfl⟩
  have hnt : ∀ i v, ¬ TypedAt ValueOption.tag.name args i v :=
    lastTyped?_eq_none_iff.1 (by decide)
  have hst : storedAt (occurrences args) ValueOption.tag.name = some (flags true 0) := rfl
  obtain ⟨o, hr, hv⟩ := exists_read honly (by decide) (by
    intro v s hs
    cases v with
    | tag =>
      obtain rfl : flags true 0 = s := Option.some.inj hs
      rfl
    | branch | limit | address | directory => cases hs)
  have hu := undotted_of_onlyOptions honly
  have htag : o.tag = some (flags true 0) := hv .tag
  have hlimit : o.limit = none := hv .limit
  have ht : ¬ LacksTag args o := by
    intro h
    have htext : tagText? args o = some "true".toList := by
      rw [tagText?, lastTyped?_eq_none_iff.2 hnt, htag, lastText?_flags]
      rfl
    exact absurd (h _ htext) (by decide)
  have hl : ¬ RefusesLimit o := by
    rintro ⟨s, hs, -⟩
    rw [hlimit] at hs
    cases hs
  have hw := areWords_of_read hu hr
  obtain ⟨t, n, -, hrel⟩ := exists_releaseOf hw ht hl
  have hc : (outcome (compose (fun _ => none) args o)).calls ≠ [] := calls_ne_nil_of_release hrel
  have hrun := run_of_read hr fun _ => none
  have huse : (outcome (compose (fun _ => none) args o)).UsesTag "true".toList := by
    rcases usesTag_of_calls hu hrun hc with ⟨t, ⟨i, hi, -⟩, -⟩ | ⟨-, huse⟩
    · exact absurd hi (hnt i t)
    · exact huse
  exact ⟨hu, hnt, _, hrun, hc, huse, fun h => hc (h.calls_eq_nil hnt)⟩

end CommandLine

end ReleaseNotes
