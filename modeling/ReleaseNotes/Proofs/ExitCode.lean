/-
ReleaseNotes/Proofs/ExitCode.lean

How a run ends that is asked for a changelog.

Three things can stop it, and they are looked at in this order: the tag is missing
or blank, the limit is refused, there is an entry to link but the address is no
text.  Before the third nothing is asked of git, and what git answers matters to
the third only.  A run that is stopped prints no changelog, and a run that is not
prints all of it.

Main result: how a run ends (`exists_lawful_outcome`).  It needs a command line
that can be read: with a reserved name there is no run at all
(`no_outcome_of_reservedName`).
-/
import ReleaseNotes.CommandLine.Run
import ReleaseNotes.Proofs.AskedRelease
import ReleaseNotes.Proofs.OptionBlocks

namespace ReleaseNotes

/-- The entries of the commits that git lists for a release. -/
def Release.collected (repo : Repository) (r : Release) : List Entry :=
  Entry.ofLines (repo.commitLines r.directory (r.range repo).result).result

theorem entries_changelog (repo : Repository) (r : Release) (address : Text) :
    (r.changelog repo address).result.entries = r.collected repo := rfl

theorem markdown_changelog (repo : Repository) (r : Release) (address : Text) :
    (r.changelog repo address).result.markdown
      = Markdown.releaseSection address r.tag (r.collected repo) := rfl

namespace CommandLine

variable {repo : Repository} {args : List Text} {o : Options}

/-! ### What stops a run -/

/-- The address is a number or a list, and there is an entry to link. -/
def LinksNowhere (repo : Repository) (args : List Text) (o : Options) : Prop :=
  (∃ s ∈ o.address, (∃ x, s = .number x) ∨ ∃ items, s = .list items)
    ∧ ∃ r, releaseOf args o = .ok r ∧ ∃ e ∈ r.collected repo, e.number.isSome = true

/-- What an outcome tells at the end is a fault. -/
def Outcome.Reports (out : Outcome) (f : Fault) : Prop :=
  ∃ told, out.stderr = told
    ++ ("\x1b[31m✖\x1b[39m Failed\n\x1b[91m\nError:\x1b[39m ".toList ++ f.message ++ ['\n'])

theorem Outcome.reports_of_stderr {out : Outcome} {told : Text} {f : Fault}
    (h : out.stderr = told ++ failureLines f) : out.Reports f :=
  ⟨told, by rw [h, failureLines_eq]⟩

/-- How a run for these options has to end. -/
structure Outcome.IsLawful (repo : Repository) (args : List Text) (o : Options)
    (out : Outcome) : Prop where
  exitCode_eq_one_iff :
    out.exitCode = 1 ↔ LacksTag args o ∨ RefusesLimit o ∨ LinksNowhere repo args o
  exitCode_eq_zero : out.exitCode ≠ 1 → out.exitCode = 0
  reports_missingTag : LacksTag args o → out.Reports .missingTag
  reports_limitFault : ¬ LacksTag args o → RefusesLimit o →
    ∃ s ∈ o.limit, out.Reports (limitFault s)
  reports_addressNotText : ¬ LacksTag args o → ¬ RefusesLimit o → LinksNowhere repo args o →
    out.Reports .addressNotText
  stdout_eq_nil : out.exitCode = 1 → out.stdout = []
  calls_eq_nil : LacksTag args o ∨ RefusesLimit o → out.calls = []
  stdout_eq_section : out.exitCode = 0 → ∃ r, releaseOf args o = .ok r
    ∧ out.stdout = "# Changelog\n\n".toList ++ Markdown.releaseSection
        ((addressOf? o.address).getD Markdown.defaultAddress) r.tag (r.collected repo) ++ ['\n']

/-! ### Runs that are stopped before git is asked -/

theorem outcome_of_fault {f : Fault} (h : releaseOf args o = .error f) :
    outcome (compose repo args o) = ⟨1, [], startLine ++ failureLines f, []⟩ := by
  simp only [compose, h, outcome, Session.done, List.flatMap_nil, List.append_nil]

/-- A fault in tag or limit leaves nothing to link. -/
theorem not_linksNowhere_of_fault {f : Fault} (h : releaseOf args o = .error f) :
    ¬ LinksNowhere repo args o := by
  rintro ⟨-, r, hr, -⟩
  rw [h] at hr
  cases hr

/-- A run that is stopped by its tag or its limit ends as it has to. -/
theorem isLawful_of_fault {f : Fault} (hr : releaseOf args o = .error f)
    (hs : LacksTag args o ∨ RefusesLimit o) (htag : LacksTag args o → f = .missingTag)
    (hlimit : ¬ LacksTag args o → ∃ s ∈ o.limit, f = limitFault s) :
    (⟨1, [], startLine ++ failureLines f, []⟩ : Outcome).IsLawful repo args o where
  exitCode_eq_one_iff := ⟨fun _ => hs.imp_right .inl, fun _ => rfl⟩
  exitCode_eq_zero h := absurd rfl h
  reports_missingTag h := Outcome.reports_of_stderr (by rw [htag h])
  reports_limitFault h _ := by
    obtain ⟨s, hl, rfl⟩ := hlimit h
    exact ⟨s, hl, Outcome.reports_of_stderr rfl⟩
  reports_addressNotText _ _ h := absurd h (not_linksNowhere_of_fault hr)
  stdout_eq_nil _ := rfl
  calls_eq_nil _ := rfl
  stdout_eq_section h := absurd h Nat.one_ne_zero

/-! ### Runs that ask git -/

theorem addressOf?_eq_none_iff {s : Setting} (hw : s.IsWords) (hf : s.isFlag = false) :
    addressOf? (some s) = none ↔ (∃ x, s = .number x) ∨ ∃ items, s = .list items := by
  cases s with
  | flag => cases hf
  | number x => exact ⟨fun _ => .inl ⟨x, rfl⟩, fun _ => rfl⟩
  | text t => simp [addressOf?]
  | list items => exact ⟨fun _ => .inr ⟨items, rfl⟩, fun _ => rfl⟩
  | table | operation | common => exact hw.elim

/-- The changelog is built unless there is an entry and nothing to link it to. -/
theorem result_linked {r : Release} {address : Option Text} :
    (linked repo r address).result
      = if address = none ∧ ∃ e ∈ r.collected repo, e.number.isSome = true
        then .error .addressNotText
        else .ok (r.changelog repo (address.getD Markdown.defaultAddress)).result := by
  cases address with
  | some u => rfl
  | none =>
    simp only [linked, Session.mapResult, entries_changelog, List.any_eq_true, true_and,
      Option.getD_none]

variable {told : Text} {calls : List Call}

/-- A run that is stopped by an entry ends as it has to. -/
theorem isLawful_of_linksNowhere (ht : ¬ LacksTag args o) (hl : ¬ RefusesLimit o)
    (hln : LinksNowhere repo args o) :
    (⟨1, [], told ++ failureLines .addressNotText, calls⟩ : Outcome).IsLawful repo args o where
  exitCode_eq_one_iff := ⟨fun _ => .inr (.inr hln), fun _ => rfl⟩
  exitCode_eq_zero h := absurd rfl h
  reports_missingTag h := absurd h ht
  reports_limitFault _ h := absurd h hl
  reports_addressNotText _ _ _ := Outcome.reports_of_stderr rfl
  stdout_eq_nil _ := rfl
  calls_eq_nil h := absurd h (not_or.2 ⟨ht, hl⟩)
  stdout_eq_section h := absurd h Nat.one_ne_zero

/-- A run that nothing stops ends as it has to. -/
theorem isLawful_of_changelog {r : Release} (hr : releaseOf args o = .ok r)
    (ht : ¬ LacksTag args o) (hl : ¬ RefusesLimit o) (hln : ¬ LinksNowhere repo args o)
    {c : Changelog} (hc : c.markdown = Markdown.releaseSection
      ((addressOf? o.address).getD Markdown.defaultAddress) r.tag (r.collected repo)) :
    (⟨0, document c, told, calls⟩ : Outcome).IsLawful repo args o where
  exitCode_eq_one_iff :=
    ⟨fun h => absurd h Nat.zero_ne_one, fun h => absurd h (not_or.2 ⟨ht, not_or.2 ⟨hl, hln⟩⟩)⟩
  exitCode_eq_zero _ := rfl
  reports_missingTag h := absurd h ht
  reports_limitFault _ h := absurd h hl
  reports_addressNotText _ _ h := absurd h hln
  stdout_eq_nil h := absurd h Nat.zero_ne_one
  calls_eq_nil h := absurd h (not_or.2 ⟨ht, hl⟩)
  stdout_eq_section _ :=
    ⟨r, hr, congrArg (fun m => "# Changelog\n\n".toList ++ m ++ ['\n']) hc⟩

/-- A run with a tag and a limit ends as it has to. -/
theorem isLawful_of_release {r : Release} (hr : releaseOf args o = .ok r)
    (ht : ¬ LacksTag args o) (hl : ¬ RefusesLimit o)
    (ha : addressOf? o.address = none
      ↔ ∃ s ∈ o.address, (∃ x, s = .number x) ∨ ∃ items, s = .list items) :
    (outcome (compose repo args o)).IsLawful repo args o := by
  have hs : compose repo args o = linked repo r (addressOf? o.address) := by
    simp only [compose, hr]
  have hlink : LinksNowhere repo args o
      ↔ addressOf? o.address = none ∧ ∃ e ∈ r.collected repo, e.number.isSome = true := by
    simp [LinksNowhere, ha, hr]
  have hres : (linked repo r (addressOf? o.address)).result = _ := result_linked
  rw [hs, outcome]
  by_cases hln : LinksNowhere repo args o
  · rw [if_pos (hlink.1 hln)] at hres
    simp only [hres]
    exact isLawful_of_linksNowhere ht hl hln
  · rw [if_neg fun h => hln (hlink.2 h)] at hres
    simp only [hres]
    exact isLawful_of_changelog hr ht hl hln (markdown_changelog _ _ _)

/-! ### How a run ends -/

/-- **How a run ends**: with 1 exactly when it is stopped by its tag, its limit or
an entry that cannot be linked, which it then reports without printing anything,
and with 0 and the whole changelog otherwise.  Where the address is a text, git
cannot make a difference to that. -/
theorem exists_lawful_outcome (hu : Undotted args) (hr : read args = .ok (.compose o))
    (repo : Repository) :
    ∃ out, run repo args = .ok out ∧ out.IsLawful repo args o
      ∧ ((∀ s ∈ o.address, s.isText = true) → ∀ repo' : Repository,
          ∃ out', run repo' args = .ok out' ∧ out'.exitCode = out.exitCode) := by
  have hw := areWords_of_read hu hr
  have hrun := run_of_read hr
  -- the three cases, in the order in which they are looked at
  have hlaw : ∀ repo, (outcome (compose repo args o)).IsLawful repo args o := by
    intro repo
    by_cases ht : LacksTag args o
    · have hrel := releaseOf_of_lacksTag hw ht
      rw [outcome_of_fault hrel]
      exact isLawful_of_fault hrel (.inl ht) (fun _ => rfl) (absurd ht)
    · by_cases hl : RefusesLimit o
      · obtain ⟨s, hs, hd⟩ := hl
        have hrel := releaseOf_of_refused hw ht hs hd
        rw [outcome_of_fault hrel]
        exact isLawful_of_fault hrel (.inr ⟨s, hs, hd⟩) (absurd · ht) fun _ => ⟨s, hs, rfl⟩
      · obtain ⟨t, n, -, hrel⟩ := exists_releaseOf hw ht hl
        refine isLawful_of_release hrel ht hl ?_
        cases ha : o.address with
        | none => simp [addressOf?]
        | some s =>
          rw [addressOf?_eq_none_iff (hw .address s ha) (not_isFlag_of_read hr (v := .address) ha)]
          simp
  refine ⟨_, hrun repo, hlaw repo, fun ha repo' => ⟨_, hrun repo', ?_⟩⟩
  -- with a text for an address the repository is in none of the conditions
  have hn : ∀ repo, ¬ LinksNowhere repo args o := by
    rintro repo ⟨⟨s, hs, h⟩, -⟩
    have ht := ha s hs
    rcases h with ⟨x, rfl⟩ | ⟨items, rfl⟩ <;> cases ht
  have hone : (outcome (compose repo' args o)).exitCode = 1
      ↔ (outcome (compose repo args o)).exitCode = 1 := by
    rw [(hlaw repo').exitCode_eq_one_iff, (hlaw repo).exitCode_eq_one_iff]
    simp only [hn repo, hn repo']
  by_cases h : (outcome (compose repo args o)).exitCode = 1
  · rw [h, hone.2 h]
  · rw [(hlaw repo).exitCode_eq_zero h, (hlaw repo').exitCode_eq_zero fun h' => h (hone.1 h')]

/-- A limit that is no number. -/
theorem exists_lawful_outcome_of_word :
    let bs : List Block :=
      [⟨.tag, "v1".toList, false, by decide, fun _ => by decide⟩,
        ⟨.limit, "few".toList, true, by decide, nofun⟩]
    Undotted (bs.flatMap Block.args)
      ∧ read (bs.flatMap Block.args) = .ok (.compose (optionsIn bs))
      ∧ ∃ out, run (fun _ => none) (bs.flatMap Block.args) = .ok out ∧ out.exitCode = 1
        ∧ out.Reports (.invalidLimit "few".toList) ∧ out.calls = []
        ∧ out.stderr = "\x1b[33m-\x1b[39m Reading git history...\n".toList
          ++ "\x1b[31m✖\x1b[39m Failed\n\x1b[91m\nError:\x1b[39m ".toList
          ++ "Invalid limit \"few\". Expected a positive integer.\n".toList := by
  intro bs
  have hu := undotted_args bs
  have hr : read (bs.flatMap Block.args) = .ok (.compose (optionsIn bs)) := read_args (by decide)
  have ht : ¬ LacksTag (bs.flatMap Block.args) (optionsIn bs) := by
    have htag : tagText? (bs.flatMap Block.args) (optionsIn bs) = some "v1".toList := rfl
    intro h
    exact absurd (h _ htag) (by decide)
  have hlimit : (optionsIn bs).limit = some (.text "few".toList) :=
    congrArg some (Setting.ofText_eq_text_iff.2 ⟨by decide +kernel, rfl⟩)
  have hl : RefusesLimit (optionsIn bs) := by
    refine ⟨_, hlimit, fun n _ => ?_⟩
    have hnone : Number.read? "few".toList = none := by decide +kernel
    show Number.read? "few".toList ≠ some (n : Rat)
    rw [hnone]
    nofun
  obtain ⟨out, hrun, hlaw, -⟩ := exists_lawful_outcome hu hr fun _ => none
  obtain ⟨s, hs, hrep⟩ := hlaw.reports_limitFault ht hl
  rw [hlimit] at hs
  obtain rfl := Option.some.inj hs
  have hout : out = outcome (compose (fun _ => none) (bs.flatMap Block.args) (optionsIn bs)) :=
    Except.ok.inj (hrun.symm.trans (run_of_read hr _))
  refine ⟨hu, hr, out, hrun, hlaw.exitCode_eq_one_iff.2 (.inr (.inl hl)), hrep,
    hlaw.calls_eq_nil (.inr hl), ?_⟩
  rw [hout]
  decide +kernel

/-! ### Command lines that cannot be read -/

/-- Whether a usage error is found by checking the options, and not already by
putting them together. -/
def isCheck : UsageError → Bool
  | .unknownOption _ => true
  | .missingValue _ => true
  | _ => false

/-- Where a name is reserved there is no run, although no check of the options
fails, nothing but a changelog is asked for and no name has fields. -/
theorem no_outcome_of_reservedName :
    let args := ["--tag".toList, "v1.1.0".toList, "--propertyIsEnumerable".toList]
    Undotted args
      ∧ (∀ e, read args = .error e → isCheck e = false)
      ∧ (∀ help version, read args ≠ .ok (.explain help version))
      ∧ ∀ (repo : Repository) (out : Outcome), run repo args ≠ .ok out := by
  intro args
  have hr : read args = .error .reservedName := rfl
  refine ⟨?_, ?_, ?_, ?_⟩
  · show ∀ o ∈ occurrences args, '.' ∉ o.name
    decide
  · intro e h
    rw [hr] at h
    cases h
    rfl
  · intro help version h
    rw [hr] at h
    cases h
  · intro repo out h
    rw [run, hr] at h
    cases h

end CommandLine

end ReleaseNotes
