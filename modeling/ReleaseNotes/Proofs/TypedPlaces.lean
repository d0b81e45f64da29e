/-
ReleaseNotes/Proofs/TypedPlaces.lean

The directory that a run works in and the address that it links to, and those that
are typed.

Both come from the values of their options, so a text that reads as a number is
taken as the number.  A number is no directory: git is never started there, and the
run goes on as if there were nothing to list.  A number is no address either, which
stops the run as soon as there is an entry to link; without one the address does not
matter.

Main result: when directory and address are those that are typed, and what happens
otherwise (`takesPlaces_iff`).
-/
import Mathlib.Data.List.Basic
import ReleaseNotes.Proofs.SectionLines
import ReleaseNotes.Proofs.TypedRelease

namespace ReleaseNotes

namespace Markdown

variable {address address' : Text} {entries : List Entry}

/-! ### Sections without links -/

/-- Without numbers there are no links, so their address does not matter. -/
theorem releaseSection_of_no_number (h : ∀ e ∈ entries, e.number = none) (tag : Text) :
    releaseSection address tag entries = releaseSection address' tag entries := by
  refine releaseSection_congr (fun e he => ?_) tag
  rw [h e he]
  rfl

end Markdown

namespace Release

variable {repo : Repository} {r : Release} {e : Entry}

/-! ### What is collected -/

/-- The number of an entry is not empty. -/
theorem number_ne_nil_of_mem_collected (he : e ∈ r.collected repo) {n : Text}
    (hn : e.number = some n) : n ≠ [] := by
  obtain ⟨line, hline, hread⟩ := List.mem_filterMap.1 he
  have hplain : e.IsPlain :=
    Entry.isPlain_of_ofLine? (Repository.lineFeed_not_mem_of_mem_commitLines hline) hread
  exact (hplain.isNumber n hn).1

/-- Where git cannot be started nothing is collected. -/
theorem collected_of_invalid (h : r.directory.isValid = false) : r.collected repo = [] := by
  have hlines : (repo.commitLines r.directory (r.range repo).result).result = [] := by
    simp only [Repository.commitLines, Repository.ask, Session.mapResult, Call.canStart, h,
      Bool.false_and, Bool.false_eq_true, if_false, Option.map_none, Option.getD_none]
  rw [collected, hlines]
  rfl

/-- Without numbers to link the address does not matter to a build. -/
theorem changelog_of_no_number (h : ∀ e ∈ r.collected repo, e.number = none)
    (address address' : Text) : r.changelog repo address = r.changelog repo address' := by
  have hshape : ∀ address, r.changelog repo address
      = ⟨⟨Markdown.releaseSection address r.tag (r.collected repo),
          (repo.commitLines r.directory (r.range repo).result).result.length, r.collected repo,
          (r.range repo).result⟩,
        (r.changelog repo address').calls, (r.changelog repo address').warnings⟩ := fun _ => rfl
  rw [hshape address, hshape address', Markdown.releaseSection_of_no_number h]

end Release

namespace CommandLine

variable {repo : Repository} {r : Release} {address : Option Text} {out : Outcome} {t p u : Text}

/-! ### What a run for a release leaves behind -/

/-- Git is called in the directory of the release only. -/
theorem directory_of_mem_calls {c : Call} (hc : c ∈ (outcome (linked repo r address)).calls) :
    c.directory = r.directory := by
  rw [calls_outcome, calls_linked, Release.calls_changelog] at hc
  rcases List.mem_append.1 hc with hc | hc
  · rcases List.mem_append.1 hc with hc | hc
    · rcases List.mem_pair.1 hc with rfl | rfl <;> rfl
    · split at hc
      · cases hc
      · rw [List.mem_singleton.1 hc]
  · rw [List.mem_singleton.1 hc]

/-- Without numbers to link a run needs no address. -/
theorem linked_of_no_number (h : ∀ e ∈ r.collected repo, e.number = none) (u : Text) :
    linked repo r none = linked repo r (some u) := by
  have hany : (r.changelog repo Markdown.defaultAddress).result.entries.any (·.number.isSome)
      = false := by
    rw [entries_changelog, List.any_eq_false]
    intro e he
    rw [h e he]
    exact Bool.false_ne_true
  have hsame := Release.changelog_of_no_number h u Markdown.defaultAddress
  simp only [linked, hsame, Session.mapResult, hany, Bool.false_eq_true, if_false]

theorem exitCode_linked_some : (outcome (linked repo r (some u))).exitCode = 0 :=
  (exitCode_outcome _).2 ⟨_, rfl⟩

/-- A number to link and no address stop a run. -/
theorem outcome_linked_none {e : Entry} (he : e ∈ r.collected repo) (hn : e.number ≠ none) :
    (outcome (linked repo r none)).exitCode = 1 ∧ (outcome (linked repo r none)).stdout = []
      ∧ (outcome (linked repo r none)).Reports .addressNotText := by
  have hres : (linked repo r none).result = .error .addressNotText := by
    rw [result_linked, if_pos ⟨rfl, e, he, Option.isSome_iff_ne_none.2 hn⟩]
  simp only [outcome, hres, true_and]
  exact Outcome.reports_of_stderr rfl

/-- Whether there is an address matters exactly when there is something to link. -/
theorem outcome_linked_eq_iff : outcome (linked repo r (some u)) = outcome (linked repo r none)
    ↔ ∀ e ∈ r.collected repo, e.number = none := by
  constructor
  · intro h e he
    by_contra hn
    have hexit := congrArg Outcome.exitCode h
    rw [(outcome_linked_none he hn).1, exitCode_linked_some] at hexit
    cases hexit
  · intro hall
    rw [linked_of_no_number hall u]

/-! ### Directory and address -/

/-- A run for `r` works in the directory `p` and links to `u` without the slashes at
its end. -/
structure Outcome.TakesPlaces (out : Outcome) (repo : Repository) (r : Release) (p u : Text) :
    Prop where
  exitCode : out.exitCode = 0
  directory : ∀ c ∈ out.calls, c.directory = .path p
  stdout : out.stdout = "# Changelog\n\n".toList
    ++ Markdown.releaseSection u r.tag (r.collected repo) ++ ['\n']
  link : ∃ b k, u = b ++ List.replicate k '/' ∧ b.getLast? ≠ some '/'
    ∧ ∀ e ∈ r.collected repo, ∀ n, e.number = some n →
      Markdown.item u e = "- ".toList ++ e.title ++ " by ".toList ++ e.author ++ " (".toList
        ++ ("[#".toList ++ n ++ "](".toList ++ b ++ "/pull/".toList ++ n ++ [')']) ++ [')']

theorem takesPlaces_linked (hr : r.directory = .path p) :
    (outcome (linked repo r (some u))).TakesPlaces repo r p u where
  exitCode := exitCode_linked_some
  directory c hc := (directory_of_mem_calls hc).trans hr
  stdout := stdout_linked exitCode_linked_some
  link := by
    obtain ⟨k, hk⟩ := Markdown.exists_base_append u
    refine ⟨Markdown.base u, k, hk, Markdown.getLast?_base u, fun e he n hn => ?_⟩
    apply Markdown.item_of_link
    rw [hn]
    exact Markdown.link_of_ne_nil (Release.number_ne_nil_of_mem_collected he hn)

/-- Without an address it depends on what there is to link. -/
theorem takesPlaces_linked_none_iff (hr : r.directory = .path p) :
    (outcome (linked repo r none)).TakesPlaces repo r p u
      ↔ ∀ e ∈ r.collected repo, e.number = none := by
  constructor
  · intro h e he
    by_contra hn
    exact absurd (h.exitCode.symm.trans (outcome_linked_none he hn).1) Nat.zero_ne_one
  · intro hall
    -- there is nothing to link, so the address may as well be the typed one
    rw [linked_of_no_number hall u]
    exact takesPlaces_linked hr

/-- Only a release in the directory has its calls there. -/
theorem Outcome.TakesPlaces.eq_path {r' : Release}
    (h : (outcome (linked repo r' address)).TakesPlaces repo r p u) : r'.directory = .path p := by
  obtain ⟨c, hc⟩ := List.exists_mem_of_ne_nil _ (calls_linked_ne_nil (r := r'))
  exact (directory_of_mem_calls hc).symm.trans (h.directory c hc)

/-- A text that reads as a number is a place of no use. -/
theorem directoryOf_ofText (p : Text) : directoryOf (some (Setting.ofText p))
    = match Number.read? p with
      | some x => .invalid (.number x)
      | none => .path p := by
  unfold Setting.ofText
  cases Number.read? p <;> rfl

theorem addressOf?_ofText (u : Text) : addressOf? (some (Setting.ofText u))
    = if Number.read? u = none then some u else none := by
  unfold Setting.ofText
  cases Number.read? u <;> rfl

/-- A command line with a tag, a directory and an address asks for a release in the
directory, with links to the address, as the two are read. -/
theorem run_places (repo : Repository) (ht : Text.trim t ≠ []) (htd : isDashed t = false)
    (hp : p ≠ []) (hpd : isDashed p = false) (hu : u ≠ []) (hud : isDashed u = false) :
    run repo ["--tag".toList, t, "--cwd".toList, p, "--repo-url".toList, u]
      = .ok (outcome (linked repo
          { tag := Text.trim t, directory := directoryOf (some (Setting.ofText p)) }
          (addressOf? (some (Setting.ofText u))))) := by
  have hne : t ≠ [] := by
    rintro rfl
    exact ht rfl
  let bs : List Block := [⟨.tag, t, false, hne, fun _ => htd⟩,
    ⟨.directory, p, false, hp, fun _ => hpd⟩, ⟨.address, u, false, hu, fun _ => hud⟩]
  have hrel : releaseOf (bs.flatMap Block.args) (askedIn bs) = .ok ⟨Text.trim t, defaultBranch,
      defaultLimit, directoryOf (some (Setting.ofText p))⟩ := releaseOf_flatMap rfl ht rfl
  exact run_flatMap_of_release hrel repo

/-- Where git cannot be started nothing is listed, and this is all that a run tells. -/
theorem outcome_of_invalid (h : r.directory.isValid = false) (repo : Repository)
    (address : Option Text) :
    let out := outcome (linked repo r address)
    out.exitCode = 0 ∧ out.calls ≠ [] ∧ (∀ c ∈ out.calls, c.directory = r.directory)
      ∧ out.stdout = "# Changelog\n\n".toList ++ ['\n'].intercalate
          [Markdown.heading r.tag, Markdown.noEntries] ++ ['\n'] := by
  intro out
  have hnil : r.collected repo = [] := Release.collected_of_invalid h
  have hexit : out.exitCode = 0 := by
    cases address with
    | some u => exact exitCode_linked_some
    | none =>
      have hno : ∀ e ∈ r.collected repo, e.number = none := by
        rw [hnil]
        nofun
      show (outcome (linked repo r none)).exitCode = 0
      rw [linked_of_no_number hno []]
      exact exitCode_linked_some
  refine ⟨hexit, calls_linked_ne_nil, fun c hc => directory_of_mem_calls hc, ?_⟩
  have hstdout := stdout_linked hexit
  rw [hnil] at hstdout
  exact hstdout

/-- **Directory and address are those that are typed, except for numbers**: the
directory must not read as one, and the address must not either if there is an entry
to link. -/
theorem takesPlaces_iff (repo : Repository) (ht : Text.trim t ≠ []) (htd : isDashed t = false)
    (hp : p ≠ []) (hpd : isDashed p = false) (hu : u ≠ []) (hud : isDashed u = false) :
    let r : Release := { tag := Text.trim t, directory := .path p }
    ∃ out, run repo ["--tag".toList, t, "--cwd".toList, p, "--repo-url".toList, u] = .ok out
      ∧ (out.TakesPlaces repo r p u ↔ Number.read? p = none
        ∧ (Number.read? u = none ∨ ∀ e ∈ r.collected repo, e.number = none))
      ∧ (∀ x, Number.read? p = some x → out.exitCode = 0
        ∧ out.calls ≠ [] ∧ (∀ c ∈ out.calls, c.directory = .invalid (.number x))
        ∧ out.stdout = "# Changelog\n\n".toList ++ ['\n'].intercalate
            [Markdown.heading (Text.trim t), Markdown.noEntries] ++ ['\n'])
      ∧ (Number.read? p = none → Number.read? u ≠ none →
        (∃ e ∈ r.collected repo, e.number ≠ none) →
        out.exitCode = 1 ∧ out.stdout = [] ∧ out.Reports .addressNotText) := by
  intro r
  refine ⟨_, run_places repo ht htd hp hpd hu hud, ?_⟩
  cases hx : Number.read? p with
  | some x =>
    have hd : directoryOf (some (Setting.ofText p)) = .invalid (.number x) := by
      rw [directoryOf_ofText, hx]
    rw [hd]
    refine ⟨⟨fun h => ?_, fun h => absurd h.1 nofun⟩, ?_, nofun⟩
    · cases h.eq_path
    · rintro y ⟨⟩
      exact outcome_of_invalid rfl repo _
  | none =>
    have hd : directoryOf (some (Setting.ofText p)) = .path p := by
      rw [directoryOf_ofText, hx]
    rw [hd, addressOf?_ofText]
    show ((outcome (linked repo r _)).TakesPlaces repo r p u ↔ _) ∧ _
    by_cases hn : Number.read? u = none
    · rw [if_pos hn]
      exact ⟨⟨fun _ => ⟨rfl, .inl hn⟩, fun _ => takesPlaces_linked rfl⟩, nofun,
        fun _ h => absurd hn h⟩
    · rw [if_neg hn, takesPlaces_linked_none_iff rfl]
      exact ⟨⟨fun h => ⟨rfl, .inr h⟩, fun h => h.2.resolve_left hn⟩, nofun,
        fun _ _ ⟨e, he, hne⟩ => outcome_linked_none he hne⟩

/-- A directory and an address that are no numbers, with slashes at the end. -/
theorem takesPlaces_of_words :
    let p := "1.0/".toList
    let u := "https://example.org//".toList
    let line := "a1||Fix it (#7)||Jo".toList
    let repo : Repository := fun _ => some line
    let r : Release := { tag := "v1".toList, directory := .path p }
    ∃ out, run repo ["--tag".toList, " v1".toList, "--cwd".toList, p, "--repo-url".toList, u]
        = .ok out
      ∧ out.TakesPlaces repo r p u
      ∧ out.stdout = "# Changelog\n\n## v1\n- Fix it by Jo ([#7](https://example.org/pull/7))\n".toList
      := by
  intro p u line repo r
  have hp : Number.read? p = none := by decide +kernel
  have hu : Number.read? u = none := by decide +kernel
  obtain ⟨out, hrun, hiff, -⟩ := takesPlaces_iff (t := " v1".toList) (p := p) (u := u) repo
    (by decide) (by decide) (by decide) (by decide) (by decide) (by decide)
  have htake : out.TakesPlaces repo r p u := hiff.2 ⟨hp, .inl hu⟩
  have hentries : r.collected repo = [⟨"Fix it".toList, "Jo".toList, some "7".toList⟩] := by
    decide +kernel
  refine ⟨out, hrun, htake, ?_⟩
  rw [htake.stdout, hentries]
  decide +kernel

/-- A directory whose name is a number is not the one that git is called in. -/
theorem not_takesPlaces_of_number :
    let args := ["--tag".toList, "v1".toList, "--cwd".toList, "2024".toList,
      "--repo-url".toList, "https://example.org".toList]
    ∀ repo : Repository, ∃ out, run repo args = .ok out ∧ out.calls ≠ []
      ∧ (∀ c ∈ out.calls, c.directory ≠ .path "2024".toList)
      ∧ ∀ r, ¬ out.TakesPlaces repo r "2024".toList "https://example.org".toList := by
  intro args repo
  have hnumber : directoryOf (some (Setting.ofText "2024".toList)) = .invalid (.number 2024) := by
    have hread : Number.read? "2024".toList = some 2024 := by decide +kernel
    rw [directoryOf_ofText, hread]
  have hrun := run_places (t := "v1".toList) (p := "2024".toList)
    (u := "https://example.org".toList) repo (by decide) (by decide) (by decide) (by decide)
    (by decide) (by decide)
  rw [hnumber] at hrun
  refine ⟨_, hrun, calls_linked_ne_nil, fun c hc h => ?_, fun r h => ?_⟩
  · rw [directory_of_mem_calls hc] at h
    cases h
  · cases h.eq_path

end CommandLine

end ReleaseNotes
