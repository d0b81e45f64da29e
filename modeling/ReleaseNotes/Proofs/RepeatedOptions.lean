/-
ReleaseNotes/Proofs/RepeatedOptions.lean

Options that are given several times.

Of the tags and branches that are typed the last one is taken.  Another option has
the list of its values, and nothing takes the last value out of it: a list is no
limit, no directory and no address.  So a run is the one for the last blocks alone
exactly when no list gets in its way, be it that no such option is repeated, that
the run is stopped before, or that there is nothing to link.

Main result: when only the last block of each option counts (`run_lastOnly_eq_iff`).
-/
import ReleaseNotes.Proofs.TypedPlaces

namespace ReleaseNotes

namespace CommandLine

variable {repo : Repository} {bs : List Block} {o : ValueOption}

/-! ### The last blocks -/

/-- The blocks without those whose option is given again. -/
def lastOnly : List Block → List Block
  | [] => []
  | b :: bs => if ∃ b' ∈ bs, b'.option = b.option then lastOnly bs else b :: lastOnly bs

theorem textsIn_eq_nil_iff : textsIn bs o = [] ↔ ∀ b ∈ bs, b.option ≠ o := by
  simp [textsIn]

/-- Of the texts of an option the last one is left. -/
theorem textsIn_lastOnly (bs : List Block) (o : ValueOption) :
    textsIn (lastOnly bs) o = (textsIn bs o).getLast?.toList := by
  induction bs with
  | nil => rfl
  | cons b bs ih =>
    rw [lastOnly, textsIn_cons]
    by_cases hrep : ∃ b' ∈ bs, b'.option = b.option
    · rw [if_pos hrep, ih]
      by_cases h : b.option = o
      · -- the block is not the last one of its option
        have hne : textsIn bs o ≠ [] := by
          obtain ⟨b', hb', he⟩ := hrep
          exact fun hn => textsIn_eq_nil_iff.1 hn b' hb' (he.trans h)
        rw [if_pos h, List.getLast?_cons_of_ne_nil hne]
      · rw [if_neg h]
    · rw [if_neg hrep, textsIn_cons, ih]
      by_cases h : b.option = o
      · have hnil : textsIn bs o = [] :=
          textsIn_eq_nil_iff.2 fun b' hb' he => hrep ⟨b', hb', he.trans h.symm⟩
        rw [if_pos h, if_pos h, hnil]
        rfl
      · rw [if_neg h, if_neg h]

theorem getLast?_textsIn_lastOnly (bs : List Block) (o : ValueOption) :
    (textsIn (lastOnly bs) o).getLast? = (textsIn bs o).getLast? := by
  rw [textsIn_lastOnly]
  cases (textsIn bs o).getLast? <;> rfl

/-! ### Repeated options -/

/-- An option has several texts. -/
def Repeated (bs : List Block) (o : ValueOption) : Prop :=
  1 < (textsIn bs o).length

theorem settingIn_lastOnly (h : ¬ Repeated bs o) : settingIn (lastOnly bs) o = settingIn bs o := by
  have hs : textsIn (lastOnly bs) o = textsIn bs o := by
    rw [textsIn_lastOnly]
    cases e : textsIn bs o with
    | nil => rfl
    | cons v vs =>
      cases vs with
      | nil => rfl
      | cons w vs =>
        refine absurd ?_ h
        rw [Repeated, e]
        simp
  rw [settingIn, settingIn, hs]

/-- A repeated option has a list for its value, while the last block alone gives it
the value of a text. -/
theorem exists_settingIn_of_repeated (h : Repeated bs o) :
    (∃ items, settingIn bs o = some (.list items))
      ∧ ∃ v, (textsIn bs o).getLast? = some v
        ∧ settingIn (lastOnly bs) o = some (Setting.ofText v) := by
  unfold settingIn
  rw [textsIn_lastOnly]
  unfold Repeated at h
  match e : textsIn bs o with
  | [] =>
    rw [e] at h
    cases h
  | [v] =>
    rw [e] at h
    exact absurd h (Nat.lt_irrefl 1)
  | v :: w :: vs =>
    refine ⟨⟨_, rfl⟩, (v :: w :: vs).getLast (by simp), ?_, ?_⟩
    · exact List.getLast?_eq_some_getLast _
    · rw [List.getLast?_eq_some_getLast (by simp)]
      rfl

/-! ### Runs -/

/-- For the last blocks alone the tag that is meant is the same. -/
theorem lacksTag_lastOnly : LacksTag ((lastOnly bs).flatMap Block.args) (askedIn (lastOnly bs))
    ↔ LacksTag (bs.flatMap Block.args) (askedIn bs) := by
  rw [LacksTag, LacksTag, tagText?_flatMap, tagText?_flatMap, getLast?_textsIn_lastOnly]

/-- A run that is stopped by its tag or its limit tells nothing but the fault. -/
theorem run_flatMap_of_fault {f : Fault}
    (h : releaseOf (bs.flatMap Block.args) (askedIn bs) = .error f) (repo : Repository) :
    run repo (bs.flatMap Block.args) = .ok ⟨1, [], startLine ++ failureLines f, []⟩ := by
  rw [run_flatMap, outcome_of_fault h]

/-! ### Repeated limits -/

theorem message_of_failureLines {f f' : Fault} (h : failureLines f = failureLines f') :
    f.message = f'.message := by
  have hm := List.append_cancel_left (List.append_cancel_right h)
  exact (List.cons.inj hm).2

/-- A single limit is refused in other words than a list of limits. -/
theorem message_limitFault_ofText_ne (v : Text) :
    (limitFault (Setting.ofText v)).message ≠ Fault.limitNotText.message := by
  have hgiven : ∃ given, limitFault (Setting.ofText v) = .invalidLimit given := by
    unfold Setting.ofText
    cases Number.read? v <;> exact ⟨_, rfl⟩
  obtain ⟨given, hg⟩ := hgiven
  rw [hg]
  intro h
  have hfirst : some 'I' = some 'l' := congrArg List.head? h
  cases hfirst

/-- A limit that is given several times is none. -/
theorem releaseOf_of_repeated_limit (ht : ¬ LacksTag (bs.flatMap Block.args) (askedIn bs))
    (h : Repeated bs .limit) :
    releaseOf (bs.flatMap Block.args) (askedIn bs) = .error .limitNotText := by
  obtain ⟨⟨items, hs⟩, -⟩ := exists_settingIn_of_repeated h
  exact releaseOf_of_refused (areWords_askedIn bs) ht hs fun n _ => nofun

/-- The last of several limits alone does not end the run in the same way. -/
theorem run_lastOnly_ne_of_repeated_limit
    (ht : ¬ LacksTag (bs.flatMap Block.args) (askedIn bs)) (h : Repeated bs .limit) :
    run repo ((lastOnly bs).flatMap Block.args) ≠ run repo (bs.flatMap Block.args) := by
  have ht' := mt lacksTag_lastOnly.1 ht
  have hw := areWords_askedIn (lastOnly bs)
  obtain ⟨-, v, -, hs⟩ := exists_settingIn_of_repeated h
  rw [run_flatMap_of_fault (releaseOf_of_repeated_limit ht h)]
  by_cases hl : RefusesLimit (askedIn (lastOnly bs))
  · -- a single limit that is refused is told
    obtain ⟨s, hs', hd⟩ := hl
    obtain rfl : Setting.ofText v = s := Option.some.inj (hs.symm.trans hs')
    rw [run_flatMap_of_fault (releaseOf_of_refused hw ht' hs hd)]
    intro he
    have herr := congrArg Outcome.stderr (Except.ok.inj he)
    have hm := message_of_failureLines (List.append_cancel_left herr)
    exact message_limitFault_ofText_ne v hm
  · -- with a limit the run asks git
    obtain ⟨t, n, -, hrel⟩ := exists_releaseOf hw ht' hl
    rw [run_flatMap_of_release hrel]
    intro he
    exact calls_linked_ne_nil (congrArg Outcome.calls (Except.ok.inj he))

/-! ### Limits that are not repeated -/

theorem run_lastOnly_of_lacksTag (ht : LacksTag (bs.flatMap Block.args) (askedIn bs)) :
    run repo ((lastOnly bs).flatMap Block.args) = run repo (bs.flatMap Block.args) := by
  have hw := areWords_askedIn bs
  have hw' := areWords_askedIn (lastOnly bs)
  rw [run_flatMap_of_fault (releaseOf_of_lacksTag hw ht),
    run_flatMap_of_fault (releaseOf_of_lacksTag hw' (lacksTag_lastOnly.2 ht))]

theorem run_lastOnly_of_refusesLimit (ht : ¬ LacksTag (bs.flatMap Block.args) (askedIn bs))
    (h : ¬ Repeated bs .limit) (hl : RefusesLimit (askedIn bs)) :
    run repo ((lastOnly bs).flatMap Block.args) = run repo (bs.flatMap Block.args) := by
  have hw := areWords_askedIn bs
  have hw' := areWords_askedIn (lastOnly bs)
  obtain ⟨s, hs, hd⟩ := hl
  have hs' : (askedIn (lastOnly bs)).limit = some s := (settingIn_lastOnly h).trans hs
  rw [run_flatMap_of_fault (releaseOf_of_refused hw ht hs hd),
    run_flatMap_of_fault (releaseOf_of_refused hw' (mt lacksTag_lastOnly.1 ht) hs' hd)]

/-- With a tag and a limit the last blocks alone ask for the same release, apart from
its directory. -/
theorem exists_releaseOf_lastOnly (ht : ¬ LacksTag (bs.flatMap Block.args) (askedIn bs))
    (h : ¬ Repeated bs .limit) (hl : ¬ RefusesLimit (askedIn bs)) :
    ∃ r : Release,
      releaseOf (bs.flatMap Block.args) (askedIn bs)
        = .ok { r with directory := directoryOf (settingIn bs .directory) }
      ∧ releaseOf ((lastOnly bs).flatMap Block.args) (askedIn (lastOnly bs))
        = .ok { r with directory := directoryOf (settingIn (lastOnly bs) .directory) } := by
  obtain ⟨t, htag, hb⟩ := exists_tagText? ht
  rw [tagText?_flatMap] at htag
  obtain ⟨n, hn⟩ := exists_limitOf hl
  have hn' : limitOf (settingIn (lastOnly bs) .limit) = .ok n := by
    rw [settingIn_lastOnly h]
    exact hn
  have htag' : (textsIn (lastOnly bs) .tag).getLast? = some t := by
    rw [getLast?_textsIn_lastOnly, htag]
  refine ⟨⟨Text.trim t, (textsIn bs .branch).getLast?.getD defaultBranch, n, .current⟩, ?_, ?_⟩
  · exact releaseOf_flatMap htag hb hn
  · rw [releaseOf_flatMap htag' hb hn', getLast?_textsIn_lastOnly]

variable {r : Release}

/-- A directory that is given several times is none, and the last one alone is another. -/
theorem run_lastOnly_ne_of_repeated_directory (h : Repeated bs .directory)
    (hr : releaseOf (bs.flatMap Block.args) (askedIn bs)
      = .ok { r with directory := directoryOf (settingIn bs .directory) })
    (hr' : releaseOf ((lastOnly bs).flatMap Block.args) (askedIn (lastOnly bs))
      = .ok { r with directory := directoryOf (settingIn (lastOnly bs) .directory) }) :
    run repo ((lastOnly bs).flatMap Block.args) ≠ run repo (bs.flatMap Block.args) := by
  obtain ⟨⟨items, hs⟩, v, -, hs'⟩ := exists_settingIn_of_repeated h
  rw [run_flatMap_of_release hr, run_flatMap_of_release hr', hs, hs']
  intro he
  have hcalls := congrArg Outcome.calls (Except.ok.inj he)
  obtain ⟨c, hc⟩ := List.exists_mem_of_ne_nil _ (calls_linked_ne_nil
    (r := { r with directory := directoryOf (some (.list items)) }))
  have hlist : c.directory = .invalid (.list items) := directory_of_mem_calls hc
  rw [← hcalls] at hc
  have hsingle : c.directory = directoryOf (some (Setting.ofText v)) := directory_of_mem_calls hc
  rw [hsingle, directoryOf_ofText] at hlist
  cases hv : Number.read? v <;> rw [hv] at hlist <;> cases hlist

/-- An address that is given several times is none, which matters where the last one
is an address and there is an entry to link. -/
theorem run_lastOnly_eq_iff_of_release
    (hr : releaseOf (bs.flatMap Block.args) (askedIn bs) = .ok r)
    (hr' : releaseOf ((lastOnly bs).flatMap Block.args) (askedIn (lastOnly bs)) = .ok r) :
    run repo ((lastOnly bs).flatMap Block.args) = run repo (bs.flatMap Block.args)
      ↔ ¬ Repeated bs .address
        ∨ (∃ u, (textsIn bs .address).getLast? = some u ∧ Number.read? u ≠ none)
        ∨ ∀ e ∈ r.collected repo, e.number = none := by
  rw [run_flatMap_of_release hr, run_flatMap_of_release hr']
  by_cases h : Repeated bs .address
  · obtain ⟨⟨items, hs⟩, u, hu, hs'⟩ := exists_settingIn_of_repeated h
    have hnone : addressOf? (settingIn bs .address) = none := by
      rw [hs]
      rfl
    rw [hnone, hs', addressOf?_ofText, hu]
    by_cases hn : Number.read? u = none
    · rw [if_pos hn, Except.ok.injEq, outcome_linked_eq_iff]
      constructor
      · exact fun hall => .inr (.inr hall)
      · rintro (hnot | ⟨v, hv, hread⟩ | hall)
        · exact absurd h hnot
        · obtain rfl := Option.some.inj hv
          exact absurd hn hread
        · exact hall
    · rw [if_neg hn]
      exact ⟨fun _ => .inr (.inl ⟨u, rfl, hn⟩), fun _ => rfl⟩
  · rw [settingIn_lastOnly h]
    exact ⟨fun _ => .inl h, fun _ => rfl⟩

/-! ### The last block of each option -/

/-- **Only the last block of each option counts, as far as no list gets in its way**:
the tag is missing, or the limit is not repeated and refused, or neither limit nor
directory is repeated and a repeated address is not needed. -/
theorem run_lastOnly_eq_iff (repo : Repository) (bs : List Block) :
    (∃ out, run repo (bs.flatMap Block.args) = .ok out)
      ∧ (run repo ((lastOnly bs).flatMap Block.args) = run repo (bs.flatMap Block.args)
        ↔ LacksTag (bs.flatMap Block.args) (askedIn bs)
          ∨ ¬ Repeated bs .limit
            ∧ (RefusesLimit (askedIn bs)
              ∨ ¬ Repeated bs .directory
                ∧ (¬ Repeated bs .address
                  ∨ (∃ u, (textsIn bs .address).getLast? = some u ∧ Number.read? u ≠ none)
                  ∨ ∀ r, releaseOf (bs.flatMap Block.args) (askedIn bs) = .ok r →
                    ∀ e ∈ r.collected repo, e.number = none))) := by
  refine ⟨⟨_, run_flatMap repo bs⟩, ?_⟩
  by_cases ht : LacksTag (bs.flatMap Block.args) (askedIn bs)
  · exact iff_of_true (run_lastOnly_of_lacksTag ht) (.inl ht)
  by_cases hlimit : Repeated bs .limit
  · exact iff_of_false (run_lastOnly_ne_of_repeated_limit ht hlimit)
      fun h => (h.resolve_left ht).1 hlimit
  by_cases hl : RefusesLimit (askedIn bs)
  · exact iff_of_true (run_lastOnly_of_refusesLimit ht hlimit hl) (.inr ⟨hlimit, .inl hl⟩)
  obtain ⟨r, hr, hr'⟩ := exists_releaseOf_lastOnly ht hlimit hl
  by_cases hdir : Repeated bs .directory
  · exact iff_of_false (run_lastOnly_ne_of_repeated_directory hdir hr hr')
      fun h => ((h.resolve_left ht).2.resolve_left hl).1 hdir
  rw [settingIn_lastOnly hdir] at hr'
  rw [run_lastOnly_eq_iff_of_release hr hr']
  simp only [ht, hlimit, hl, hdir, hr, Except.ok.injEq, forall_eq', false_or, not_false_eq_true,
    true_and]

/-- With two limits a run is stopped, and with the last one alone it is not. -/
theorem run_lastOnly_ne_of_two_limits :
    let bs : List Block :=
      [⟨.tag, "v1".toList, false, by decide, fun _ => by decide⟩,
        ⟨.limit, "5".toList, false, by decide, fun _ => by decide⟩,
        ⟨.limit, "6".toList, true, by decide, nofun⟩]
    bs.flatMap Block.args
        = ["--tag".toList, "v1".toList, "--limit".toList, "5".toList, "--limit=6".toList]
      ∧ (lastOnly bs).flatMap Block.args
        = ["--tag".toList, "v1".toList, "--limit=6".toList]
      ∧ ∀ repo : Repository,
        run repo (bs.flatMap Block.args) = .ok
            ⟨1, [], "\x1b[33m-\x1b[39m Reading git history...\n".toList
              ++ "\x1b[31m✖\x1b[39m Failed\n\x1b[91m\nError:\x1b[39m ".toList
              ++ "limit.trim is not a function\n".toList, []⟩
          ∧ (∃ out, run repo ((lastOnly bs).flatMap Block.args) = .ok out ∧ out.exitCode = 0)
          ∧ run repo ((lastOnly bs).flatMap Block.args) ≠ run repo (bs.flatMap Block.args) := by
  intro bs
  have ht : ¬ LacksTag (bs.flatMap Block.args) (askedIn bs) := by
    have htext : tagText? (bs.flatMap Block.args) (askedIn bs) = some "v1".toList :=
      tagText?_flatMap bs
    intro h
    exact absurd (h _ htext) (by decide)
  have hrep : Repeated bs .limit := by
    show 1 < ["5".toList, "6".toList].length
    decide
  have hsix : limitOf (some (.text "6".toList)) = .ok 6 := by
    have hread : Number.read? "6".toList = some 6 := by decide +kernel
    show checkLimit "6".toList (Number.read? "6".toList) = .ok 6
    exact checkLimit_eq_ok_iff.2 ⟨hread, by decide⟩
  have hlimit : settingIn (lastOnly bs) .limit = some (Setting.ofText "6".toList) := rfl
  have htag : (textsIn (lastOnly bs) .tag).getLast? = some "v1".toList := rfl
  have hrel := releaseOf_flatMap htag (by decide) (hlimit ▸ limitOf_ofText_iff.2 hsix)
  refine ⟨by decide, by decide, fun repo => ⟨?_, ⟨_, run_flatMap_of_release hrel repo, ?_⟩,
    run_lastOnly_ne_of_repeated_limit ht hrep⟩⟩
  · have htold : startLine ++ failureLines .limitNotText
        = "\x1b[33m-\x1b[39m Reading git history...\n".toList
          ++ "\x1b[31m✖\x1b[39m Failed\n\x1b[91m\nError:\x1b[39m ".toList
          ++ "limit.trim is not a function\n".toList := by decide +kernel
    rw [← htold]
    exact run_flatMap_of_fault (releaseOf_of_repeated_limit ht hrep) repo
  · exact exitCode_linked_some

end CommandLine

end ReleaseNotes
