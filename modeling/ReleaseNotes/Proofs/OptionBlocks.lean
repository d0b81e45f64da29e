/-
ReleaseNotes/Proofs/OptionBlocks.lean

Command lines that are made of options with their values.

A block is one option with a text as its value.  The text is the next argument,
which then does not begin with a dash, or it stands behind a sign in the same
argument.  The two scans of a command line, for occurrences of options and for
typed values, both take a list of blocks one block at a time, so they find the
same texts.  An option in one block has the value of its text, and one in several
blocks the list of their values, while the last text is the typed one.  Where no
option is repeated, it does not matter how a block is spelled or where it stands.

Main results: both scans of a list of blocks (`occurrences_args`,
`lastTyped?_flatMap`), what such a command line asks for (`read_flatMap`), and the
run that it leads to (`run_args`).
-/
import ReleaseNotes.CommandLine.Run
import ReleaseNotes.Proofs.AskedRelease
import ReleaseNotes.Proofs.NamedOptions
import ReleaseNotes.Proofs.ReportedLines

namespace ReleaseNotes

namespace CommandLine

/-! ### Blocks -/

/-- An option with its value, in one argument or in two. -/
structure Block where
  option : ValueOption
  value : Text
  /-- Whether the value stands behind a sign. -/
  inline : Bool
  value_ne_nil : value ≠ []
  not_isDashed : inline = false → isDashed value = false

namespace Block

/-- The arguments of a block. -/
def args (b : Block) : List Text :=
  if b.inline then [flag b.option.typedName ++ '=' :: b.value]
  else [flag b.option.typedName, b.value]

/-- What occurs on the command line. -/
def occurrence (b : Block) : Occurrence :=
  ⟨b.option.typedName, .value b.value⟩

/-- An option with its value, however they are spelled. -/
def setting (b : Block) : ValueOption × Text :=
  (b.option, b.value)

theorem args_inline {b : Block} (h : b.inline = true) :
    b.args = [flag b.option.typedName ++ '=' :: b.value] := by
  rw [args, if_pos h]

theorem args_apart {b : Block} (h : b.inline = false) :
    b.args = [flag b.option.typedName, b.value] := by
  rw [args, if_neg (by simp [h])]

end Block

/-- The text that a list of blocks gives to an option. -/
def textIn (bs : List Block) (o : ValueOption) : Option Text :=
  (bs.find? (·.option = o)).map (·.value)

variable {bs bs' : List Block} {b : Block} {o : ValueOption} {rest : List Text} {v : Text}

theorem textIn_cons (b : Block) (bs : List Block) (o : ValueOption) :
    textIn (b :: bs) o = if b.option = o then some b.value else textIn bs o := by
  by_cases h : b.option = o <;> simp [textIn, h]

theorem textIn_eq_none (h : ∀ b ∈ bs, b.option ≠ o) : textIn bs o = none := by
  rw [textIn, Option.map_eq_none_iff, List.find?_eq_none]
  intro b hb
  simpa using h b hb

/-- No further block is one of the first block's option. -/
theorem option_ne_of_nodup (hn : ((b :: bs).map (·.option)).Nodup) (h : b.option = o) :
    ∀ b' ∈ bs, b'.option ≠ o := by
  intro b' hb' he
  exact (List.nodup_cons.1 hn).1 (List.mem_map.2 ⟨b', hb', he.trans h.symm⟩)

theorem textIn_eq_some_iff (hn : (bs.map (·.option)).Nodup) :
    textIn bs o = some v ↔ (o, v) ∈ bs.map Block.setting := by
  induction bs with
  | nil => simp [textIn]
  | cons b bs ih =>
    have hrest := ih (List.nodup_cons.1 hn).2
    rw [textIn_cons, List.map_cons, List.mem_cons, ← hrest]
    by_cases h : b.option = o
    · rw [textIn_eq_none (option_ne_of_nodup hn h)]
      simp [h, Block.setting, eq_comm]
    · simp [h, Block.setting, Ne.symm h]

theorem nodup_of_perm (hn : (bs.map (·.option)).Nodup)
    (h : (bs'.map Block.setting).Perm (bs.map Block.setting)) : (bs'.map (·.option)).Nodup := by
  have hp := (h.map Prod.fst).nodup_iff
  simp only [List.map_map] at hp
  exact hp.2 hn

/-- The order of the blocks does not matter, nor does their spelling. -/
theorem textIn_of_perm (hn : (bs.map (·.option)).Nodup)
    (h : (bs'.map Block.setting).Perm (bs.map Block.setting)) : textIn bs' = textIn bs := by
  have hn' := nodup_of_perm hn h
  funext o
  refine Option.ext fun v => ?_
  rw [textIn_eq_some_iff hn', textIn_eq_some_iff hn, h.mem_iff]

/-- The texts that a list of blocks gives to an option, in their order. -/
def textsIn (bs : List Block) (o : ValueOption) : List Text :=
  (bs.filter (·.option = o)).map (·.value)

theorem textsIn_cons (b : Block) (bs : List Block) (o : ValueOption) :
    textsIn (b :: bs) o = if b.option = o then b.value :: textsIn bs o else textsIn bs o := by
  by_cases h : b.option = o <;> simp [textsIn, h]

/-- Where no option is repeated, it has its text once or never. -/
theorem textsIn_of_nodup (hn : (bs.map (·.option)).Nodup) (o : ValueOption) :
    textsIn bs o = (textIn bs o).toList := by
  induction bs with
  | nil => rfl
  | cons b bs ih =>
    have hrest := ih (List.nodup_cons.1 hn).2
    rw [textsIn_cons, textIn_cons, hrest]
    by_cases h : b.option = o
    · rw [if_pos h, if_pos h, textIn_eq_none (option_ne_of_nodup hn h)]
      rfl
    · rw [if_neg h, if_neg h]

/-! ### The two scans -/

/-- A block is one occurrence, in front of those in the rest. -/
theorem occurrencesFrom_append (b : Block) (rest : List Text) :
    occurrencesFrom false (b.args ++ rest) = b.occurrence :: occurrencesFrom false rest := by
  have hl := isLongName_typedName b.option
  cases hi : b.inline with
  | true =>
    rw [Block.args_inline hi, List.singleton_append, occurrencesFrom_inline hl b.value_ne_nil]
    rfl
  | false =>
    rw [Block.args_apart hi, List.cons_append, List.singleton_append,
      occurrencesFrom_flag hl (b.not_isDashed hi)]
    rfl

theorem occurrences_args (bs : List Block) :
    occurrences (bs.flatMap Block.args) = bs.map Block.occurrence := by
  induction bs with
  | nil => rfl
  | cons b bs ih =>
    rw [List.flatMap_cons, occurrences, occurrencesFrom_append]
    exact congrArg (b.occurrence :: ·) ih

/-- A block has a typed value for its own option only. -/
theorem lastTyped?_append (b : Block) (rest : List Text) (o : ValueOption) :
    lastTyped? o.typedName (b.args ++ rest)
      = (lastTyped? o.typedName rest).or (if b.option = o then some b.value else none) := by
  have hl := isLongName_typedName b.option
  have ho := isLongName_typedName o
  have hn : b.option.typedName = o.typedName ↔ b.option = o := ⟨eq_of_typedName, congrArg _⟩
  cases hi : b.inline with
  | true =>
    rw [Block.args_inline hi, List.singleton_append,
      lastTyped?_cons (hl.flag_append_ne_separator _), typedAt?_inline hl ho]
    simp only [hn]
  | false =>
    -- the value is an argument of its own, but neither an option nor the separator
    have hd := b.not_isDashed hi
    have hf : flag b.option.typedName ≠ separator := by
      simpa using hl.flag_append_ne_separator []
    have hv : b.value ≠ separator := by
      intro h
      rw [h] at hd
      cases hd
    rw [Block.args_apart hi, List.cons_append, List.singleton_append, lastTyped?_cons hf,
      lastTyped?_cons hv, typedAt?_of_not_isDashed hd, Option.or_none, List.head?_cons,
      typedAt?_flag hl]
    simp [hn, hd, Option.filter_some]

/-- The text of the last block of an option is the one that is typed for it. -/
theorem lastTyped?_flatMap (bs : List Block) (o : ValueOption) :
    lastTyped? o.typedName (bs.flatMap Block.args) = (textsIn bs o).getLast? := by
  induction bs with
  | nil => rfl
  | cons b bs ih =>
    rw [List.flatMap_cons, lastTyped?_append, ih, textsIn_cons]
    by_cases h : b.option = o
    · rw [if_pos h, if_pos h, List.getLast?_cons, Option.or_some]
    · rw [if_neg h, if_neg h, Option.or_none]

theorem lastTyped?_args (hn : (bs.map (·.option)).Nodup) (o : ValueOption) :
    lastTyped? o.typedName (bs.flatMap Block.args) = textIn bs o := by
  rw [lastTyped?_flatMap, textsIn_of_nodup hn]
  cases textIn bs o <;> rfl

/-! ### The values that are found -/

theorem onlyOptions_args (bs : List Block) : OnlyOptions (bs.map Block.occurrence) := by
  intro oc h
  obtain ⟨b, -, rfl⟩ := List.mem_map.1 h
  exact ⟨b.option, rfl⟩

/-- An option occurs as often as it has a text. -/
theorem filter_occurrence (bs : List Block) (o : ValueOption) :
    (bs.map Block.occurrence).filter (·.name = o.typedName)
      = (textsIn bs o).map fun v => ⟨o.typedName, .value v⟩ := by
  induction bs with
  | nil => rfl
  | cons b bs ih =>
    have hname : b.occurrence.name = o.typedName ↔ b.option = o :=
      ⟨eq_of_typedName, congrArg ValueOption.typedName⟩
    rw [List.map_cons, textsIn_cons]
    by_cases h : b.option = o
    · rw [List.filter_cons_of_pos (by simpa using hname.2 h), ih, if_pos h, List.map_cons]
      subst h
      rfl
    · rw [List.filter_cons_of_neg (by simpa using mt hname.1 h), ih, if_neg h]

/-- The value of an option that is given these texts. -/
def settingOf : List Text → Option Setting
  | [] => none
  | [v] => some (Setting.ofText v)
  | vs => some (.list (vs.map Setting.ofText))

theorem settingOf_eq_gathered (vs : List Text) :
    settingOf vs = gathered (vs.map Setting.ofText) := by
  match vs with
  | [] => rfl
  | [_] => rfl
  | _ :: _ :: _ => rfl

/-- An option in one block has the value of its text, and one in several blocks has
the list of their values. -/
theorem storedAt_occurrences (bs : List Block) (o : ValueOption) :
    storedAt (bs.map Block.occurrence) o.typedName = settingOf (textsIn bs o) := by
  have hg : ∀ oc ∈ bs.map Block.occurrence, oc.name = o.typedName → oc.given ≠ .negated := by
    intro oc h _
    obtain ⟨b, -, rfl⟩ := List.mem_map.1 h
    exact nofun
  rw [storedAt_eq_gathered (operation?_typedName o) hg, valuesFor, filter_occurrence,
    List.map_map, settingOf_eq_gathered]
  refine congrArg gathered (List.map_congr_left fun v _ => ?_)
  show Given.setting (isSwitch o.typedName) (.value v) = Setting.ofText v
  rw [isSwitch_typedName]
  rfl

/-! ### What is asked for -/

/-- The value that a list of blocks gives to an option. -/
def valueIn (bs : List Block) (o : ValueOption) : Option Setting :=
  ((textIn bs o).map Setting.ofText).or (o.default?.map .text)

/-- The values that a list of blocks gives to the options. -/
def optionsIn (bs : List Block) : Options :=
  ⟨valueIn bs .tag, valueIn bs .branch, valueIn bs .limit, valueIn bs .address,
    valueIn bs .directory⟩

/-- The value that a list of blocks gives to an option, which may be repeated. -/
def settingIn (bs : List Block) (o : ValueOption) : Option Setting :=
  (settingOf (textsIn bs o)).or (o.default?.map .text)

/-- The values that a list of blocks gives to the options, which may be repeated. -/
def askedIn (bs : List Block) : Options :=
  ⟨settingIn bs .tag, settingIn bs .branch, settingIn bs .limit, settingIn bs .address,
    settingIn bs .directory⟩

theorem settingIn_of_nodup (hn : (bs.map (·.option)).Nodup) (o : ValueOption) :
    settingIn bs o = valueIn bs o := by
  rw [settingIn, valueIn, textsIn_of_nodup hn]
  cases textIn bs o <;> rfl

theorem askedIn_of_nodup (hn : (bs.map (·.option)).Nodup) : askedIn bs = optionsIn bs := by
  simp only [askedIn, optionsIn, settingIn_of_nodup hn]

theorem isFlag_of_settingOf {vs : List Text} {s : Setting} (h : settingOf vs = some s) :
    s.isFlag = false := by
  match vs with
  | [] => cases h
  | [v] =>
    obtain rfl := Option.some.inj h
    exact Setting.isFlag_ofText v
  | v :: v' :: vs =>
    obtain rfl := Option.some.inj h
    rfl

theorem refusesPlain_args (bs : List Block) :
    refusesPlain false (bs.map Block.occurrence) = false := by
  induction bs with
  | nil => rfl
  | cons b bs ih =>
    have hadds : b.occurrence.addsPlain = false := by
      simp only [Occurrence.addsPlain, Block.occurrence, isSwitch_typedName, Bool.false_and]
    have hne : b.occurrence.name ≠ plainName := by
      show b.option.typedName ≠ plainName
      cases b.option <;> decide
    rw [List.map_cons, refusesPlain, hadds, if_neg Bool.false_ne_true, if_neg hne]
    exact ih

theorem undotted_args (bs : List Block) : Undotted (bs.flatMap Block.args) :=
  undotted_of_onlyOptions (occurrences_args bs ▸ onlyOptions_args bs)

/-- A list of blocks asks for a changelog with the values in them. -/
theorem read_flatMap (bs : List Block) :
    read (bs.flatMap Block.args) = .ok (.compose (askedIn bs)) := by
  have hoc := occurrences_args bs
  have hs : ∀ o : ValueOption,
      storedAt (occurrences (bs.flatMap Block.args)) o.typedName = settingOf (textsIn bs o) := by
    intro o
    rw [hoc, storedAt_occurrences]
  obtain ⟨o, hr, hv⟩ := exists_read (hoc ▸ onlyOptions_args bs) (hoc ▸ refusesPlain_args bs) (by
    intro v s h
    rw [hs] at h
    exact isFlag_of_settingOf h)
  have ho : o = askedIn bs := by
    cases o
    simp only [askedIn, Options.mk.injEq, settingIn, ← hs]
    exact ⟨hv .tag, hv .branch, hv .limit, hv .address, hv .directory⟩
  rw [hr, ho]

/-- The values in a list of blocks are words or lists of words. -/
theorem areWords_askedIn (bs : List Block) : (askedIn bs).AreWords :=
  areWords_of_read (undotted_args bs) (read_flatMap bs)

theorem read_args (hn : (bs.map (·.option)).Nodup) :
    read (bs.flatMap Block.args) = .ok (.compose (optionsIn bs)) := by
  rw [read_flatMap, askedIn_of_nodup hn]

/-! ### Runs -/

/-- The release that a list of blocks asks for, with a tag and a limit. -/
def releaseIn (bs : List Block) (tag : Text) (limit : Rat) : Release where
  tag := tag
  branch := (textIn bs .branch).getD defaultBranch
  limit := limit
  directory := directoryOf ((textIn bs .directory).map .text)

/-- Where the links lead that a list of blocks asks for. -/
def addressIn (bs : List Block) : Text :=
  (textIn bs .address).getD Markdown.defaultAddress

variable {t : Text} {n : Rat}

theorem limitOf_valueIn (h : limitOf ((textIn bs .limit).map .text) = .ok n) :
    limitOf (valueIn bs .limit) = .ok n := by
  unfold valueIn
  cases hl : textIn bs .limit with
  | none =>
    rw [hl] at h
    exact h
  | some l =>
    rw [hl] at h
    exact limitOf_ofText_iff.2 h

theorem directoryOf_valueIn (h : ∀ p ∈ textIn bs .directory, Number.read? p = none) :
    directoryOf (valueIn bs .directory) = directoryOf ((textIn bs .directory).map .text) := by
  unfold valueIn
  cases hd : textIn bs .directory with
  | none => rfl
  | some p =>
    have : Setting.ofText p = .text p := Setting.ofText_eq_text_iff.2 ⟨h p hd, rfl⟩
    rw [Option.map_some, Option.map_some, this]
    rfl

theorem addressOf?_valueIn (h : ∀ u ∈ textIn bs .address, Number.read? u = none) :
    addressOf? (valueIn bs .address) = some (addressIn bs) := by
  unfold valueIn addressIn
  cases ha : textIn bs .address with
  | none => rfl
  | some u =>
    have : Setting.ofText u = .text u := Setting.ofText_eq_text_iff.2 ⟨h u ha, rfl⟩
    rw [Option.map_some, this]
    rfl

/-- The tag that is meant is the last one. -/
theorem tagText?_flatMap (bs : List Block) :
    tagText? (bs.flatMap Block.args) (askedIn bs) = (textsIn bs .tag).getLast? := by
  have htag : lastTyped? ValueOption.tag.name (bs.flatMap Block.args)
      = (textsIn bs .tag).getLast? := lastTyped?_flatMap bs .tag
  rw [tagText?, htag]
  cases e : (textsIn bs .tag).getLast? with
  | some t => rfl
  | none =>
    have ht : (askedIn bs).tag = none := by
      show settingIn bs .tag = none
      rw [settingIn, List.getLast?_eq_none_iff.1 e]
      rfl
    rw [ht]
    rfl

/-- The branch that is meant is the last one. -/
theorem branchText_flatMap (bs : List Block) :
    branchText (bs.flatMap Block.args) (askedIn bs)
      = (textsIn bs .branch).getLast?.getD defaultBranch := by
  have hbranch : lastTyped? ValueOption.branch.name (bs.flatMap Block.args)
      = (textsIn bs .branch).getLast? := lastTyped?_flatMap bs .branch
  rw [branchText, hbranch]
  cases e : (textsIn bs .branch).getLast? with
  | some b => rfl
  | none =>
    have hb : (askedIn bs).branch = some (.text defaultBranch) := by
      show settingIn bs .branch = some (.text defaultBranch)
      rw [settingIn, List.getLast?_eq_none_iff.1 e]
      rfl
    rw [hb]
    simp [Setting.toText, Except.toOption]

/-- A list of blocks with a tag and a limit asks for a release. -/
theorem releaseOf_flatMap (ht : (textsIn bs .tag).getLast? = some t) (hb : Text.trim t ≠ [])
    (hl : limitOf (settingIn bs .limit) = .ok n) :
    releaseOf (bs.flatMap Block.args) (askedIn bs)
      = .ok ⟨Text.trim t, (textsIn bs .branch).getLast?.getD defaultBranch, n,
          directoryOf (settingIn bs .directory)⟩ := by
  have hlimit : limitOf (askedIn bs).limit = .ok n := hl
  rw [releaseOf_eq (areWords_askedIn bs), tagText?_flatMap, ht, Option.getD_some,
    checkTag_of_trim_ne_nil hb, hlimit, branchText_flatMap]
  rfl

theorem run_flatMap (repo : Repository) (bs : List Block) : run repo (bs.flatMap Block.args)
    = .ok (outcome (compose repo (bs.flatMap Block.args) (askedIn bs))) :=
  run_of_read (read_flatMap bs) repo

/-- A list of blocks that asks for a release is a run for it. -/
theorem run_flatMap_of_release {r : Release}
    (h : releaseOf (bs.flatMap Block.args) (askedIn bs) = .ok r) (repo : Repository) :
    run repo (bs.flatMap Block.args)
      = .ok (outcome (linked repo r (addressOf? (settingIn bs .address)))) := by
  have hcompose : compose repo (bs.flatMap Block.args) (askedIn bs)
      = linked repo r (addressOf? (settingIn bs .address)) := by
    simp only [compose, h]
    rfl
  rw [run_flatMap, hcompose]

theorem releaseOf_args (hn : (bs.map (·.option)).Nodup) (ht : textIn bs .tag = some t)
    (hb : Text.trim t ≠ []) (hl : limitOf ((textIn bs .limit).map .text) = .ok n)
    (hd : ∀ p ∈ textIn bs .directory, Number.read? p = none) :
    releaseOf (bs.flatMap Block.args) (optionsIn bs) = .ok (releaseIn bs (Text.trim t) n) := by
  have htag : (textsIn bs .tag).getLast? = some t := by
    rw [textsIn_of_nodup hn, ht]
    rfl
  have hlimit : limitOf (settingIn bs .limit) = .ok n := by
    rw [settingIn_of_nodup hn]
    exact limitOf_valueIn hl
  have hbranch : (textsIn bs .branch).getLast? = textIn bs .branch := by
    rw [textsIn_of_nodup hn]
    cases textIn bs .branch <;> rfl
  rw [← askedIn_of_nodup hn, releaseOf_flatMap htag hb hlimit, settingIn_of_nodup hn,
    directoryOf_valueIn hd, hbranch]
  rfl

end CommandLine

end ReleaseNotes
