/-
ReleaseNotes/Proofs/ReleaseRanges.lean

The ranges of all releases of a repository.

A release begins where the next older one ends, and the oldest one has no lower
end.  So the ranges of the listed tags lie end to end, and a tag that is added in
front of the list gets a range of its own without touching those that are there.

A listing is read back as the names that it was made of, since a name has no blank
margins and no line feed.  From there on only the position of a tag in the list
counts, and a tag has one position because the list has no duplicates.

Main results: a listing of names is read back (`tagNames_trimEnd_intercalate`), the
ranges of listed tags lie end to end and stay as they are (`tiles_rangeOf`), and so
they have neither gaps nor overlaps (`existsUnique_covers`).
-/
import Mathlib.Data.List.Nodup
import Mathlib.Data.Set.Basic
import ReleaseNotes.Proofs.BuildQueries

namespace ReleaseNotes

variable {repo : Repository} {dir : Directory} {tags newer : List Text}
variable {branch branch' : Text} {limit : Rat}

/-! ### Listings of tags -/

/-- A name that a listing can show. -/
structure IsTagName (name : Text) : Prop where
  ne_nil : name ≠ []
  lineFeed_not_mem : '\n' ∉ name
  trim_eq : Text.trim name = name

theorem IsTagName.isSolid {name : Text} (h : IsTagName name) : Text.IsSolid name := by
  refine ⟨h.lineFeed_not_mem, name.getLast h.ne_nil, List.getLast?_eq_some_getLast h.ne_nil, ?_⟩
  apply Text.getLast?_trim name
  rw [h.trim_eq]
  exact List.getLast?_eq_some_getLast h.ne_nil

/-- Names that are listed one on a line are read back. -/
theorem Repository.tagNames_trimEnd_intercalate (hne : tags ≠ []) (h : ∀ t ∈ tags, IsTagName t) :
    tagNames (Text.trimEnd (['\n'].intercalate tags)) = tags := by
  have hsolid : ∀ t ∈ tags, Text.IsSolid t := fun t ht => (h t ht).isSolid
  rw [Text.trimEnd_intercalate hsolid, tagNames, Text.lines_intercalate hne hsolid]
  have hmap : tags.map Text.trim = tags :=
    (List.map_congr_left fun t ht => (h t ht).trim_eq).trans (List.map_id tags)
  rw [hmap, List.filter_eq_self]
  intro t ht
  simpa using (h t ht).ne_nil

/-- A repository that lists exactly `tags`, the newest first, and finds each of them. -/
structure Repository.HasTags (repo : Repository) (dir : Directory) (tags : List Text) : Prop where
  ne_nil : tags ≠ []
  nodup : tags.Nodup
  isTagName : ∀ t ∈ tags, IsTagName t
  listing : repo tagArguments = some (['\n'].intercalate tags)
  hasReference : ∀ t ∈ tags, (repo.hasReference dir ("refs/tags/".toList ++ t)).result = true

/-- The tags of such a repository. -/
theorem Repository.HasTags.result_tags (h : repo.HasTags dir tags) :
    (repo.tags dir).result = tags := by
  obtain ⟨t, ht⟩ := List.exists_mem_of_ne_nil tags h.ne_nil
  -- git can be started there, since a tag is found
  obtain ⟨-, ⟨hstart, -⟩, -⟩ := Repository.hasReference_iff.1 (h.hasReference t ht)
  have hdir : dir.isValid = true := (Bool.and_eq_true_iff.1 hstart).1
  have hcan : (⟨tagArguments, dir⟩ : Call).canStart = true := Bool.and_eq_true_iff.2 ⟨hdir, rfl⟩
  rw [Repository.result_tags ⟨hcan, h.listing⟩, tagNames_trimEnd_intercalate h.ne_nil h.isTagName]

/-! ### The ends of a range -/

namespace CommitRange

/-- The reference that a range ends at. -/
def upper : CommitRange → Text
  | between _ newer => newer
  | capped reference _ => reference
  | branchSince _ branch => branch
  | cappedBranch branch _ => branch

/-- The reference that a range begins after, if it has a lower end. -/
def lower? : CommitRange → Option Text
  | between older _ => some older
  | capped _ _ => none
  | branchSince tag _ => some tag
  | cappedBranch _ _ => none

/-- The ranges of `tags`, the newest first, lie end to end, and the oldest one is as
long as the limit says. -/
structure Tiles (tags : List Text) (limit : Rat) (range : Text → CommitRange) : Prop where
  between : ∀ front {newer older rest}, tags = front ++ newer :: older :: rest →
    range newer = .between older newer
  capped : ∀ front {oldest}, tags = front ++ [oldest] → range oldest = .capped oldest limit
  lower?_eq_upper : ∀ front {newer older rest}, tags = front ++ newer :: older :: rest →
    (range newer).lower? = some (range older).upper
  lower?_ne_upper : ∀ t ∈ tags, (range t).lower? ≠ some (range t).upper

theorem not_mem_front {t : Text} (hnd : (newer ++ tags).Nodup) (ht : t ∈ tags) : t ∉ newer :=
  fun hn => List.disjoint_of_nodup_append hnd hn ht

theorem upper_choose_true (tags : List Text) (tag branch : Text) (limit : Rat) :
    (choose true tags tag branch limit).upper = tag := by
  rcases choose_true tags tag branch limit with ⟨older, h⟩ | h <;> rw [h] <;> rfl

/-- What is listed in front of the tags changes none of their ranges. -/
theorem choose_append {t : Text} (hnd : (newer ++ tags).Nodup) (ht : t ∈ tags) :
    choose true (newer ++ tags) t branch' limit = choose true tags t branch limit := by
  unfold choose
  rw [if_pos rfl, if_pos rfl, previous?_append (not_mem_front hnd ht)]

/-- Ranges that are chosen by the list of tags lie end to end. -/
theorem tiles_of_choose {range : Text → CommitRange} (hnd : tags.Nodup)
    (hne : ∀ t ∈ tags, t ≠ []) (hr : ∀ t ∈ tags, range t = choose true tags t branch limit) :
    Tiles tags limit range := by
  have hupper : ∀ t ∈ tags, (range t).upper = t := by
    intro t ht
    rw [hr t ht, upper_choose_true]
  have hbetween : ∀ front {newer older rest}, tags = front ++ newer :: older :: rest →
      range newer = .between older newer := by
    rintro front newer older rest rfl
    have hold : older ≠ [] := hne older (by simp)
    rw [hr newer (by simp), choose, if_pos rfl,
      previous?_of_adjacent (not_mem_front hnd List.mem_cons_self) hold]
  have hcapped : ∀ front {oldest}, tags = front ++ [oldest] →
      range oldest = .capped oldest limit := by
    rintro front oldest rfl
    rw [hr oldest (by simp), choose, if_pos rfl,
      previous?_append (not_mem_front hnd List.mem_cons_self), previous?_cons_self]
    rfl
  refine ⟨hbetween, hcapped, fun front newer older rest h => ?_, fun t ht => ?_⟩
  · rw [hbetween front h, hupper older (h ▸ by simp)]
    rfl
  · obtain ⟨front, rest, h⟩ := List.append_of_mem ht
    rw [hupper t ht]
    cases rest with
    | nil =>
      rw [hcapped front h]
      exact nofun
    | cons older rest =>
      -- a tag is not listed twice
      have hold : older ≠ t := by
        rintro rfl
        rw [h] at hnd
        exact (List.nodup_cons.1 hnd.of_append_right).1 List.mem_cons_self
      rw [hbetween front h]
      exact fun e => hold (Option.some.inj e)

/-! ### What a tag has -/

variable {α : Type*} {range : Text → CommitRange}

/-- The ranges of the older tags alone. -/
theorem Tiles.tail {t : Text} (h : Tiles (t :: tags) limit range) : Tiles tags limit range where
  between front _ _ _ e := h.between (t :: front) (congrArg (t :: ·) e)
  capped front _ e := h.capped (t :: front) (congrArg (t :: ·) e)
  lower?_eq_upper front _ _ _ e := h.lower?_eq_upper (t :: front) (congrArg (t :: ·) e)
  lower?_ne_upper s hs := h.lower?_ne_upper s (List.mem_cons_of_mem t hs)

theorem Tiles.upper_eq {t : Text} (h : Tiles tags limit range) (ht : t ∈ tags) :
    (range t).upper = t := by
  obtain ⟨front, rest, e⟩ := List.append_of_mem ht
  cases rest with
  | nil =>
    rw [h.capped front e]
    rfl
  | cons older rest =>
    rw [h.between front e]
    rfl

/-- Whether a commit is between the ends of a range, where `has` tells which commits
a reference has. -/
def Covers (has : Text → Set α) (r : CommitRange) (x : α) : Prop :=
  x ∈ has r.upper ∧ ∀ lower, r.lower? = some lower → x ∉ has lower

/-- **No gap and no overlap**: if every tag has what the next older one has, each
commit that some tag has is between the ends of exactly one range. -/
theorem Tiles.existsUnique_covers (h : Tiles tags limit range) {has : Text → Set α}
    (hhas : tags.Pairwise fun newer older => has older ⊆ has newer) {x : α}
    (hx : ∃ t ∈ tags, x ∈ has t) : ∃! t, t ∈ tags ∧ Covers has (range t) x := by
  induction tags with
  | nil =>
    obtain ⟨t, ht, -⟩ := hx
    cases ht
  | cons newest older ih =>
    cases older with
    | nil =>
      have hr : range newest = .capped newest limit := h.capped [] rfl
      obtain ⟨t, ht, hxt⟩ := hx
      obtain rfl := List.mem_singleton.1 ht
      refine ⟨t, ⟨ht, ?_⟩, fun s hs => List.mem_singleton.1 hs.1⟩
      rw [hr]
      exact ⟨hxt, nofun⟩
    | cons next rest =>
      have hr : range newest = .between next newest := h.between [] rfl
      by_cases hn : x ∈ has next
      · -- the newest range begins after what the next tag has
        obtain ⟨t, ⟨ht, hc⟩, hu⟩ := ih h.tail hhas.tail ⟨next, List.mem_cons_self, hn⟩
        refine ⟨t, ⟨List.mem_cons_of_mem newest ht, hc⟩, ?_⟩
        rintro s ⟨hs, hcs⟩
        rcases List.mem_cons.1 hs with rfl | hs
        · rw [hr] at hcs
          exact absurd hn (hcs.2 next rfl)
        · exact hu s ⟨hs, hcs⟩
      · -- no older tag has what the next one has not
        have hold : ∀ t ∈ next :: rest, x ∉ has t := by
          intro t ht hxt
          rcases List.mem_cons.1 ht with rfl | ht
          · exact hn hxt
          · exact hn (List.rel_of_pairwise_cons hhas.tail ht hxt)
        have hnew : ∀ t ∈ newest :: next :: rest, x ∈ has t → t = newest := by
          intro t ht hxt
          rcases List.mem_cons.1 ht with rfl | ht
          · rfl
          · exact absurd hxt (hold t ht)
        obtain ⟨t, ht, hxt⟩ := hx
        obtain rfl := hnew t ht hxt
        refine ⟨t, ⟨ht, ?_⟩, ?_⟩
        · rw [hr]
          refine ⟨hxt, fun lower hl => ?_⟩
          obtain rfl := Option.some.inj hl
          exact hn
        · rintro s ⟨hs, hcs⟩
          apply hnew s hs
          rw [← h.upper_eq hs]
          exact hcs.1

end CommitRange

/-! ### The releases of a repository -/

/-- The range of the release of a tag. -/
def rangeOf (repo : Repository) (dir : Directory) (branch : Text) (limit : Rat) (tag : Text) :
    CommitRange :=
  (Release.range repo { tag := tag, branch := branch, limit := limit, directory := dir }).result

theorem rangeOf_eq_choose (h : repo.HasTags dir tags) {t : Text} (ht : t ∈ tags) :
    rangeOf repo dir branch limit t = CommitRange.choose true tags t branch limit := by
  have hprobe := Repository.hasReference_iff.1 (h.hasReference t ht)
  rw [rangeOf, Release.range_of_shows hprobe, h.result_tags]

/-- **The ranges of the listed tags lie end to end**, each between its tag and the
next older one and the oldest as long as the limit says, and a repository with more
tags in front of these has the same ranges for them. -/
theorem tiles_rangeOf (h : repo.HasTags dir tags) (branch : Text) (limit : Rat) :
    CommitRange.Tiles tags limit (rangeOf repo dir branch limit)
      ∧ ∀ newer repo' dir' branch', Repository.HasTags repo' dir' (newer ++ tags) →
        ∀ t ∈ tags, rangeOf repo' dir' branch' limit t = rangeOf repo dir branch limit t := by
  constructor
  · exact CommitRange.tiles_of_choose h.nodup (fun t ht => (h.isTagName t ht).ne_nil)
      fun t ht => rangeOf_eq_choose h ht
  · intro newer repo' dir' branch' h' t ht
    rw [rangeOf_eq_choose h ht, rangeOf_eq_choose h' (List.mem_append_right newer ht)]
    exact CommitRange.choose_append h'.nodup ht

/-- A tag with a carriage return in its name, and a newer release. -/
theorem tiles_rangeOf_of_three :
    let listed : List Text → Repository := fun tags arguments =>
      if arguments = Repository.tagArguments then some (['\n'].intercalate tags)
      else some "0a1b2c".toList
    let tags : List Text := ["v1".toList, "v\r0".toList]
    let newest : List Text := ["v1\u20282".toList]
    (listed tags).HasTags .current tags
      ∧ (listed (newest ++ tags)).HasTags (.path "..".toList) (newest ++ tags)
      ∧ rangeOf (listed tags) .current "main".toList 50 "v1".toList
        = .between "v\r0".toList "v1".toList
      ∧ rangeOf (listed (newest ++ tags)) (.path "..".toList) "dev".toList 50 "v1".toList
        = .between "v\r0".toList "v1".toList := by
  intro listed tags newest
  have hname : ∀ t ∈ newest ++ tags, IsTagName t := by
    intro t ht
    simp only [newest, tags, List.cons_append, List.nil_append, List.mem_cons, List.not_mem_nil,
      or_false] at ht
    rcases ht with rfl | rfl | rfl <;> constructor <;> decide
  have hold : (listed tags).HasTags .current tags := by
    refine ⟨by decide, by decide, fun t ht => ?_, rfl, by decide⟩
    exact hname t (List.mem_append_right newest ht)
  have hnew : (listed (newest ++ tags)).HasTags (.path "..".toList) (newest ++ tags) :=
    ⟨by decide, by decide, hname, rfl, by decide⟩
  obtain ⟨htiles, hstay⟩ := tiles_rangeOf hold "main".toList 50
  have hv1 := htiles.between [] rfl
  refine ⟨hold, hnew, hv1, ?_⟩
  exact (hstay newest _ _ "dev".toList hnew _ List.mem_cons_self).trans hv1

end ReleaseNotes
