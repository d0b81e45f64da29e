/-
ReleaseNotes/CommitRange.lean

Which commits belong to a release.

A release that is tagged begins at the tag listed right after its own, which is
the next older one; the oldest tag, and a tag that the list does not hold, has
no lower end, and so many commits are taken as the limit says.  A release whose
tag is still missing is what a branch has since the newest tag, or the last
commits of the branch when there is no tag at all.

Main facts: of two tags listed one after the other the newer release begins at
the older tag (`previous?_of_adjacent`), whatever is listed in front of them
(`previous?_append`), and the range of a tag ends at the tag (`choose_true`).
-/
import ReleaseNotes.Commit
import ReleaseNotes.Number.Decimal

namespace ReleaseNotes

/-- The commits of a release. -/
inductive CommitRange
  /-- What the tag `newer` has and the tag `older` has not. -/
  | between (older newer : Text)
  /-- The last commits up to a reference. -/
  | capped (reference : Text) (limit : Rat)
  /-- What a branch has and a tag has not. -/
  | branchSince (tag branch : Text)
  /-- The last commits of a branch. -/
  | cappedBranch (branch : Text) (limit : Rat)
deriving DecidableEq, Repr

namespace CommitRange

/-! ### What a range says -/

/-- What `older` lacks of `newer`, as git writes it. -/
def span (older newer : Text) : Text :=
  older ++ "..".toList ++ newer

/-- The revision that git is asked for. -/
def revision : CommitRange → Text
  | between older newer => span older newer
  | capped reference _ => reference
  | branchSince tag branch => span tag branch
  | cappedBranch branch _ => branch

/-- The most commits that are taken, if that is limited. -/
def limit? : CommitRange → Option Rat
  | between _ _ => none
  | capped _ limit => some limit
  | branchSince _ _ => none
  | cappedBranch _ limit => some limit

/-- A range in words. -/
def describe (r : CommitRange) : Text :=
  match r.limit? with
  | some n => "last ".toList ++ Number.render n ++ " commits of ".toList ++ r.revision
  | none => r.revision

/-- The arguments of git that list the commits of a range. -/
def logArguments (r : CommitRange) : List Text :=
  let count :=
    match r.limit? with
    | some n => ["-n".toList, Number.render n]
    | none => []
  "log".toList :: r.revision :: count ++ [Commit.logFormat]

/-! ### The range of a release -/

/-- The tag listed right after `tag`, if it has a name. -/
def previous? (tags : List Text) (tag : Text) : Option Text :=
  Text.present? ((tags.dropWhile (· != tag)).drop 1).head?

/-- The range of a release. `tags` lists the newest tag first, and `tagged`
says whether the release's own tag is in the repository. -/
def choose (tagged : Bool) (tags : List Text) (tag branch : Text) (limit : Rat) : CommitRange :=
  if tagged then
    match previous? tags tag with
    | some older => between older tag
    | none => capped tag limit
  else
    match Text.present? tags.head? with
    | some newest => branchSince newest branch
    | none => cappedBranch branch limit

/-- With its tag in the repository, the range of a release ends at the tag. -/
theorem choose_true (tags : List Text) (tag branch : Text) (limit : Rat) :
    (∃ older, choose true tags tag branch limit = between older tag)
      ∨ choose true tags tag branch limit = capped tag limit := by
  unfold choose
  rw [if_pos rfl]
  cases previous? tags tag with
  | some older => exact .inl ⟨older, rfl⟩
  | none => exact .inr rfl

/-- Tags that are listed in front of a tag have no say in what it begins at. -/
theorem previous?_append {front : List Text} {tag : Text} (h : tag ∉ front) (tags : List Text) :
    previous? (front ++ tags) tag = previous? tags tag := by
  have hd : (front ++ tags).dropWhile (· != tag) = tags.dropWhile (· != tag) := by
    apply List.dropWhile_append_of_pos
    intro t ht
    have : t ≠ tag := fun e => h (e ▸ ht)
    simpa using this
  rw [previous?, previous?, hd]

theorem previous?_cons_self (tag : Text) (older : List Text) :
    previous? (tag :: older) tag = Text.present? older.head? := by
  have hd : (tag :: older).dropWhile (· != tag) = tag :: older := by simp
  rw [previous?, hd]
  rfl

/-- Of two tags listed one after the other, the newer release begins at the
older tag. -/
theorem previous?_of_adjacent {tags rest : List Text} {tag older : Text} (h : tag ∉ tags)
    (ho : older ≠ []) : previous? (tags ++ tag :: older :: rest) tag = some older := by
  obtain ⟨c, s, rfl⟩ := List.exists_cons_of_ne_nil ho
  rw [previous?_append h, previous?_cons_self]
  rfl

end CommitRange

end ReleaseNotes
