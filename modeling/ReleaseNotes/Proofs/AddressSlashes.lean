/-
ReleaseNotes/Proofs/AddressSlashes.lean

Slashes at the end of the address that links lead to.

An address is its base with slashes behind it, and the base ends at the last character
that is no slash:

    s ++ c :: replicate k '/'   has the base   s ++ [c]    for c ≠ '/'.

So a slash is kept if anything but a slash follows it, and be it a line end, and an address of
slashes only has an empty base.  Links are written with the base, and nothing else in a section
depends on the address.

Main results: an address has one base, which is the one that links are written with
(`isBase_iff`), and no section shows the slashes at the end of an address
(`releaseSection_of_slashes`).
-/
import ReleaseNotes.Proofs.SectionLines

namespace ReleaseNotes

namespace Markdown

variable {address b l : Text} {entries : List Entry} {number : Option Text}

/-! ### The base of an address -/

/-- `IsBase address b`: the text `b` is `address` without the slashes at its end. -/
inductive IsBase : Text → Text → Prop
  | slashes (k : Nat) : IsBase (List.replicate k '/') []
  | upTo (s : Text) {c : Char} (k : Nat) : c ≠ '/' →
    IsBase (s ++ c :: List.replicate k '/') (s ++ [c])

theorem base_append_replicate (address : Text) (k : Nat) :
    base (address ++ List.replicate k '/') = base address := by
  induction k with
  | zero => rw [List.replicate_zero, List.append_nil]
  | succ k ih => rw [List.replicate_succ', ← List.append_assoc, base_append_slash, ih]

/-- Of an address that ends in no slash nothing is lost. -/
theorem base_concat {c : Char} (hc : c ≠ '/') (s : Text) : base (s ++ [c]) = s ++ [c] := by
  simp [base, hc]

theorem isBase_base (address : Text) : IsBase address (base address) := by
  obtain ⟨k, hk⟩ := exists_base_append address
  have hlast := getLast?_base address
  generalize base address = b at hk hlast
  rw [hk]
  rcases List.eq_nil_or_concat b with rfl | ⟨s, c, rfl⟩
  · exact .slashes k
  · -- the base ends in `c`, which is no slash because the base ends in none
    rw [List.concat_eq_append] at hlast ⊢
    have hc : c ≠ '/' := by
      rintro rfl
      exact hlast List.getLast?_concat
    rw [List.append_assoc]
    exact .upTo s k hc

/-- **An address has one base**, and it is the one that links are written with. -/
theorem isBase_iff : IsBase address b ↔ b = base address := by
  constructor
  · intro h
    cases h with
    | slashes k => exact (base_append_replicate [] k).symm
    | @upTo s c k hc =>
      have hcut : s ++ c :: List.replicate k '/' = s ++ [c] ++ List.replicate k '/' := by
        rw [List.append_assoc]
        rfl
      rw [hcut, base_append_replicate, base_concat hc]
  · rintro rfl
    exact isBase_base address

/-! ### Links -/

/-- What an entry shows between its parentheses, if `b` is the base of the address: with a
number a link to the pull request of that number, and nothing without one. -/
inductive LinksFrom (b : Text) : Option Text → Text → Prop
  | none : LinksFrom b none []
  | empty : LinksFrom b (some []) []
  | some {n : Text} : n ≠ [] → LinksFrom b (some n)
      ("[#".toList ++ n ++ "](".toList ++ b ++ "/pull/".toList ++ n ++ ")".toList)

theorem linksFrom_link (address : Text) (number : Option Text) :
    LinksFrom (base address) number (link address number) := by
  cases number with
  | none => exact .none
  | some n =>
    by_cases hn : n = []
    · subst hn
      exact .empty
    · rw [link_of_ne_nil hn]
      exact .some hn

/-- A section depends on the base of its address only. -/
theorem releaseSection_of_base {address' : Text} (h : base address = base address') (tag : Text)
    (entries : List Entry) :
    releaseSection address tag entries = releaseSection address' tag entries := by
  refine releaseSection_congr (fun e _ => ?_) tag
  rw [link, link, h]

/-! ### Sections -/

/-- **Slashes at the end of an address never show**: further ones change no section, and every
link is written with the one base that the address has, which does not end in a slash. -/
theorem releaseSection_of_slashes (address tag : Text) (entries : List Entry) :
    (∀ k, releaseSection (address ++ List.replicate k '/') tag entries
        = releaseSection address tag entries)
      ∧ ∃ b, (∀ b', IsBase address b' ↔ b' = b) ∧ b.getLast? ≠ some '/'
        ∧ ∃ lines, releaseSection address tag entries
            = ['\n'].intercalate (("## ".toList ++ tag) :: lines)
          ∧ (entries = [] → lines = ["*(No commits found in range)*".toList])
          ∧ (entries ≠ [] → List.Forall₂ (fun e line => ∃ l, LinksFrom b e.number l ∧ line
              = "- ".toList ++ e.title ++ " by ".toList ++ e.author ++ " (".toList ++ l
                ++ ")".toList) entries lines) := by
  refine ⟨fun k => releaseSection_of_base (base_append_replicate address k) tag entries,
    base address, fun _ => isBase_iff, getLast?_base address, items address entries, rfl,
    fun hnil => ?_, fun hne => ?_⟩
  · exact if_pos hnil
  · rw [items, if_neg hne, List.forall₂_map_right_iff, List.forall₂_same]
    exact fun e _ => ⟨_, linksFrom_link address e.number, item_of_link rfl⟩

end Markdown

end ReleaseNotes
