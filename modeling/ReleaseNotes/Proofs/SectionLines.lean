/-
ReleaseNotes/Proofs/SectionLines.lean

The lines of the section of a release.

A section is put together from lines with a line feed between them, so it is cut into
the same lines again if there is no line feed in any of them.  The tag and the address
are given; title, author and number come from the log, which can hold anything.  But each
entry is read from one line of the log, and nothing that is done to this line brings a
line feed in: parts of it are taken and characters are removed, and what a capital adds
is not blank.

Main results: an entry is fit for a line (`isPlain_of_ofLine?`), and the lines of a
section are its heading and one item for each entry (`splitOn_markdown_changelog`).
-/
import Mathlib.Data.List.Forall2
import ReleaseNotes.Changelog
import ReleaseNotes.Proofs.Capitals
import ReleaseNotes.Proofs.RemovedTokens

namespace ReleaseNotes

/-! ### Texts of one line -/

/-- The title of a message has no blanks of its own. -/
theorem Title.mem_of_isBlank_of_mem_ofMessage {message : Text} {x : Char}
    (h : x ∈ ofMessage message) (hx : Text.isBlank x = true) : x ∈ message := by
  have htrim : x ∈ Text.trim (substance message) := Text.mem_of_isBlank_of_mem_capitalize h hx
  have hmerge : x ∈ withoutMergeTail (withoutHashes message) :=
    (Text.erase_sublist _ _).subset ((Text.trim_isInfix _).subset htrim)
  have hhashes : x ∈ withoutHashes message := (withoutMergeTail_isPrefix _).subset hmerge
  exact (Text.erase_sublist _ _).subset ((Text.erase_sublist _ _).subset hhashes)

/-- Message and author are parts of the line that lists a commit. -/
theorem Commit.subset_of_ofLine? {line : Text} {c : Commit} (h : ofLine? line = some c) :
    c.message ⊆ line ∧ c.author ⊆ line := by
  unfold ofLine? at h
  split at h
  · rename_i first last _ _
    split at h
    · cases h
    · cases h
      constructor
      · intro x hx
        exact List.take_subset last line (List.drop_subset _ _ hx)
      · intro x hx
        exact List.drop_subset _ line ((Text.trim_isInfix _).subset hx)
  · cases h

/-- Whether an entry is fit for a line: it has a title, its number is one, and there is
no line feed in title and author. -/
structure Entry.IsPlain (e : Entry) : Prop where
  title_ne_nil : e.title ≠ []
  lineFeed_not_mem_title : '\n' ∉ e.title
  lineFeed_not_mem_author : '\n' ∉ e.author
  isNumber : ∀ n, e.number = some n → Reference.IsNumber n

/-- What is read from one line is fit for a line. -/
theorem Entry.isPlain_of_ofLine? {line : Text} {e : Entry} (hline : '\n' ∉ line)
    (h : ofLine? line = some e) : e.IsPlain := by
  obtain ⟨c, hc, hentry⟩ := Option.bind_eq_some_iff.1 h
  obtain ⟨hmessage, hauthor⟩ := Commit.subset_of_ofLine? hc
  obtain ⟨-, he⟩ := Entry.ofCommit?_eq_some_iff.1 hentry
  constructor
  · exact Entry.title_ne_nil_of_ofCommit? hentry
  · intro hn
    simp only [he] at hn
    exact hline (hmessage (Title.mem_of_isBlank_of_mem_ofMessage hn (by decide)))
  · intro hn
    simp only [he] at hn
    exact hline (hauthor hn)
  · intro n hn
    simp only [he] at hn
    exact Reference.number?_eq_some hn

/-! ### Links and items -/

namespace Markdown

variable {address : Text} {entries : List Entry} {e : Entry} {number : Option Text} {n l : Text}

/-- An address is its base with slashes behind it. -/
theorem exists_base_append (address : Text) :
    ∃ k, address = base address ++ List.replicate k '/' := by
  have hslash : ∀ c ∈ address.reverse.takeWhile (· == '/'), c = '/' := by
    intro c hc
    simpa using List.all_eq_true.1 List.all_takeWhile c hc
  have hrep := List.eq_replicate_of_mem hslash
  refine ⟨(address.reverse.takeWhile (· == '/')).length, ?_⟩
  calc address
      = (address.reverse.takeWhile (· == '/') ++ address.reverse.dropWhile (· == '/')).reverse := by
        rw [List.takeWhile_append_dropWhile, List.reverse_reverse]
    _ = base address ++ (address.reverse.takeWhile (· == '/')).reverse := List.reverse_append
    _ = _ := by
        rw [hrep, List.reverse_replicate, List.length_replicate]

theorem link_of_ne_nil (hne : n ≠ []) : link address (some n)
    = "[#".toList ++ n ++ "](".toList ++ base address ++ "/pull/".toList ++ n ++ [')'] := by
  obtain ⟨c, s, rfl⟩ := List.exists_cons_of_ne_nil hne
  rfl

/-- The link stands at the end of an item. -/
theorem item_of_link (h : link address e.number = l) : item address e
    = "- ".toList ++ e.title ++ " by ".toList ++ e.author ++ " (".toList ++ l ++ [')'] := by
  rw [← h]
  rfl

/-- A section depends on its address only through the links of its entries. -/
theorem releaseSection_congr {address' : Text}
    (h : ∀ e ∈ entries, link address e.number = link address' e.number) (tag : Text) :
    releaseSection address tag entries = releaseSection address' tag entries := by
  have hitems : entries.map (item address) = entries.map (item address') :=
    List.map_congr_left fun e he => item_of_link (h e he)
  rw [releaseSection, releaseSection, items, items, hitems]

/-- The links that there are: none without a number, and with a number one that leads
from the address, without the slashes at its end, to the pull request. -/
inductive IsLink (address : Text) : Option Text → Text → Prop
  | none : IsLink address none []
  | some {base n : Text} {k : Nat} : address = base ++ List.replicate k '/' →
    base.getLast? ≠ some '/' → Reference.IsNumber n → IsLink address (some n)
      ("[#".toList ++ n ++ "](".toList ++ base ++ "/pull/".toList ++ n ++ ")".toList)

/-- A line that shows an entry: with a title, and with a link at its end. -/
structure IsItem (address : Text) (e : Entry) (line : Text) : Prop where
  title_ne_nil : e.title ≠ []
  eq_item : ∃ l, IsLink address e.number l ∧ line
    = "- ".toList ++ e.title ++ " by ".toList ++ e.author ++ " (".toList ++ l ++ ")".toList

theorem isLink_link (h : ∀ n, number = some n → Reference.IsNumber n) :
    IsLink address number (link address number) := by
  cases number with
  | none => exact .none
  | some n =>
    have hn := h n rfl
    obtain ⟨k, hk⟩ := exists_base_append address
    rw [link_of_ne_nil hn.1]
    exact .some hk (getLast?_base address) hn

theorem isItem_item (h : e.IsPlain) : IsItem address e (item address e) where
  title_ne_nil := h.title_ne_nil
  eq_item := ⟨_, isLink_link h.isNumber, rfl⟩

/-! ### Lines of a section -/

theorem lineFeed_not_mem_of_isLink (haddress : '\n' ∉ address) (h : IsLink address number l) :
    '\n' ∉ l := by
  cases h with
  | none => exact List.not_mem_nil
  | @some base n k hk _ hn =>
    have hbase : '\n' ∉ base := fun hb => haddress (hk ▸ List.mem_append_left _ hb)
    have hdigits : '\n' ∉ n := fun hb => absurd (hn.2 _ hb) (by decide)
    simp only [List.mem_append, hbase, hdigits, or_false]
    decide

theorem lineFeed_not_mem_item (haddress : '\n' ∉ address) (h : e.IsPlain) :
    '\n' ∉ item address e := by
  have hlink : '\n' ∉ link address e.number :=
    lineFeed_not_mem_of_isLink haddress (isLink_link h.isNumber)
  rw [item_of_link rfl]
  simp only [List.mem_append, hlink, h.lineFeed_not_mem_title, h.lineFeed_not_mem_author, or_false]
  decide

/-- A section is cut into the lines that it was put together from. -/
theorem splitOn_releaseSection {tag : Text} (htag : '\n' ∉ tag) (haddress : '\n' ∉ address)
    (h : ∀ e ∈ entries, e.IsPlain) :
    (releaseSection address tag entries).splitOn '\n' = heading tag :: items address entries := by
  apply List.splitOn_intercalate
  · intro line hline
    rcases List.mem_cons.1 hline with rfl | hline
    · rw [heading, List.mem_append]
      exact not_or.2 ⟨by decide, htag⟩
    · unfold items at hline
      split at hline
      · rw [List.mem_singleton.1 hline]
        decide
      · obtain ⟨e, he, rfl⟩ := List.mem_map.1 hline
        exact lineFeed_not_mem_item haddress (h e he)
  · exact List.cons_ne_nil _ _

end Markdown

/-! ### The section of a release -/

/-- The log is read line by line. -/
theorem Repository.lineFeed_not_mem_of_mem_commitLines {repo : Repository} {dir : Directory}
    {range : CommitRange} {line : Text} (h : line ∈ (repo.commitLines dir range).result) :
    '\n' ∉ line := by
  simp only [commitLines, Session.mapResult] at h
  cases hlog : (repo.ask dir range.logArguments).result with
  | none =>
    rw [hlog] at h
    cases h
  | some log =>
    rw [hlog] at h
    exact Text.lineFeed_not_mem_of_mem_lines (List.mem_filter.1 h).1

namespace Release

/-- All that a build lists is fit for lines. -/
theorem isPlain_of_mem_entries {repo : Repository} {r : Release} {address : Text} :
    ∀ e ∈ (r.changelog repo address).result.entries, e.IsPlain := by
  intro e he
  obtain ⟨line, hline, hread⟩ := List.mem_filterMap.1 he
  exact Entry.isPlain_of_ofLine? (Repository.lineFeed_not_mem_of_mem_commitLines hline) hread

/-- **The lines of a section** are its heading and one item for each entry, in the order
of the entries, whatever the log holds; a remark takes the place of the items when there
are none. -/
theorem splitOn_markdown_changelog (repo : Repository) {r : Release} {address : Text}
    (htag : '\n' ∉ r.tag) (haddress : '\n' ∉ address) :
    let built := (r.changelog repo address).result
    ∃ lines, built.markdown.splitOn '\n' = ("## ".toList ++ r.tag) :: lines
      ∧ (built.entries = [] → lines = ["*(No commits found in range)*".toList])
      ∧ (built.entries ≠ [] → List.Forall₂ (Markdown.IsItem address) built.entries lines) := by
  intro built
  have hplain : ∀ e ∈ built.entries, e.IsPlain := isPlain_of_mem_entries
  refine ⟨Markdown.items address built.entries,
    Markdown.splitOn_releaseSection htag haddress hplain, fun hnil => ?_, fun hne => ?_⟩
  · exact if_pos hnil
  · rw [Markdown.items, if_neg hne, List.forall₂_map_right_iff, List.forall₂_same]
    exact fun e he => Markdown.isItem_item (hplain e he)

/-- Subjects and authors with line ends of other kinds, and with text that looks like
that of a section. -/
theorem splitOn_markdown_changelog_of_forgeries :
    let log := "a1||Fix it (#7)\r## v0||Jo\u2028- None by me ()\r\na2||PR 8 x ([#9](y||z)||".toList
    let repo : Repository := fun _ => some log
    let r : Release := { tag := "v1\r".toList }
    let address := "https://example.org//".toList
    ∃ first second, ((r.changelog repo address).result.markdown).splitOn '\n'
        = ["## v1\r".toList, first, second]
      ∧ Markdown.IsItem address ⟨"Fix it \r## v0".toList, "Jo\u2028- None by me ()".toList,
          some "7".toList⟩ first
      ∧ Markdown.IsItem address ⟨"X ([](y||z)".toList, [], some "8".toList⟩ second := by
  intro log repo r address
  have htag : '\n' ∉ r.tag := by decide
  have haddress : '\n' ∉ address := by decide
  obtain ⟨lines, hsplit, -, hitems⟩ := splitOn_markdown_changelog repo htag haddress
  have hentries : (r.changelog repo address).result.entries = [⟨"Fix it \r## v0".toList,
      "Jo\u2028- None by me ()".toList, some "7".toList⟩,
      ⟨"X ([](y||z)".toList, [], some "8".toList⟩] := by
    decide +kernel
  rw [hentries] at hitems
  cases hitems (List.cons_ne_nil _ _) with
  | cons hfirst hrest =>
    cases hrest with
    | cons hsecond hend =>
      cases hend
      exact ⟨_, _, hsplit, hfirst, hsecond⟩

end Release

end ReleaseNotes
