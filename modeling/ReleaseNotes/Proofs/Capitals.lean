/-
ReleaseNotes/Proofs/Capitals.lean

What upper case makes of the first character of a text.

All that is known of capital forms is in a table, and what holds of every row of the
table holds of every character that has a capital form.  Two things are read off it: of
the characters that a capital form is made of none is blank and none has a capital form
of its own, and of the characters that references and the marks of merging begin with
only `P` and `M` are capitals, of `p` and of `m`.

The second half of the former compares all rows with all others.  So the code points on
either side of the table are put together as the bits of a number, and the two numbers
have no bit in common.

Main results: upper case brings in no blanks (`eq_of_isBlank_of_mem_upper`), a text with
a capital first is kept (`capitalize_capitalize`), so are the margins of a trimmed one
(`trim_capitalize_trim`), and where the first letter of a mark comes from
(`eq_of_initial_mem_upper`).
-/
import Mathlib.Data.List.Basic
import ReleaseNotes.Text.Blank
import ReleaseNotes.Text.Uppercase

namespace ReleaseNotes

namespace Text

variable {c d : Char} {n m : Nat} {ns : List Nat} {s : Text}

/-! ### The table, row by row -/

/-- The code points of a run, with their capital forms. -/
def CaseRun.rows (r : CaseRun) : List (Nat × List Nat) :=
  (List.range r.count).map fun k => (r.first + k * r.step, [r.capital + k * r.step])

/-- All code points that have a capital form, with these forms. -/
def rows : List (Nat × List Nat) :=
  runs.flatMap CaseRun.rows ++ expansions

theorem CaseRun.mem_rows_of_capital? {r : CaseRun} (h : r.capital? n = some m) :
    (n, [m]) ∈ r.rows := by
  unfold CaseRun.capital? at h
  split at h
  · rename_i hn
    obtain ⟨hlo, hhi, hstep⟩ := hn
    obtain rfl := Option.some.inj h
    -- `k` steps lead from the first code point to `n`
    obtain ⟨k, hk⟩ := Nat.dvd_of_mod_eq_zero hstep
    have hcount : k < r.count := by
      have hlt : r.step * k < r.step * r.count := by
        rw [Nat.mul_comm r.step r.count]
        omega
      exact Nat.lt_of_mul_lt_mul_left hlt
    refine List.mem_map.2 ⟨k, List.mem_range.2 hcount, ?_⟩
    rw [hk, Nat.mul_comm r.step k, show n = r.first + k * r.step by
      rw [Nat.mul_comm k r.step]
      omega]
  · cases h

theorem mem_rows_of_capitalForm? (h : capitalForm? n = some ns) : (n, ns) ∈ rows := by
  unfold capitalForm? at h
  split at h
  · rename_i m hm
    obtain rfl := Option.some.inj h
    obtain ⟨r, hr, hc⟩ := List.exists_of_findSome?_eq_some hm
    exact List.mem_append_left _ (List.mem_flatMap.2 ⟨r, hr, CaseRun.mem_rows_of_capital? hc⟩)
  · obtain ⟨front, rest, he, -⟩ := List.lookup_eq_some_iff.1 h
    apply List.mem_append_right
    rw [he]
    exact List.mem_append_right front List.mem_cons_self

/-- A character is its own upper case, or the table has a row for it. -/
theorem upper_eq_or (c : Char) :
    upper c = [c] ∨ ∃ ns, (c.toNat, ns) ∈ rows ∧ upper c = ns.map Char.ofNat := by
  cases h : capitalForm? c.toNat with
  | none => exact .inl (upper_of_not_listed h)
  | some ns => exact .inr ⟨ns, mem_rows_of_capitalForm? h, by rw [upper, h]⟩

/-- A character of an upper case is the character itself, or the table has it in the
capital form of that character. -/
theorem eq_or_exists_row_of_mem_upper (h : d ∈ upper c) :
    d = c ∨ ∃ ns, (c.toNat, ns) ∈ rows ∧ ∃ m ∈ ns, d = Char.ofNat m := by
  rcases upper_eq_or c with hu | ⟨ns, hrow, hu⟩
  · rw [hu] at h
    exact .inl (List.mem_singleton.1 h)
  · rw [hu] at h
    obtain ⟨m, hm, rfl⟩ := List.mem_map.1 h
    exact .inr ⟨ns, hrow, m, hm, rfl⟩

/-! ### Capital forms -/

/-- The characters that a reference or a mark of merging begins with. -/
def initials : List Char := ['#', 'P', 'M', 'f']

theorem toNat_le_of_mem_initials (h : d ∈ initials) : d.toNat ≤ 'f'.toNat := by
  simp only [initials, List.mem_cons, List.not_mem_nil, or_false] at h
  rcases h with rfl | rfl | rfl | rfl <;> decide

/-- `ns` can be the capital form of `n`: it is of characters, none of them blank, and
of the initials, which stand no higher than `f`, it has at most `P`, for `p`, and `M`,
for `m`. -/
structure IsCapitalForm (n : Nat) (ns : List Nat) : Prop where
  ne_nil : ns ≠ []
  toNat_ofNat : ∀ m ∈ ns, (Char.ofNat m).toNat = m
  not_isBlank : ∀ m ∈ ns, isBlank (Char.ofNat m) = false
  initial : ∀ m ∈ ns, m ≤ 'f'.toNat → Char.ofNat m ∈ initials →
    (m = 'P'.toNat ∧ n = 'p'.toNat) ∨ (m = 'M'.toNat ∧ n = 'm'.toNat)

instance (n : Nat) (ns : List Nat) : Decidable (IsCapitalForm n ns) :=
  decidable_of_iff (ns ≠ [] ∧ (∀ m ∈ ns, (Char.ofNat m).toNat = m)
      ∧ (∀ m ∈ ns, isBlank (Char.ofNat m) = false)
      ∧ ∀ m ∈ ns, m ≤ 'f'.toNat → Char.ofNat m ∈ initials →
        (m = 'P'.toNat ∧ n = 'p'.toNat) ∨ (m = 'M'.toNat ∧ n = 'm'.toNat))
    ⟨fun ⟨h₁, h₂, h₃, h₄⟩ => ⟨h₁, h₂, h₃, h₄⟩, fun ⟨h₁, h₂, h₃, h₄⟩ => ⟨h₁, h₂, h₃, h₄⟩⟩

theorem isCapitalForm_of_mem_rows : ∀ row ∈ rows, IsCapitalForm row.1 row.2 := by
  decide +kernel

theorem upper_ne_nil (c : Char) : upper c ≠ [] := by
  rcases upper_eq_or c with hu | ⟨ns, hrow, hu⟩
  · rw [hu]
    exact List.cons_ne_nil c []
  · rw [hu, ne_eq, List.map_eq_nil_iff]
    exact (isCapitalForm_of_mem_rows _ hrow).ne_nil

/-- Upper case brings in no blanks. -/
theorem eq_of_isBlank_of_mem_upper (h : d ∈ upper c) (hd : isBlank d = true) : d = c := by
  rcases eq_or_exists_row_of_mem_upper h with rfl | ⟨ns, hrow, m, hm, rfl⟩
  · rfl
  · rw [(isCapitalForm_of_mem_rows _ hrow).not_isBlank m hm] at hd
    cases hd

/-- Of the initials upper case brings in only `P`, for `p`, and `M`, for `m`. -/
theorem eq_of_initial_mem_upper (h : d ∈ upper c) (hd : d ∈ initials) :
    d = c ∨ (d = 'P' ∧ c = 'p') ∨ (d = 'M' ∧ c = 'm') := by
  rcases eq_or_exists_row_of_mem_upper h with rfl | ⟨ns, hrow, m, hm, rfl⟩
  · exact .inl rfl
  · right
    have hform := isCapitalForm_of_mem_rows _ hrow
    have hle : m ≤ 'f'.toNat := by
      rw [← hform.toNat_ofNat m hm]
      exact toNat_le_of_mem_initials hd
    rcases hform.initial m hm hle hd with ⟨hP, hp⟩ | ⟨hM, hm⟩
    · exact .inl ⟨by rw [hP, Char.ofNat_toNat], Char.toNat_inj.1 hp⟩
    · exact .inr ⟨by rw [hM, Char.ofNat_toNat], Char.toNat_inj.1 hm⟩

/-! ### Capitals of capitals -/

/-- The number whose bits are set at the places `ns`. -/
def bits (ns : List Nat) : Nat :=
  ns.foldr (fun n bs => 1 <<< n ||| bs) 0

theorem testBit_bits (h : n ∈ ns) : (bits ns).testBit n = true := by
  induction ns with
  | nil => cases h
  | cons m ns ih =>
    rw [bits, List.foldr_cons, Nat.testBit_or, Bool.or_eq_true]
    rcases List.mem_cons.1 h with rfl | h
    · left
      rw [Nat.one_shiftLeft]
      exact Nat.testBit_two_pow_self
    · exact .inr (ih h)

theorem not_mem_of_land_bits_eq_zero {ms : List Nat} (h : bits ns &&& bits ms = 0)
    (hn : n ∈ ns) : n ∉ ms := by
  intro hm
  have hbit := Nat.testBit_and (bits ns) (bits ms) n
  rw [h, testBit_bits hn, testBit_bits hm, Nat.zero_testBit] at hbit
  cases hbit

theorem land_bits_rows : bits (rows.flatMap (·.2)) &&& bits (rows.map (·.1)) = 0 := by
  decide +kernel

/-- No character of a capital form has a capital form of its own. -/
theorem capitalForm?_eq_none_of_mem_rows {row : Nat × List Nat} (hrow : row ∈ rows)
    (hm : m ∈ row.2) : capitalForm? m = none := by
  refine Option.eq_none_iff_forall_ne_some.2 fun ns h => ?_
  have hsmall : m ∈ rows.map (·.1) := List.mem_map.2 ⟨_, mem_rows_of_capitalForm? h, rfl⟩
  exact not_mem_of_land_bits_eq_zero land_bits_rows (List.mem_flatMap.2 ⟨row, hrow, hm⟩) hsmall

theorem upper_of_mem_upper (h : d ∈ upper c) : upper d = [d] := by
  rcases upper_eq_or c with hu | ⟨ns, hrow, hu⟩
  · rw [hu] at h
    rw [List.mem_singleton.1 h, hu]
  · rw [hu] at h
    obtain ⟨m, hm, rfl⟩ := List.mem_map.1 h
    apply upper_of_not_listed
    rw [(isCapitalForm_of_mem_rows _ hrow).toNat_ofNat m hm]
    exact capitalForm?_eq_none_of_mem_rows hrow hm

/-! ### Texts with a capital first -/

/-- A text with a capital first is its own capital form. -/
theorem capitalize_capitalize (s : Text) : capitalize (capitalize s) = capitalize s := by
  cases s with
  | nil => rfl
  | cons c s =>
    obtain ⟨d, ds, hu⟩ := List.exists_cons_of_ne_nil (upper_ne_nil c)
    have hd : upper d = [d] := upper_of_mem_upper (hu ▸ List.mem_cons_self)
    rw [capitalize_cons, hu, List.cons_append, capitalize_cons, hd]
    rfl

theorem capitalize_eq_nil_iff : capitalize s = [] ↔ s = [] := by
  cases s with
  | nil => exact Iff.rfl
  | cons c s =>
    rw [capitalize_cons, List.append_eq_nil_iff]
    exact ⟨fun h => absurd h.1 (upper_ne_nil c), nofun⟩

/-- A blank of a text with a capital first is a blank of the text. -/
theorem mem_of_isBlank_of_mem_capitalize (h : d ∈ capitalize s) (hd : isBlank d = true) :
    d ∈ s := by
  cases s with
  | nil => exact h
  | cons c s =>
    rcases List.mem_append.1 h with h | h
    · exact List.mem_cons.2 (.inl (eq_of_isBlank_of_mem_upper h hd))
    · exact List.mem_cons_of_mem c h

/-- The capital takes the place of the first character, so the margins of a trimmed
text stay as they are. -/
theorem trim_capitalize_trim (s : Text) : trim (capitalize (trim s)) = capitalize (trim s) := by
  have hf := head?_trim s
  have hl := getLast?_trim s
  cases e : trim s with
  | nil => rfl
  | cons c t =>
    rw [e] at hf hl
    have hc : isBlank c = false := hf c rfl
    have hupper : ∀ d ∈ upper c, isBlank d = false := by
      intro d hd
      by_contra hb
      rw [Bool.not_eq_false] at hb
      rw [eq_of_isBlank_of_mem_upper hd hb, hc] at hb
      cases hb
    rw [capitalize_cons]
    apply trim_of_margins
    · intro d hd
      rw [List.head?_append_of_ne_nil _ (upper_ne_nil c)] at hd
      exact hupper d (List.mem_of_mem_head? hd)
    · intro d hd
      cases t with
      | nil =>
        rw [List.append_nil] at hd
        exact hupper d (List.mem_of_getLast? hd)
      | cons b t =>
        rw [List.getLast?_append_of_ne_nil _ (List.cons_ne_nil b t)] at hd
        apply hl d
        rw [List.getLast?_cons_cons]
        exact hd

end Text

end ReleaseNotes
