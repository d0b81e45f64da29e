/-
ReleaseNotes/Proofs/SpelledNames.lean

Typed names and the names that they spell.

Only a capital can come from a dash, so a name without capitals is spelled by
itself alone.  A name has fields exactly when it holds a dot.

Main results: what spells a name without capitals is that name (`eq_of_joined`,
`eq_of_pathOf`), and the switches are spelled as they are typed
(`pathOf_of_otherForm?`).
-/
import ReleaseNotes.CommandLine.Names

namespace ReleaseNotes

namespace CommandLine

variable {n m : Text}

/-! ### Capitals -/

theorem isUpper_toUpper {b : Char} (h : isSmall b = true) : b.toUpper.isUpper = true := by
  have hb : 'a'.val ≤ b.val ∧ b.val ≤ 'z'.val := by simpa [isSmall, Char.le_def] using h
  have hv : b.toUpper.val = b.val + ('A'.val - 'a'.val) := by
    delta Char.toUpper
    rw [dif_pos hb]
  have hd : ('A'.val - 'a'.val).toNat = 2 ^ 32 - 32 := rfl
  simp only [UInt32.le_iff_toNat_le, show 'a'.val.toNat = 97 from rfl,
    show 'z'.val.toNat = 122 from rfl] at hb
  delta Char.isUpper
  simp only [hv, ge_iff_le, UInt32.le_iff_toNat_le, UInt32.toNat_add, hd,
    show 'A'.val.toNat = 65 from rfl, show 'Z'.val.toNat = 90 from rfl, decide_eq_true_eq]
  omega

theorem isUpper_of_any (h : m.any Char.isUpper = false) : ∀ c ∈ m, c.isUpper = false := by
  simpa using h

/-- What spells a name without capitals is the name itself. -/
theorem eq_of_joined (hm : ∀ c ∈ m, c.isUpper = false) (h : joined n = m) : n = m := by
  fun_induction joined n generalizing m with
  | case1 a b s hs ih =>
    -- the letter behind the dash would be a capital of `m`
    obtain ⟨-, hb⟩ := Bool.and_eq_true_iff.1 hs
    have hu := hm b.toUpper (by rw [← h]; simp)
    rw [isUpper_toUpper hb] at hu
    cases hu
  | case2 a b s hs ih =>
    obtain ⟨c, t, rfl⟩ : ∃ c t, m = c :: t := ⟨_, _, h.symm⟩
    obtain ⟨rfl, ht⟩ := List.cons.inj h
    rw [ih (fun c hc => hm c (List.mem_cons_of_mem _ hc)) ht]
  | case3 a s hs ih =>
    obtain ⟨c, t, rfl⟩ : ∃ c t, m = c :: t := ⟨_, _, h.symm⟩
    obtain ⟨rfl, ht⟩ := List.cons.inj h
    rw [ih (fun c hc => hm c (List.mem_cons_of_mem _ hc)) ht]
  | case4 => exact h

/-! ### Paths -/

/-- A name without a dot has no fields. -/
theorem pathOf_of_dot_not_mem (h : '.' ∉ n) : pathOf n = [joined n] := by
  rw [pathOf, List.splitOn_eq_singleton h]

theorem joined_of_pathOf (h : pathOf n = [m]) : joined n = m := by
  unfold pathOf at h
  split at h
  · cases h
  · rename_i name fields e
    obtain ⟨hj, rfl⟩ := List.cons.inj h
    have hn : ['.'].intercalate (n.splitOn '.') = n := List.intercalate_splitOn '.'
    rw [e, List.intercalate_singleton] at hn
    rw [← hn, hj]

/-- What is spelled as a name without capitals and fields is the name itself. -/
theorem eq_of_pathOf (hm : ∀ c ∈ m, c.isUpper = false) (h : pathOf n = [m]) : n = m :=
  eq_of_joined hm (joined_of_pathOf h)

/-! ### The two forms of a switch -/

/-- A switch is spelled as it is typed. -/
theorem pathOf_of_otherForm? (h : otherForm? n = some m) : pathOf m = [m] := by
  have hp : ∀ m ∈ [['h'], "help".toList, ['v'], "version".toList], pathOf m = [m] := by decide
  exact hp m (mem_switches_of_otherForm? h)

end CommandLine

end ReleaseNotes
