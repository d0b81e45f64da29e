/-
ReleaseNotes/Proofs/AlikeLists.lean

Lists that differ in their items only.

Two lists are alike when they agree in every field that no numeral names; their items
and their sizes may differ.  A flag that is put at the end of a path does the same to
both, unless the path goes on behind a position or behind the size: the same error stops
both, or both can be changed and are alike again.

Two computations that may be stopped are compared in this way throughout: they agree
when the same error stops both or their results are related.

Main results: steps that agree make folds that agree (`Agree.foldlM`), and a flag put into
lists that are alike leaves them alike (`Alike.place`).
-/
import ReleaseNotes.Setting.Fields

namespace ReleaseNotes

/-! ### Computations that agree -/

/-- Two computations agree when the same error stops both or their results are related. -/
inductive Agree {ε α : Type} (R : α → α → Prop) : Except ε α → Except ε α → Prop
  | error (e : ε) : Agree R (.error e) (.error e)
  | ok {a b : α} : R a b → Agree R (.ok a) (.ok b)

namespace Agree

variable {ε α β : Type} {R : α → α → Prop} {S : β → β → Prop} {x y : Except ε α}

theorem of_result (h : ∀ a, x = .ok a → R a a) : Agree R x x := by
  cases x with
  | error e => exact .error e
  | ok a => exact .ok (h a rfl)

theorem bind (h : Agree R x y) {f g : α → Except ε β} (hf : ∀ a b, R a b → Agree S (f a) (g b)) :
    Agree S (x >>= f) (y >>= g) := by
  cases h with
  | error e => exact .error e
  | ok hab => exact hf _ _ hab

theorem map (h : Agree R x y) {f g : α → β} (hf : ∀ a b, R a b → S (f a) (g b)) :
    Agree S (x.map f) (y.map g) := by
  cases h with
  | error e => exact .error e
  | ok hab => exact .ok (hf _ _ hab)

theorem imp (h : Agree R x y) {T : α → α → Prop} (hi : ∀ a b, R a b → T a b) : Agree T x y := by
  cases h with
  | error e => exact .error e
  | ok hab => exact .ok (hi _ _ hab)

/-- What follows on results that are related is the same where they do not matter. -/
theorem bind_eq (h : Agree R x y) {f g : α → Except ε β} (hf : ∀ a b, R a b → f a = g b) :
    x >>= f = y >>= g := by
  cases h with
  | error e => rfl
  | ok hab => exact hf _ _ hab

/-- Steps that agree make folds that agree. -/
theorem foldlM {f : α → β → Except ε α} {es : List β}
    (hf : ∀ e ∈ es, ∀ a b, R a b → Agree R (f a e) (f b e)) {a b : α} (h : R a b) :
    Agree R (es.foldlM f a) (es.foldlM f b) := by
  induction es generalizing a b with
  | nil => exact .ok h
  | cons e es ih =>
    rw [List.foldlM_cons, List.foldlM_cons]
    exact (hf e List.mem_cons_self a b h).bind fun _ _ hab =>
      ih (fun e he => hf e (List.mem_cons_of_mem _ he)) hab

end Agree

namespace Setting

variable {s t value : Setting} {field : Text} {n : Nat} {own : List (Text × Setting)}

/-! ### Numerals as names -/

/-- Whether a field is named by a numeral, as the items of a list are. -/
def isNumeral (field : Text) : Bool :=
  Number.digitsOf (Nat.ofDigitChars 10 field 0) = field

theorem isNumeral_digitsOf (n : Nat) : isNumeral (Number.digitsOf n) = true := by
  simp [isNumeral, Number.digitsOf, Nat.ofDigitChars_ten_toDigits]

theorem position?_of_not_isNumeral (h : isNumeral field = false) : position? field = none := by
  cases hp : position? field with
  | none => rfl
  | some n =>
    rw [← digitsOf_of_position? hp, isNumeral_digitsOf] at h
    cases h

theorem isNumeral_behindName : isNumeral behindName = false := by decide

/-- A list of items has no other fields than their positions. -/
theorem lookup_numbered (h : isNumeral field = false) (items : List Setting) :
    (numbered items).lookup field = none := by
  rw [List.lookup_eq_none_iff]
  intro f hf
  obtain ⟨item, -, rfl⟩ := List.mem_map.1 hf
  rw [bne_iff_ne]
  rintro rfl
  rw [isNumeral_digitsOf] at h
  cases h

/-- A new size drops no field that is no position. -/
theorem lookup_truncated (h : position? field = none) (n : Nat) (own : List (Text × Setting)) :
    (truncated n own).lookup field = own.lookup field := by
  induction own with
  | nil => rfl
  | cons f rest ih =>
    obtain ⟨name, old⟩ := f
    by_cases hn : field = name
    · subst hn
      simp [truncated, h]
    · rw [List.lookup_cons, beq_eq_false_iff_ne.2 hn, ← ih, truncated, List.filter_cons]
      split
      · rw [List.lookup_cons, beq_eq_false_iff_ne.2 hn]
        rfl
      · rfl

theorem fieldsBehind_eq_nil (h : own.lookup behindName = none) : fieldsBehind own = [] := by
  induction own with
  | nil => rfl
  | cons f rest ih =>
    obtain ⟨name, old⟩ := f
    by_cases hn : name = behindName
    · simp [hn] at h
    · rw [List.lookup_cons, beq_eq_false_iff_ne.2 (Ne.symm hn)] at h
      rw [fieldsBehind, if_neg hn, ih h]

/-! ### Lists -/

/-- A list of `n` items, in `own` with its other fields, behind which nothing but the
common ground of lists stands. -/
inductive IsList : Setting → Nat → List (Text × Setting) → Prop
  | list (items : List Setting) : IsList (list items) items.length (numbered items)
  | table {n : Nat} {own : List (Text × Setting)} :
    own.lookup behindName = none → IsList (table (some n) own) n own

namespace IsList

theorem lookup_behindName (h : IsList s n own) : own.lookup behindName = none := by
  cases h with
  | list items => exact lookup_numbered isNumeral_behindName items
  | table ho => exact ho

/-- A field of a list, other than its size, is one of its own or one that all lists have. -/
theorem get? (h : IsList s n own) (hs : field ≠ sizeName) :
    s.get? field = (own.lookup field).or
      (if field = behindName then some (common .lists) else operation? true field) := by
  cases h with
  | list items =>
    simp [Setting.get?, fields, List.lookup_append, lookup_sizeField hs, ground, isListLike]
  | table ho =>
    simp [Setting.get?, fields, List.lookup_append, lookup_sizeField hs, ground, isListLike,
      fieldsBehind_eq_nil ho]

theorem put (h : IsList s n own) (hb : field ≠ behindName) (value : Setting) :
    s.put field value = putList n own field value := by
  cases h with
  | list items => simp only [Setting.put, if_neg hb]
  | table ho => simp only [Setting.put, if_neg hb]

end IsList

/-- Only a collection can be put behind a value. -/
theorem put_behindName (s : Setting) (h : value.isCollection = false) :
    s.put behindName value = .ok s := by
  simp [Setting.put, putBehind, h]

/-- What is put into a common ground, at the end of any path, is forgotten. -/
theorem eq_common_of_place {ground : Ground} {path : List Text} (hp : path ≠ [])
    (h : (common ground).place path value = .ok s) : s = common ground := by
  -- every value that is put on the way leaves the ground as it is
  have hput : ∀ {field value s}, (common ground).put field value = .ok s → s = common ground := by
    intro field value s h
    unfold Setting.put at h
    split at h
    · exact (Except.ok.inj h).symm
    · simp only at h
      split at h
      · cases h
      · exact (Except.ok.inj h).symm
  match path, hp with
  | [field], _ => exact hput h
  | field :: next :: deeper, _ =>
    simp only [place, bind, Except.bind] at h
    split at h
    · cases h
    · rename_i s₁ h₁
      obtain rfl := hput h₁
      split at h
      · cases h
      · exact hput h

/-! ### Lists that are alike -/

/-- Lists that agree in every field that no numeral names. -/
inductive Alike : Setting → Setting → Prop
  | intro {s t : Setting} {n m : Nat} {own own' : List (Text × Setting)} :
    IsList s n own → IsList t m own' →
    (∀ field, isNumeral field = false → own.lookup field = own'.lookup field) → Alike s t

/-- Whether a path goes on behind a position of a list or behind its size. -/
def entersItem : List Text → Bool
  | field :: _ :: _ => isNumeral field || field = sizeName
  | _ => false

namespace Alike

theorem list (items items' : List Setting) : Alike (.list items) (.list items') :=
  .intro (.list items) (.list items') fun _ h => by
    rw [lookup_numbered h, lookup_numbered h]

theorem get?_eq (h : Alike s t) (hn : isNumeral field = false) (hs : field ≠ sizeName) :
    s.get? field = t.get? field := by
  obtain ⟨hl, hl', heq⟩ := h
  rw [hl.get? hs, hl'.get? hs, heq field hn]

/-- A value put into lists that are alike leaves them alike.  A size must be one. -/
theorem put (h : Alike s t) (hb : field = behindName → value.isCollection = false)
    (hs : field = sizeName → (listSize? value).isSome = true) :
    Agree Alike (s.put field value) (t.put field value) := by
  by_cases hf : field = behindName
  · subst hf
    rw [put_behindName s (hb rfl), put_behindName t (hb rfl)]
    exact .ok h
  obtain ⟨hl, hl', heq⟩ := h
  rw [hl.put hf, hl'.put hf]
  by_cases hz : field = sizeName
  · -- a new size drops positions only, and these do not count
    obtain ⟨m, hm⟩ := Option.isSome_iff_exists.1 (hs hz)
    have hp : ∀ {field}, isNumeral field = false → position? field = none :=
      position?_of_not_isNumeral
    simp only [putList, if_pos hz, hm]
    refine .ok (.intro (.table ?_) (.table ?_) fun other ho => ?_)
    · rw [lookup_truncated (hp isNumeral_behindName), hl.lookup_behindName]
    · rw [lookup_truncated (hp isNumeral_behindName), hl'.lookup_behindName]
    · rw [lookup_truncated (hp ho), lookup_truncated (hp ho), heq other ho]
  · -- the field is now the same in both, and the others are what they were
    simp only [putList, if_neg hz]
    refine .ok (.intro (.table ?_) (.table ?_) fun other ho => ?_)
    · rw [lookup_setField_of_ne (Ne.symm hf), hl.lookup_behindName]
    · rw [lookup_setField_of_ne (Ne.symm hf), hl'.lookup_behindName]
    · by_cases he : other = field
      · rw [he, lookup_setField_self, lookup_setField_self]
      · rw [lookup_setField_of_ne he, lookup_setField_of_ne he, heq other ho]

/-- **A flag put into lists that are alike leaves them alike**, unless its path goes on
behind a position or the size. -/
theorem place (h : Alike s t) {path : List Text} (hp : path ≠ []) (hi : entersItem path = false)
    (on : Bool) : Agree Alike (s.place path (.flag on)) (t.place path (.flag on)) := by
  match path, hp with
  | [field], _ => exact h.put (fun _ => rfl) fun _ => rfl
  | field :: next :: deeper, _ =>
    obtain ⟨hn, hs⟩ : isNumeral field = false ∧ field ≠ sizeName := by
      simpa [entersItem] using hi
    have hinner : s.inner field next = t.inner field next := by
      rw [inner, inner, h.get?_eq hn hs]
    simp only [Setting.place, hinner]
    have hfound : field = behindName → t.inner field next = common .lists := by
      rintro rfl
      obtain ⟨-, hl, -⟩ := h
      simp [inner, hl.get? hs, hl.lookup_behindName]
    -- what is changed further on is the same in both, and stays a ground if it is one
    refine (h.put (fun hb => by rw [hfound hb]; rfl) fun hz => absurd hz hs).bind
      fun s₁ t₁ h₁ => ?_
    refine (Agree.of_result
      (R := fun a b => a = b ∧ (field = behindName → a.isCollection = false))
      fun a ha => ⟨rfl, fun hb => ?_⟩).bind fun a b hab => ?_
    · rw [hfound hb] at ha
      rw [eq_common_of_place (by simp) ha]
      rfl
    · obtain ⟨rfl, hc⟩ := hab
      exact h₁.put hc fun hz => absurd hz hs

end Alike

end Setting

end ReleaseNotes
