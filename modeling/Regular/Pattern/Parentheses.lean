/-!
# Parentheses — which of them are partners

In a matched text every parenthesis has its partner.  The partner of a `(` in any text is the `)` that comes after it
with a matched text between the two; a `(` without one is unclosed.  All this is said of the text alone; how a reader
keeps track of it is another matter.

A text is cut at its unclosed parentheses into matched parts (`OpenGroups`), and this is kept up by one character after
the other: `OpenGroups.char`, `OpenGroups.opens`, `OpenGroups.closes`.
-/
namespace Regular
namespace Pattern

/-- Every parenthesis of the text has its partner in it. -/
inductive Matched : List Char → Prop where
  | nil : Matched []
  | char {s : List Char} {c : Char} (h : Matched s) (hc : c ≠ '(' ∧ c ≠ ')') : Matched (s ++ [c])
  | group {s t : List Char} (h : Matched s) (h' : Matched t) : Matched (s ++ '(' :: (t ++ [')']))

/-- At the position stands a `(` that no `)` of the text is the partner of. -/
def Unclosed (s : List Char) (i : Nat) : Prop :=
  s[i]? = some '(' ∧ ∀ t u, s.drop (i + 1) = t ++ ')' :: u → ¬Matched t

/-! ## Counting parentheses -/

/-- No beginning of the text has more `)` than `(`. -/
def Level (s : List Char) : Prop := ∀ t, t <+: s → t.count ')' ≤ t.count '('

theorem Matched.count_eq {s : List Char} (h : Matched s) : s.count ')' = s.count '(' := by
  induction h with
  | nil => rfl
  | char _ hc ih => simp [ih, hc.1, hc.2]
  | group _ _ ih ih' => simp [ih, ih']

theorem Level.append {s t : List Char} (hs : Level s) (ht : Level t) : Level (s ++ t) := by
  rintro u ⟨v, huv⟩
  rcases List.append_eq_append_iff.1 huv with ⟨w, rfl, -⟩ | ⟨w, rfl, hw⟩
  · exact hs u (List.prefix_append u w)
  · have hsw := hs s (List.prefix_refl s)
    have htw := ht w ⟨v, hw.symm⟩
    simp only [List.count_append]
    omega

theorem Level.cons {s : List Char} (h : Level s) : Level ('(' :: s) := by
  intro t ht
  rcases List.prefix_cons_iff.1 ht with rfl | ⟨u, rfl, hu⟩
  · exact Nat.le_refl 0
  · have hcount := h u hu
    rw [List.count_cons_self, List.count_cons_of_ne (by decide)]
    omega

theorem Level.snoc {s : List Char} {c : Char} (h : Level s) (hc : (s ++ [c]).count ')' ≤ (s ++ [c]).count '(') :
    Level (s ++ [c]) := by
  intro t ht
  rcases List.prefix_concat_iff.1 ht with rfl | ht
  · exact hc
  · exact h t ht

theorem Matched.level {s : List Char} (h : Matched s) : Level s := by
  induction h with
  | nil =>
    intro t ht
    rw [List.prefix_nil.1 ht]
    exact Nat.le_refl 0
  | char h hc ih => exact ih.snoc (Nat.le_of_eq (h.char hc).count_eq)
  | @group s t h h' ih ih' =>
    have hcount := Nat.le_of_eq (h.group h').count_eq
    rw [← List.cons_append, ← List.append_assoc] at hcount ⊢
    exact (ih.append ih'.cons).snoc hcount

/-! ## Unclosed parentheses -/

/-- A `(` after which no beginning closes more than it opens has no partner. -/
theorem unclosed_of_level {s : List Char} {i : Nat} (hi : s[i]? = some '(') (h : Level (s.drop (i + 1))) :
    Unclosed s i := by
  refine ⟨hi, fun t u ht hmatched => ?_⟩
  have hcount := h (t ++ [')']) ⟨u, by rw [ht, List.append_assoc]; rfl⟩
  rw [List.count_append, List.count_append, hmatched.count_eq] at hcount
  exact absurd hcount (by simp)

/-- What has a partner in a part of the text has it in the text: whether a `(` is unclosed is seen in its own part. -/
theorem Unclosed.part {s v : List Char} {i : Nat} (h : Unclosed (s ++ v) i) :
    (i < s.length ∧ Unclosed s i) ∨ ∃ j, i = s.length + j ∧ Unclosed v j := by
  obtain ⟨hopen, hno⟩ := h
  by_cases hi : i < s.length
  · rw [List.getElem?_append_left hi] at hopen
    refine .inl ⟨hi, hopen, fun t u ht => hno t (u ++ v) ?_⟩
    rw [List.drop_append_of_le_length hi, ht, List.append_assoc]
    rfl
  · obtain ⟨j, rfl⟩ := Nat.exists_eq_add_of_le (Nat.not_lt.1 hi)
    rw [List.getElem?_append_right (Nat.le_add_right _ _), Nat.add_sub_cancel_left] at hopen
    rw [Nat.add_assoc, List.drop_length_add_append] at hno
    exact .inr ⟨j, rfl, hopen, hno⟩

theorem not_unclosed_singleton {c : Char} (hc : c ≠ '(') (i : Nat) : ¬Unclosed [c] i := by
  rintro ⟨hopen, -⟩
  cases i with
  | zero => exact hc (Option.some.inj hopen)
  | succ i => cases hopen

theorem Matched.not_unclosed {s : List Char} (h : Matched s) : ∀ i, ¬Unclosed s i := by
  induction h with
  | nil => exact fun i hi => by cases hi.1
  | char _ hc ih =>
    intro i hi
    rcases hi.part with ⟨-, hi⟩ | ⟨j, -, hj⟩
    · exact ih i hi
    · exact not_unclosed_singleton hc.1 j hj
  | @group s t _ h' ih ih' =>
    intro i hi
    rcases hi.part with ⟨-, hi⟩ | ⟨j, -, hj⟩
    · exact ih i hi
    cases j with
    | zero => exact hj.2 t [] rfl h'
    | succ j =>
      have hinner : Unclosed (t ++ [')']) j := hj
      rcases hinner.part with ⟨-, hj⟩ | ⟨k, -, hk⟩
      · exact ih' j hj
      · exact not_unclosed_singleton (by decide) k hk

/-! ## The groups that are open -/

/-- The positions of the unclosed parentheses, the last one first: what follows each of them up to the next one is
matched. -/
inductive OpenGroups : List Nat → List Char → Prop where
  | none {s : List Char} (h : Matched s) : OpenGroups [] s
  | group {positions : List Nat} {s t : List Char} (h : OpenGroups positions s) (h' : Matched t) :
      OpenGroups (s.length :: positions) (s ++ '(' :: t)

namespace OpenGroups
variable {positions : List Nat} {s : List Char}

theorem opens (h : OpenGroups positions s) : OpenGroups (s.length :: positions) (s ++ ['(']) := .group h .nil

theorem char (h : OpenGroups positions s) {c : Char} (hc : c ≠ '(' ∧ c ≠ ')') : OpenGroups positions (s ++ [c]) := by
  cases h with
  | none h => exact .none (h.char hc)
  | group h h' =>
    rw [List.append_assoc]
    exact .group h (h'.char hc)

theorem closes {i : Nat} (h : OpenGroups (i :: positions) s) : OpenGroups positions (s ++ [')']) := by
  cases h with
  | @group _ s t h h' =>
    rw [List.append_assoc, List.cons_append]
    -- the group that ends lengthens the matched part before it, which belongs to the next group if one is open
    cases h with
    | none h => exact .none (h.group h')
    | @group positions s u h hu =>
      rw [List.append_assoc, List.cons_append]
      exact .group h (hu.group h')

theorem level (h : OpenGroups positions s) : ∀ i ∈ positions, s[i]? = some '(' ∧ Level (s.drop (i + 1)) := by
  induction h with
  | none => exact fun i hi => by cases hi
  | @group positions s t h h' ih =>
    intro i hi
    rcases List.mem_cons.1 hi with rfl | hi
    · refine ⟨by simp, ?_⟩
      rw [List.drop_length_add_append]
      exact h'.level
    · obtain ⟨hopen, hlevel⟩ := ih i hi
      have hlt := (List.getElem?_eq_some_iff.1 hopen).1
      rw [List.getElem?_append_left hlt, List.drop_append_of_le_length hlt]
      exact ⟨hopen, hlevel.append h'.level.cons⟩

/-- **The open groups are the unclosed parentheses.** -/
theorem mem_iff (h : OpenGroups positions s) (i : Nat) : i ∈ positions ↔ Unclosed s i := by
  refine ⟨fun hi => unclosed_of_level (h.level i hi).1 (h.level i hi).2, fun hi => ?_⟩
  induction h with
  | none h => exact absurd hi (h.not_unclosed i)
  | @group positions s t h h' ih =>
    rcases hi.part with ⟨-, hi⟩ | ⟨j, rfl, hj⟩
    · exact List.mem_cons_of_mem _ (ih hi)
    cases j with
    | zero => exact List.mem_cons_self
    | succ j => exact absurd hj (h'.not_unclosed j)

theorem eq_nil_iff (h : OpenGroups positions s) : positions = [] ↔ ∀ i, ¬Unclosed s i := by
  rw [List.eq_nil_iff_forall_not_mem]
  exact forall_congr' fun i => not_congr (h.mem_iff i)

/-- The first of the open groups is the last unclosed parenthesis. -/
theorem last {i : Nat} (h : OpenGroups (i :: positions) s) : Unclosed s i ∧ ∀ j, Unclosed s j → j ≤ i := by
  refine ⟨(h.mem_iff i).1 List.mem_cons_self, fun j hj => ?_⟩
  cases h with
  | @group _ s t h h' =>
    rcases hj.part with ⟨hlt, -⟩ | ⟨k, rfl, hk⟩
    · exact Nat.le_of_lt hlt
    cases k with
    | zero => exact Nat.le_refl _
    | succ k => exact absurd hk (h'.not_unclosed k)

end OpenGroups
end Pattern
end Regular
