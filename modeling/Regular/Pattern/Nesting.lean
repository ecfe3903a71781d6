import Regular.Pattern.Parentheses
/-!
# Nesting — which parentheses a position is inside of

A `(` and its partner enclose the positions between them.  Two pairs never overlap (`Partners.nested`), so among the
pairs that enclose a position one is innermost, and two positions have the same innermost pair exactly when the same
parentheses are open before both (`beside_iff`).  The second form speaks of the text before a position only, which is
all that a reader going from left to right knows.
-/
namespace Regular
namespace Pattern

/-- A `(` and the `)` that is its partner. -/
structure Partners (s : List Char) (i j : Nat) : Prop where
  opens : s[i]? = some '('
  closes : s[j]? = some ')'
  lt : i < j
  matched : Matched ((s.take j).drop (i + 1))

/-- The position is between a `(` and its partner. -/
def Encloses (s : List Char) (i j p : Nat) : Prop := Partners s i j ∧ i < p ∧ p < j

/-- Of the pairs that enclose the position this one starts last: the position is directly inside of it. -/
structure Innermost (s : List Char) (p i j : Nat) : Prop where
  encloses : Encloses s i j p
  last : ∀ i' j', Encloses s i' j' p → i' ≤ i

/-- Both positions are directly inside of the same pair, or neither is inside of any. -/
def Beside (s : List Char) (p q : Nat) : Prop := ∀ i j, Innermost s p i j ↔ Innermost s q i j

/-- The same parentheses are open before both positions. -/
def SameOpen (s : List Char) (p q : Nat) : Prop := ∀ i, Unclosed (s.take p) i ↔ Unclosed (s.take q) i

/-! ## Partners -/

theorem Level.of_isPrefix {s t : List Char} (h : Level s) (ht : t <+: s) : Level t := fun _ hu => h _ (hu.trans ht)

theorem drop_take_split {s : List Char} {i j p : Nat} {c : Char} (hij : i < j) (hjp : j < p) (hc : s[j]? = some c) :
    (s.take p).drop (i + 1) = (s.take j).drop (i + 1) ++ c :: (s.take p).drop (j + 1) := by
  obtain ⟨hj, rfl⟩ := List.getElem?_eq_some_iff.1 hc
  have hlt : j < (s.take p).length := by rw [List.length_take]; omega
  have hlen : i + 1 ≤ (s.take j).length := by rw [List.length_take]; omega
  have hsplit : s.take p = s.take j ++ s[j] :: (s.take p).drop (j + 1) := by
    have h := (List.take_append_drop j (s.take p)).symm
    rwa [List.take_take, Nat.min_eq_left (Nat.le_of_lt hjp), ← List.getElem_cons_drop hlt, List.getElem_take] at h
  rw [hsplit, List.drop_append_of_le_length hlen, ← hsplit]

theorem exists_partners {s : List Char} {i : Nat} (hi : s[i]? = some '(') (h : ¬Unclosed s i) :
    ∃ j, Partners s i j := by
  obtain ⟨t, u, ht, hmatched⟩ : ∃ t u, s.drop (i + 1) = t ++ ')' :: u ∧ Matched t := by
    simpa only [Unclosed, hi, true_and, Classical.not_forall, Classical.not_not, exists_prop] using h
  refine ⟨i + 1 + t.length, hi, ?_, by omega, ?_⟩
  · rw [← List.getElem?_drop, ht, List.getElem?_append_right (Nat.le_refl _), Nat.sub_self]
    rfl
  · rwa [List.drop_take, ht, Nat.add_sub_cancel_left, List.take_left]

namespace Partners
variable {s : List Char} {i j p : Nat}

/-- Up to its partner a `(` is unclosed. -/
theorem unclosed_take (h : Partners s i j) (hi : i < p) (hp : p ≤ j) : Unclosed (s.take p) i := by
  refine unclosed_of_level (by rw [List.getElem?_take_of_lt hi, h.opens]) (h.matched.level.of_isPrefix ?_)
  rw [List.drop_take, List.drop_take]
  exact List.take_prefix_take_left (by omega)

/-- After its partner it is not. -/
theorem le_of_unclosed (h : Partners s i j) (hp : Unclosed (s.take p) i) : p ≤ j :=
  Nat.not_lt.1 fun hlt => hp.2 _ _ (drop_take_split h.lt hlt h.closes) h.matched

theorem unique {j' : Nat} (h : Partners s i j) (h' : Partners s i j') : j = j' :=
  Nat.le_antisymm (h'.le_of_unclosed (h.unclosed_take h.lt (Nat.le_refl j)))
    (h.le_of_unclosed (h'.unclosed_take h'.lt (Nat.le_refl j')))

/-- **Pairs do not overlap**: one that starts inside of another ends there. -/
theorem nested {i' j' : Nat} (h : Partners s i j) (h' : Partners s i' j') (hi : i < i') (hj : i' < j) : j' < j := by
  refine Nat.not_le.1 fun hle => ?_
  have hunclosed := h'.unclosed_take hj hle
  rw [← List.take_append_drop (i + 1) (s.take j)] at hunclosed
  rcases hunclosed.part with ⟨hlt, -⟩ | ⟨k, -, hk⟩
  · rw [List.length_take, List.length_take] at hlt
    omega
  · exact h.matched.not_unclosed k hk

end Partners

theorem Unclosed.lt_of_take {s : List Char} {i p : Nat} (h : Unclosed (s.take p) i) : i < p ∧ s[i]? = some '(' := by
  have hi := (List.getElem?_eq_some_iff.1 h.1).1
  rw [List.length_take] at hi
  have hlt : i < p := by omega
  exact ⟨hlt, (List.getElem?_take_of_lt hlt).symm.trans h.1⟩

/-- What follows the last unclosed parenthesis is matched. -/
theorem OpenGroups.matched_drop {s : List Char} {i : Nat} {positions : List Nat} (h : OpenGroups (i :: positions) s) :
    Matched (s.drop (i + 1)) := by
  cases h with
  | @group _ s t _ h' => rwa [List.drop_length_add_append]

/-! ## What is open before a position -/

section Closed
variable {s : List Char} (hs : ∀ i, ¬Unclosed s i) {p q : Nat}
include hs

/-- **If all parentheses are closed, those open before a position are the ones whose partner is yet to come.** -/
theorem unclosed_take_iff {i : Nat} : Unclosed (s.take p) i ↔ ∃ j, Partners s i j ∧ i < p ∧ p ≤ j := by
  constructor
  · intro h
    obtain ⟨hlt, hopen⟩ := h.lt_of_take
    obtain ⟨j, hj⟩ := exists_partners hopen (hs i)
    exact ⟨j, hj, hlt, hj.le_of_unclosed h⟩
  · rintro ⟨j, hj, hlt, hle⟩
    exact hj.unclosed_take hlt hle

/-- At a position with no `)` the parentheses open before it are those that enclose it. -/
theorem unclosed_take_iff_encloses (hp : s[p]? ≠ some ')') {i : Nat} :
    Unclosed (s.take p) i ↔ ∃ j, Encloses s i j p := by
  rw [unclosed_take_iff hs]
  constructor
  · rintro ⟨j, hj, hlt, hle⟩
    have hne : p ≠ j := fun heq => hp (heq ▸ hj.closes)
    exact ⟨j, hj, hlt, Nat.lt_of_le_of_ne hle hne⟩
  · rintro ⟨j, hj, hlt, hle⟩
    exact ⟨j, hj, hlt, Nat.le_of_lt hle⟩

theorem innermost_of_sameOpen (hp : s[p]? ≠ some ')') (hq : s[q]? ≠ some ')') (h : SameOpen s p q) {i j : Nat}
    (hi : Innermost s p i j) : Innermost s q i j := by
  have move : ∀ {i j}, Encloses s i j p → Encloses s i j q := by
    intro i j hi
    obtain ⟨j', hj'⟩ := (unclosed_take_iff_encloses hs hq).1 ((h i).1 ((unclosed_take_iff_encloses hs hp).2 ⟨j, hi⟩))
    rwa [hi.1.unique hj'.1]
  refine ⟨move hi.encloses, fun i' j' hi' => ?_⟩
  obtain ⟨j'', hj''⟩ := (unclosed_take_iff_encloses hs hp).1
    ((h i').2 ((unclosed_take_iff_encloses hs hq).2 ⟨j', hi'⟩))
  exact hi.last i' j'' hj''

theorem encloses_of_beside {positions : List Nat} (hopen : OpenGroups positions (s.take p)) (hp : s[p]? ≠ some ')')
    (h : Beside s p q) {i j : Nat} (hi : Encloses s i j p) : Encloses s i j q := by
  have hunclosed := (unclosed_take_iff_encloses hs hp).2 ⟨j, hi⟩
  cases positions with
  | nil => exact absurd hunclosed (hopen.eq_nil_iff.1 rfl i)
  | cons i₀ outer =>
    obtain ⟨j₀, hj₀⟩ := (unclosed_take_iff_encloses hs hp).1 hopen.last.1
    have hinner : Innermost s p i₀ j₀ :=
      ⟨hj₀, fun i' j' hi' => hopen.last.2 i' ((unclosed_take_iff_encloses hs hp).2 ⟨j', hi'⟩)⟩
    obtain ⟨-, hlt, hle⟩ := ((h i₀ j₀).1 hinner).encloses
    -- an outer pair encloses all that the innermost one does
    rcases Nat.lt_or_eq_of_le (hinner.last i j hi) with hi₀ | rfl
    · have hj := hi.1.nested hj₀.1 hi₀ (Nat.lt_trans hj₀.2.1 hi.2.2)
      exact ⟨hi.1, Nat.lt_trans hi₀ hlt, Nat.lt_trans hle hj⟩
    · rw [hi.1.unique hj₀.1]
      exact ⟨hj₀.1, hlt, hle⟩

/-- **Two positions have the same innermost pair exactly when the same parentheses are open before both.** -/
theorem beside_iff {before before' : List Nat} (hopen : OpenGroups before (s.take p))
    (hopen' : OpenGroups before' (s.take q)) (hp : s[p]? ≠ some ')') (hq : s[q]? ≠ some ')') :
    Beside s p q ↔ SameOpen s p q := by
  constructor
  · intro h i
    rw [unclosed_take_iff_encloses hs hp, unclosed_take_iff_encloses hs hq]
    constructor
    · rintro ⟨j, hj⟩
      exact ⟨j, encloses_of_beside hs hopen hp h hj⟩
    · rintro ⟨j, hj⟩
      exact ⟨j, encloses_of_beside hs hopen' hq (fun i j => (h i j).symm) hj⟩
  · intro h i j
    exact ⟨innermost_of_sameOpen hs hp hq h, innermost_of_sameOpen hs hq hp fun i => (h i).symm⟩

/-- **The `)` that ends the innermost pair of a position** is the first one after it before which the same parentheses
are open. -/
theorem innermost_iff {before : List Nat} (hopen : OpenGroups before (s.take q)) (hne : before ≠ [])
    (hp : s[p]? ≠ some '(' ∧ s[p]? ≠ some ')') (hlt : p < q) :
    (∃ i, Innermost s p i q) ↔ s[q]? = some ')' ∧ SameOpen s p q := by
  constructor
  · rintro ⟨i, ⟨hi, hip, -⟩, hlast⟩
    refine ⟨hi.closes, fun x => ⟨fun hx => ?_, fun hx => ?_⟩⟩
    · obtain ⟨j, hj⟩ := (unclosed_take_iff_encloses hs hp.2).1 hx
      rcases Nat.lt_or_eq_of_le (hlast x j hj) with hxi | rfl
      · have hle := hj.1.nested hi hxi (Nat.lt_trans hip hj.2.2)
        exact hj.1.unclosed_take (Nat.lt_trans hxi hi.lt) (Nat.le_of_lt hle)
      · exact hi.unclosed_take hi.lt (Nat.le_refl q)
    · obtain ⟨j, hj, hxq, hqj⟩ := (unclosed_take_iff hs).1 hx
      have hxp : x < p := by
        refine Nat.lt_of_le_of_ne (Nat.not_lt.1 fun hpx => ?_) fun heq => hp.1 (heq ▸ hj.opens)
        exact Nat.not_lt.2 hqj (hi.nested hj (Nat.lt_trans hip hpx) hxq)
      exact hj.unclosed_take hxp (Nat.le_trans (Nat.le_of_lt hlt) hqj)
  · rintro ⟨hclose, hsame⟩
    cases before with
    | nil => exact absurd rfl hne
    | cons i outer =>
      have hiq := hopen.last.1.lt_of_take
      have hip := ((hsame i).2 hopen.last.1).lt_of_take.1
      refine ⟨i, ⟨⟨hiq.2, hclose, hiq.1, hopen.matched_drop⟩, hip, hlt⟩, fun i' j' hi' => ?_⟩
      exact hopen.last.2 i' ((hsame i').1 ((unclosed_take_iff_encloses hs hp.2).2 ⟨j', hi'⟩))

end Closed

end Pattern
end Regular
