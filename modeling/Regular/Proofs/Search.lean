import Mathlib.Data.List.TakeDrop
import Regular.Proofs.Shape
import Regular.Proofs.Simulation
/-!
# Search — the stretch of a text that is found

A search tries every start from the left, and from each start it reads on until the accepting state is active: so it
finds the leftmost stretch that is accepted, and of those with the same start the shortest (`find?_of_isClosed`).  Where
it gives up a start, either the text has ended or no state is active; in both cases no longer stretch from there is
accepted (`shortest_of_tracks`).
-/
namespace Regular

/-- The stretch is accepted as a word of its own, and neither a stretch that starts before it nor a shorter one that
starts with it is. -/
structure Span.IsFirst (span : Span) (a : Automaton) (text : List Char) : Prop where
  start_le : span.start ≤ span.stop
  stop_le : span.stop ≤ text.length
  accepted : a.accepts? (text.extract span.start span.stop) = some true
  leftmost : ∀ start stop, start < span.start → start ≤ stop → stop ≤ text.length →
    a.accepts? (text.extract start stop) = some false
  shortest : ∀ stop, span.start ≤ stop → stop < span.stop → a.accepts? (text.extract span.start stop) = some false

namespace Automaton
variable {a : Automaton}

/-! ## From one start -/

/-- The length of the shortest beginning of the text that makes the word before it an accepted one; none if there is no
such beginning. -/
def IsNearest (a : Automaton) (u text : List Char) : Option Nat → Prop
  | none => ∀ m ≤ text.length, ¬a.Accepts (u ++ text.take m)
  | some n => n ≤ text.length ∧ a.Accepts (u ++ text.take n) ∧ ∀ m < n, ¬a.Accepts (u ++ text.take m)

theorem isNearest_zero {u : List Char} (h : a.Accepts u) (text : List Char) : a.IsNearest u text (some 0) := by
  refine ⟨Nat.zero_le _, ?_, fun m hm => absurd hm (Nat.not_lt_zero m)⟩
  rwa [List.take_zero, List.append_nil]

theorem isNearest_nil {u : List Char} (h : ¬a.Accepts u) : a.IsNearest u [] none := fun m _ => by
  rwa [List.take_nil, List.append_nil]

/-- A word that is not accepted has to go on with the first character of the text. -/
theorem IsNearest.cons {u cs : List Char} {c : Char} (h : ¬a.Accepts u) : ∀ {found : Option Nat},
    a.IsNearest (u ++ [c]) cs found → a.IsNearest u (c :: cs) (found.map (· + 1))
  | none, hrest => fun m hm => by
    cases m with
    | zero => rwa [List.take_zero, List.append_nil]
    | succ m =>
      have := hrest m (Nat.le_of_succ_le_succ hm)
      rwa [List.append_assoc] at this
  | some n, ⟨hle, haccepts, hbefore⟩ => by
    rw [List.append_assoc] at haccepts
    refine ⟨Nat.succ_le_succ hle, haccepts, fun m hm => ?_⟩
    cases m with
    | zero => rwa [List.take_zero, List.append_nil]
    | succ m =>
      have := hbefore m (Nat.lt_of_succ_lt_succ hm)
      rwa [List.append_assoc] at this

/-- **Reading on from the states of a word finds the nearest end**, and gives up only if there is none. -/
theorem shortest_of_tracks (h : a.IsClosed) : ∀ (text : List Char) {u : List Char} {active : List Nat},
    a.Tracks u active → ∃ found, a.shortest active text = some found ∧ a.IsNearest u text found
  | [], u, active, ht => by
    rw [shortest]
    split
    · rename_i haccept
      exact ⟨_, rfl, isNearest_zero (ht.contains_accept.1 haccept) []⟩
    · rename_i haccept
      exact ⟨_, rfl, isNearest_nil (mt ht.contains_accept.2 haccept)⟩
  | c :: cs, u, active, ht => by
    rw [shortest]
    split
    · rename_i haccept
      exact ⟨_, rfl, isNearest_zero (ht.contains_accept.1 haccept) (c :: cs)⟩
    rename_i haccept
    split
    · rename_i hempty
      have hnot : ¬a.Readable u := ht.eq_nil_iff.1 (List.isEmpty_iff.1 hempty)
      exact ⟨none, rfl, fun m _ => not_accepts_of_not_readable hnot _⟩
    · obtain ⟨next, hnext, ht'⟩ := ht.advance h c
      obtain ⟨found, hfound, hnearest⟩ := shortest_of_tracks h cs ht'
      rw [hnext]
      simp only [hfound]
      exact ⟨_, rfl, hnearest.cons (mt ht.contains_accept.2 haccept)⟩

/-! ## From every start -/

/-- The first stretch in a text that begins at a position of a longer one: how many starts are passed, from none of
which a stretch is accepted, and how long the nearest one from the next start is. -/
def IsFound (a : Automaton) (text : List Char) (position : Nat) : Option Span → Prop
  | none => ∀ s ≤ text.length, a.IsNearest [] (text.drop s) none
  | some span => ∃ s n, span = ⟨position + s, position + s + n⟩ ∧ s ≤ text.length ∧
      a.IsNearest [] (text.drop s) (some n) ∧ ∀ s' < s, a.IsNearest [] (text.drop s') none

theorem isFound_of_isNearest {text : List Char} {n : Nat} (h : a.IsNearest [] text (some n)) (position : Nat) :
    a.IsFound text position (some ⟨position, position + n⟩) :=
  ⟨0, n, rfl, Nat.zero_le _, h, fun s hs => absurd hs (Nat.not_lt_zero s)⟩

theorem IsFound.cons {cs : List Char} {c : Char} {position : Nat} (h : a.IsNearest [] (c :: cs) none) :
    ∀ {found : Option Span}, a.IsFound cs (position + 1) found → a.IsFound (c :: cs) position found
  | none, hrest => fun s hs => by
    cases s with
    | zero => exact h
    | succ s => exact hrest s (Nat.le_of_succ_le_succ hs)
  | some span, ⟨s, n, hspan, hle, hnearest, hbefore⟩ => by
    refine ⟨s + 1, n, ?_, Nat.succ_le_succ hle, hnearest, fun s' hs' => ?_⟩
    · rw [hspan, Nat.add_right_comm position 1 s, Nat.add_assoc position s 1]
    · cases s' with
      | zero => exact h
      | succ s' => exact hbefore s' (Nat.lt_of_succ_lt_succ hs')

theorem findFrom_of_tracks (h : a.IsClosed) {active : List Nat} (ht : a.Tracks [] active) : ∀ (text : List Char)
    (position : Nat), ∃ found, a.findFrom active position text = some found ∧ a.IsFound text position found
  | [], position => by
    obtain ⟨found, hfound, hnearest⟩ := shortest_of_tracks h [] ht
    rw [findFrom, hfound]
    cases found with
    | none => exact ⟨none, rfl, fun s _ => by rwa [List.drop_nil]⟩
    | some n => exact ⟨_, rfl, isFound_of_isNearest hnearest position⟩
  | c :: cs, position => by
    obtain ⟨found, hfound, hnearest⟩ := shortest_of_tracks h (c :: cs) ht
    rw [findFrom, hfound]
    cases found with
    | none =>
      obtain ⟨later, hlater, hrest⟩ := findFrom_of_tracks h ht cs (position + 1)
      exact ⟨later, hlater, IsFound.cons hnearest hrest⟩
    | some n => exact ⟨_, rfl, isFound_of_isNearest hnearest position⟩

/-! ## The whole text -/

theorem IsFound.isFirst (h : a.IsClosed) {text : List Char} {span : Span} (hfound : a.IsFound text 0 (some span)) :
    span.IsFirst a text := by
  obtain ⟨s, n, hspan, hle, ⟨hlen, haccepts, hshorter⟩, hbefore⟩ := hfound
  rw [Nat.zero_add] at hspan
  subst hspan
  rw [List.length_drop] at hlen
  refine ⟨Nat.le_add_right s n, ?_, ?_, fun start stop hstart _ hstop => ?_, fun stop hstart hstop => ?_⟩
  · show s + n ≤ text.length
    omega
  · rw [accepts?_eq_true_iff h, List.extract_eq_take_drop, Nat.add_sub_cancel_left]
    exact haccepts
  · rw [accepts?_eq_false_iff h, List.extract_eq_take_drop]
    exact hbefore start hstart (stop - start) (by rw [List.length_drop]; omega)
  · rw [accepts?_eq_false_iff h, List.extract_eq_take_drop]
    exact hshorter (stop - s) (Nat.sub_lt_left_of_lt_add hstart hstop)

theorem isFound_none_iff (h : a.IsClosed) {text : List Char} : a.IsFound text 0 none ↔
    ∀ start stop, start ≤ stop → stop ≤ text.length → a.accepts? (text.extract start stop) = some false := by
  constructor
  · intro hnone start stop hstart hstop
    rw [accepts?_eq_false_iff h, List.extract_eq_take_drop]
    exact hnone start (Nat.le_trans hstart hstop) (stop - start) (by rw [List.length_drop]; omega)
  · intro hall s hs m hm
    rw [List.length_drop] at hm
    have := (accepts?_eq_false_iff h).1 (hall s (s + m) (Nat.le_add_right s m) (by omega))
    rwa [List.extract_eq_take_drop, Nat.add_sub_cancel_left] at this

/-- **A search finds the leftmost stretch that is accepted, and of those with its start the shortest**; it finds none
exactly if no stretch of the text is accepted, the empty ones included. -/
theorem find?_of_isClosed (h : a.IsClosed) (text : List Char) : ∃ found, a.find? text = some found ∧
    (∀ span, found = some span → span.IsFirst a text) ∧
      (found = none ↔ ∀ start stop, start ≤ stop → stop ≤ text.length →
        a.accepts? (text.extract start stop) = some false) := by
  obtain ⟨active, hactive, ht⟩ := initial_of_isClosed h
  obtain ⟨found, hfound, hfirst⟩ := findFrom_of_tracks h ht text 0
  rw [find?, hactive]
  refine ⟨found, hfound, fun span hspan => ?_, ?_⟩
  · rw [hspan] at hfirst
    exact hfirst.isFirst h
  · cases found with
    | none => exact ⟨fun _ => (isFound_none_iff h).1 hfirst, fun _ => rfl⟩
    | some span =>
      have hspan : span.IsFirst a text := hfirst.isFirst h
      refine ⟨nofun, fun hall => ?_⟩
      have hrejected := hall _ _ hspan.start_le hspan.stop_le
      rw [hspan.accepted] at hrejected
      cases hrejected

theorem find?_of_isClosed_repeated : ∃ a, Construction.build none [.literal 'a', .literal 'b', .quantifier .plus,
    .connective .concat] = .ok a ∧ a.IsClosed ∧ a.find? ['x', 'a', 'b', 'b'] = some (some ⟨1, 3⟩) ∧
      (⟨1, 3⟩ : Span).IsFirst a ['x', 'a', 'b', 'b'] := by
  have h : Construction.build none [.literal 'a', .literal 'b', .quantifier .plus, .connective .concat] =
      .ok ⟨#[.silent [5], .consuming 'a' 0, .silent [3, 4], .consuming 'b' 2, .silent [], .silent [3]], 1, 4⟩ := rfl
  have hclosed := Construction.isClosed_of_build h
  have hfind : find? ⟨#[.silent [5], .consuming 'a' 0, .silent [3, 4], .consuming 'b' 2, .silent [], .silent [3]], 1, 4⟩
      ['x', 'a', 'b', 'b'] = some (some ⟨1, 3⟩) := by cbv
  obtain ⟨found, hfound, hfirst, -⟩ := find?_of_isClosed hclosed ['x', 'a', 'b', 'b']
  rw [hfind] at hfound
  exact ⟨_, h, hclosed, hfind, hfirst _ (Option.some.inj hfound).symm⟩

end Automaton
end Regular
