import Mathlib.Data.Bool.Count
import Mathlib.Data.List.Perm.Subperm
import Regular.Proofs.Unordered
/-!
# Rounds — the search for silent edges ends, whatever it takes next

A round turns one pending state into marks, so the marks still missing and the pending states together become one less
(`Round.count`): a search has no more rounds than the automaton has states.  Rounds keep the invariant of the work list
(`Round.explored`), which does not depend on the order of that list, so as long as a state is pending there is another
round (`Explored.exists_round`), and when none is, the marks are the closure (`SearchAfter.marked_eq`).  Each state is
then marked and left once, so the rounds of a whole search are as many as the states of the closure
(`SearchAfter.pending_eq_nil_iff`).
-/
namespace Regular
namespace Automaton

/-- The states form the least collection with the given ones in it that no silent edge leads out of. -/
structure IsLeastClosed (a : Automaton) (ids out : List Nat) : Prop where
  given : ∀ p ∈ ids, p ∈ out
  closed : ∀ p q, p ∈ out → a.HasEdge p none q → q ∈ out
  least : ∀ P : Nat → Prop, (∀ p ∈ ids, P p) → (∀ p q, P p → a.HasEdge p none q → P q) → ∀ q ∈ out, P q

variable {a : Automaton} {ids out : List Nat} {s t : Search} {n : Nat}

theorem Drift.closed {P : Nat → Prop} (hclosed : ∀ p q, P p → a.HasEdge p none q → P q) {p q : Nat} (hd : a.Drift p q)
    (hp : P p) : P q := by
  induction hd with
  | refl => exact hp
  | silent edge _ ih => exact ih (hclosed _ _ hp edge)

theorem isLeastClosed_of_mem_iff (h : ∀ q, q ∈ out ↔ ∃ p ∈ ids, a.Drift p q) : a.IsLeastClosed ids out where
  given p hp := (h p).2 ⟨p, hp, .refl p⟩
  closed p q hp hedge := by
    obtain ⟨r, hr, hd⟩ := (h p).1 hp
    exact (h q).2 ⟨r, hr, hd.snoc hedge⟩
  least P hgiven hclosed q hq := by
    obtain ⟨p, hp, hd⟩ := (h q).1 hq
    exact hd.closed hclosed (hgiven p hp)

/-- **A number that no state has makes the closure fail**, and nothing else does. -/
theorem closure_eq_none_iff (hedge : ∀ p q, a.HasEdge p none q → q < a.size) :
    a.closure ids = none ↔ ∃ id ∈ ids, a.size ≤ id := by
  constructor
  · intro h
    by_contra hnone
    have hids : ∀ id ∈ ids, id < a.size := fun id hid => Nat.lt_of_not_le fun hle => hnone ⟨id, hid, hle⟩
    obtain ⟨out, hout, -⟩ := closure_of_lt (hedge _ _) hids
    cases h.symm.trans hout
  · rintro ⟨id, hid, hle⟩
    unfold closure
    split
    · rfl
    · rename_i marks pending hmark
      obtain ⟨hsize, hids, -⟩ := markFresh_eq_some hmark
      have hlt := ((hids id).2 (.inl hid)).lt_size
      rw [hsize, Array.size_replicate] at hlt
      omega

/-! ## What a round keeps -/

theorem Explored.of_perm {marks : Array Bool} {pending pending' : List Nat} (h : Explored a ids marks pending)
    (hp : pending.Perm pending') : Explored a ids marks pending' :=
  ⟨h.size_eq, h.drift, h.begun, fun i hi => h.marked i (hp.mem_iff.2 hi),
    fun {_ _} hi hedge => (h.left hi hedge).imp_left hp.mem_iff.1⟩

theorem Round.explored (hround : a.Round s t) (h : Explored a ids s.marks s.pending) :
    Explored a ids t.marks t.pending := by
  cases hround with
  | stay take state labeled => exact (h.of_perm take).skip state labeled
  | leave take state silent mark put => exact ((h.of_perm take).leave state silent mark).of_perm put

/-- **A round makes what is left to do one less**, counted in marks still missing and pending states. -/
theorem Round.count (hround : a.Round s t) :
    t.marks.count false + t.pending.length + 1 = s.marks.count false + s.pending.length := by
  cases hround with
  | stay take => rw [take.length_eq, List.length_cons, Nat.add_assoc]
  | leave take _ _ mark put =>
    have hmark := length_markFresh mark
    simp only [take.length_eq, ← put.length_eq, List.length_append, List.length_cons]
    omega

/-- **As long as a state is pending, a round can be made.** -/
theorem Explored.exists_round (hedge : ∀ p q, a.HasEdge p none q → q < a.size) (h : Explored a ids s.marks s.pending)
    (hpending : s.pending ≠ []) : ∃ t, a.Round s t := by
  obtain ⟨marks, pending⟩ := s
  obtain ⟨id, rest, rfl⟩ := List.exists_cons_of_ne_nil hpending
  have hlt : id < a.size := h.lt_size
  have hstate := state?_eq_some hlt
  by_cases hl : (a.states[id]).label.isSome
  · exact ⟨_, .stay (.refl _) hstate hl⟩
  · obtain ⟨⟨marks', fresh⟩, hmark⟩ := Option.isSome_iff_exists.1 (h.markFresh_isSome (hedge _ _) hstate hl)
    exact ⟨_, .leave (.refl _) hstate hl hmark (.refl _)⟩

/-! ## Whole searches -/

namespace SearchAfter

theorem explored (h : a.SearchAfter ids n s) : Explored a ids s.marks s.pending := by
  induction h with
  | begin mark put => exact (explored_begin mark).of_perm put
  | round _ hround ih => exact hround.explored ih

/-- The rounds made and what is left to do add up to the number of states. -/
theorem count (h : a.SearchAfter ids n s) : s.marks.count false + s.pending.length + n = a.size := by
  induction h with
  | begin mark put =>
    have hmark := length_markFresh mark
    rw [Array.count_replicate_self] at hmark
    rw [← put.length_eq]
    exact hmark
  | round _ hround ih =>
    have := hround.count
    omega

end SearchAfter

theorem length_filter_range : ∀ bs : List Bool,
    ((List.range bs.length).filter fun i => bs[i]? == some true).length = bs.count true
  | [] => rfl
  | b :: bs => by
    have ih := length_filter_range bs
    rw [List.length_cons, List.range_succ_eq_map, List.filter_cons, List.filter_map]
    cases b <;> simpa [Function.comp_def] using ih

theorem length_marked (marks : Array Bool) : (marked marks).length + marks.count false = marks.size := by
  have hcount : (marked marks).length = marks.toList.count true := by
    rw [← length_filter_range, marked]
    simp only [Array.length_toList, Array.getElem?_toList]
  rw [hcount, ← Array.count_toList, List.count_true_add_count_false, Array.length_toList]

theorem mem_of_closure (hedge : ∀ p q, a.HasEdge p none q → q < a.size) (h : a.closure ids = some out) (q : Nat) :
    q ∈ out ↔ ∃ p ∈ ids, a.Drift p q := by
  have hids : ∀ id ∈ ids, id < a.size := fun id hid => Nat.lt_of_not_le fun hle => by
    cases h.symm.trans ((closure_eq_none_iff hedge).2 ⟨id, hid, hle⟩)
  obtain ⟨out', hout', hmem⟩ := closure_of_lt (hedge _ _) hids
  cases h.symm.trans hout'
  exact hmem q

namespace SearchAfter

/-- **Each marked state is left in one round**: the marked states are as many as the rounds made and the states pending. -/
theorem length_marked (h : a.SearchAfter ids n s) : (marked s.marks).length = n + s.pending.length := by
  have hcount := h.count
  have hmarked := Automaton.length_marked s.marks
  rw [h.explored.size_eq] at hmarked
  omega

variable (hedge : ∀ p q, a.HasEdge p none q → q < a.size) (hout : a.closure ids = some out)
include hedge hout

theorem length_marked_le (h : a.SearchAfter ids n s) : (marked s.marks).length ≤ out.length := by
  have hsub : marked s.marks ⊆ out := fun q hq =>
    (mem_of_closure hedge hout q).2 (h.explored.drift (mem_marked.1 hq))
  have hnodup : (marked s.marks).Nodup := (pairwise_marked s.marks).imp Nat.ne_of_lt
  exact (List.Nodup.subperm hnodup hsub).length_le

/-- **A search that has nothing pending has marked the closure.** -/
theorem marked_eq (h : a.SearchAfter ids n s) (hpending : s.pending = []) : marked s.marks = out := by
  have hdone := h.explored
  rw [hpending] at hdone
  refine (pairwise_marked s.marks).eq_of_mem_iff (pairwise_of_closure hout) fun q => ?_
  rw [mem_marked_of_explored hdone, mem_of_closure hedge hout]

/-- **A search is at its end after as many rounds as the closure has states**, and not before. -/
theorem pending_eq_nil_iff (h : a.SearchAfter ids n s) : s.pending = [] ↔ n = out.length := by
  have hlen := h.length_marked
  have hle := h.length_marked_le hedge hout
  constructor
  · intro hpending
    rw [h.marked_eq hedge hout hpending, hpending] at hlen
    exact hlen.symm
  · intro hn
    exact List.length_eq_zero_iff.1 (by omega)

theorem exists_after : ∀ n ≤ out.length, ∃ s, a.SearchAfter ids n s
  | 0, _ => by
    cases hmark : markFresh (Array.replicate a.size false) ids with
    | none =>
      rw [closure, hmark] at hout
      cases hout
    | some start => exact ⟨_, .begin hmark (.refl _)⟩
  | n + 1, hn => by
    obtain ⟨s, h⟩ := exists_after n (Nat.le_of_succ_le hn)
    -- A search with nothing pending has made as many rounds as the closure has states, and this one has made fewer.
    have hpending : s.pending ≠ [] := fun hnil => by
      have := (h.pending_eq_nil_iff hedge hout).1 hnil
      omega
    obtain ⟨t, hround⟩ := h.explored.exists_round hedge hpending
    exact ⟨t, h.round hround⟩

end SearchAfter

/-- **The closure is what silent edges lead to, on every graph and in every order.**  Labels, loops and dangling labeled
edges do not matter: the closure fails exactly if one of the given numbers is no state; otherwise it has, each once, the
states that silent edges lead to from the given ones, which are the least collection that no silent edge leads out of,
and in whichever order the given ones come, it is the same.  A search that takes its pending states in any order makes
no more rounds than the closure has states: before that it can go on, and then it has nothing pending and has marked the
closure. -/
theorem isLeastClosed_of_closure (a : Automaton) (hedge : ∀ p q, a.HasEdge p none q → q < a.size) (ids : List Nat) :
    (a.closure ids = none ↔ ∃ id ∈ ids, a.size ≤ id) ∧
    ((∀ id ∈ ids, id < a.size) → ∃ out, a.closure ids = some out ∧ out.Nodup ∧ (∀ q, q ∈ out ↔ ∃ p ∈ ids, a.Drift p q) ∧
      a.IsLeastClosed ids out ∧ (∀ ids', (∀ id, id ∈ ids ↔ id ∈ ids') → a.closure ids' = some out) ∧
      (∃ s, a.SearchAfter ids out.length s) ∧ ∀ n s, a.SearchAfter ids n s →
        n ≤ out.length ∧ (n < out.length → ∃ t, a.Round s t) ∧
          (n = out.length → s.pending = [] ∧ marked s.marks = out)) := by
  refine ⟨closure_eq_none_iff hedge, fun hids => ?_⟩
  obtain ⟨out, hout, hmem⟩ := closure_of_lt (hedge _ _) hids
  refine ⟨out, hout, nodup_of_closure hout, hmem, isLeastClosed_of_mem_iff hmem, fun ids' hsame => ?_,
    SearchAfter.exists_after hedge hout _ (Nat.le_refl _), fun n s h => ?_⟩
  · rw [← closure_congr (hedge _ _) hids hsame, hout]
  · have hend := h.pending_eq_nil_iff hedge hout
    have hle : n ≤ out.length := Nat.le_trans (h.length_marked ▸ Nat.le_add_right n _) (h.length_marked_le hedge hout)
    exact ⟨hle, fun hlt => h.explored.exists_round hedge fun hnil => Nat.ne_of_lt hlt (hend.1 hnil),
      fun heq => ⟨hend.2 heq, h.marked_eq hedge hout (hend.2 heq)⟩⟩

theorem isLeastClosed_of_closure_looped : ∃ a : Automaton,
    a = ⟨#[.silent [1], .silent [0, 2], .consuming 'a' 0, .silent [3]], 0, 2⟩ ∧
      (∀ p q, a.HasEdge p none q → q < a.size) ∧ a.closure [1, 4] = none ∧ a.closure [1, 0] = some [0, 1, 2] ∧
      a.IsLeastClosed [1, 0] [0, 1, 2] ∧ a.closure [0, 1, 0] = some [0, 1, 2] ∧
      ∀ n s, a.SearchAfter [1, 0] n s → n ≤ 3 := by
  have h : (⟨#[.silent [1], .silent [0, 2], .consuming 'a' 0, .silent [3]], 0, 2⟩ : Automaton).IsClosed := by decide
  have hclosure : (⟨#[.silent [1], .silent [0, 2], .consuming 'a' 0, .silent [3]], 0, 2⟩ : Automaton).closure [1, 0] =
      some [0, 1, 2] := by cbv
  have hfails := (isLeastClosed_of_closure _ (fun _ _ => h.target_lt) [1, 4]).1
  obtain ⟨out, hout, -, -, hleast, horder, -, hends⟩ :=
    (isLeastClosed_of_closure _ (fun _ _ => h.target_lt) [1, 0]).2 (by decide)
  cases hclosure.symm.trans hout
  exact ⟨_, rfl, fun _ _ => h.target_lt, hfails.2 ⟨4, by decide, by decide⟩, hclosure, hleast,
    horder [0, 1, 0] (by simp [or_comm]), fun n s hs => (hends n s hs).1⟩

end Automaton
end Regular
