import Mathlib.Data.List.Sort
import Regular.Automaton.Unordered
import Regular.Proofs.Simulation
/-!
# Unordered — a run does not depend on the order of its sets

A closure is the ascending list of the states that it reaches, so it depends on the members of the set it starts from
and not on their order (`closure_congr`).  Hence a run has one outcome whichever orders its sets come up in, and on
every automaton without dangling edges that outcome is what paths say (`acceptsIn?_of_isClosed`).
-/
namespace Regular
namespace Automaton

variable {a : Automaton}

/-- **Two lists of the same states have the same closure.** -/
theorem closure_congr (hedge : ∀ {p q}, a.HasEdge p none q → q < a.size) {ids ids' : List Nat}
    (hids : ∀ id ∈ ids, id < a.size) (hmem : ∀ id, id ∈ ids ↔ id ∈ ids') : a.closure ids = a.closure ids' := by
  obtain ⟨out, hout, hiff⟩ := closure_of_lt hedge hids
  obtain ⟨out', hout', hiff'⟩ := closure_of_lt hedge fun id hid => hids id ((hmem id).2 hid)
  have hsame : out = out' := (pairwise_of_closure hout).eq_of_mem_iff (pairwise_of_closure hout') fun q => by
    rw [hiff, hiff']
    simp only [hmem]
  rw [hout, hout', hsame]

theorem advanceIn_of_isClosed (h : a.IsClosed) (orders : Orders) (active : List Nat) (position : Nat) (c : Char) :
    a.advanceIn orders active position c = a.advance active c := by
  have hleft : ∀ id, id ∈ (orders.arrange (2 * position) active).flatMap (a.targets c) ↔
      id ∈ active.flatMap (a.targets c) := fun id => by
    simp only [List.mem_flatMap, orders.mem_arrange]
  refine closure_congr h.target_lt (fun id hid => ?_) fun id => by rw [orders.mem_arrange, hleft]
  obtain ⟨p, -, hp⟩ := List.mem_flatMap.1 (orders.mem_arrange.1 hid)
  exact h.target_lt (mem_targets.1 hp)

theorem runFromIn_of_isClosed (h : a.IsClosed) (orders : Orders) : ∀ (cs : List Char) (active : List Nat)
    (position : Nat), a.runFromIn orders active position cs = a.runFrom active position cs
  | [], _, _ => rfl
  | c :: cs, active, position => by
    rw [runFromIn, runFrom, advanceIn_of_isClosed h]
    cases a.advance active c with
    | none => rfl
    | some next =>
      -- each function has its own match on what the rest of the run gives, so that is told apart first
      have hrest := runFromIn_of_isClosed h orders cs next (position + 1)
      cases hrun : a.runFrom next (position + 1) cs with
      | none => simp only [hrest, hrun]
      | some result => simp only [hrest, hrun]

theorem runIn_of_isClosed (h : a.IsClosed) (orders : Orders) (w : List Char) : a.runIn orders w = a.run w := by
  rw [runIn, run]
  cases a.initial with
  | none => rfl
  | some active => exact runFromIn_of_isClosed h orders w active 0

/-- **A run on any automaton without dangling edges ends with the verdict whether a path spells the word**, whatever its
labels, edges and loops are, and in whichever orders its sets of states come up. -/
theorem acceptsIn?_of_isClosed (h : a.IsClosed) (w : List Char) : ∃ verdict, a.accepts? w = some verdict ∧
    (verdict = true ↔ a.Accepts w) ∧ ∀ orders, a.acceptsIn? orders w = some verdict := by
  obtain ⟨verdict, hverdict, hiff⟩ := accepts?_of_isClosed h w
  refine ⟨verdict, hverdict, hiff, fun orders => ?_⟩
  rw [acceptsIn?, runIn_of_isClosed h orders]
  exact hverdict

theorem acceptsIn?_of_isClosed_looped : ∃ a : Automaton,
    a = ⟨#[.silent [1, 0], ⟨some 'a', [0, 2]⟩, .silent [2, 1]], 0, 2⟩ ∧ a.IsClosed ∧ a.Accepts ['a', 'a'] ∧
      a.accepts? ['a', 'a'] = some true ∧ ∀ orders, a.acceptsIn? orders ['a', 'a'] = some true := by
  have h : (⟨#[.silent [1, 0], ⟨some 'a', [0, 2]⟩, .silent [2, 1]], 0, 2⟩ : Automaton).IsClosed := by decide
  obtain ⟨verdict, hverdict, hiff, horders⟩ := acceptsIn?_of_isClosed h ['a', 'a']
  have hpath : Accepts ⟨#[.silent [1, 0], ⟨some 'a', [0, 2]⟩, .silent [2, 1]], 0, 2⟩ ['a', 'a'] :=
    .silent ⟨_, rfl, rfl, List.mem_cons_self⟩ <| .consume (q := 2) ⟨_, rfl, rfl, by decide⟩ <|
      .silent (q := 1) ⟨_, rfl, rfl, by decide⟩ <| .consume ⟨_, rfl, rfl, by decide⟩ <| .refl 2
  rw [hiff.2 hpath] at hverdict horders
  exact ⟨_, rfl, h, hpath, hverdict, horders⟩

end Automaton
end Regular
