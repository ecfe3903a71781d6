import Regular.Proofs.Layout
import Regular.Automaton.Path
/-!
# Placement — a block inside a larger automaton

What is true of an expression's states is said of any automaton that holds its block at some base, whatever else the
automaton has and wherever the exit is wired to.  The lemmas take the block of an expression apart into the blocks of
its operands and its own two states.
-/
namespace Regular
namespace Automaton

/-- The states from a base on are the given ones. -/
def Holds (a : Automaton) (base : Nat) (states : List State) : Prop :=
  ∃ pre post, a.states.toList = pre ++ (states ++ post) ∧ pre.length = base

variable {a : Automaton} {base : Nat} {out : List Nat}

theorem Holds.left {xs ys : List State} (h : a.Holds base (xs ++ ys)) : a.Holds base xs := by
  obtain ⟨pre, post, hs, hb⟩ := h
  exact ⟨pre, ys ++ post, by rw [hs, List.append_assoc], hb⟩

theorem Holds.right {xs ys : List State} (h : a.Holds base (xs ++ ys)) : a.Holds (base + xs.length) ys := by
  obtain ⟨pre, post, hs, hb⟩ := h
  refine ⟨pre ++ xs, post, by rw [hs, List.append_assoc, List.append_assoc], by rw [List.length_append, hb]⟩

theorem Holds.state? {states : List State} (h : a.Holds base states) (i : Nat) (hi : i < states.length) :
    a.state? (base + i) = states[i]? := by
  obtain ⟨pre, post, hs, hb⟩ := h
  rw [Automaton.state?, ← Array.getElem?_toList, hs, List.getElem?_append_right (by omega), ← hb,
    Nat.add_sub_cancel_left, List.getElem?_append_left hi]

theorem Holds.pair {s t : State} (h : a.Holds base [s, t]) : a.state? base = some s ∧ a.state? (base + 1) = some t :=
  ⟨h.state? 0 Nat.zero_lt_two, h.state? 1 Nat.one_lt_two⟩

/-! ## The blocks of an expression's operands -/

theorem holds_automaton (e : Expr) : e.automaton.Holds 0 (e.block 0 []) :=
  ⟨[], [], by simp [Expr.automaton], rfl⟩

theorem holds_literal {c : Char} (h : a.Holds base ((Expr.literal c).block base out)) :
    a.state? base = some (.silent out) ∧ a.state? (base + 1) = some (.consuming c base) :=
  h.pair

theorem holds_quantified {e : Expr} {q : Quantifier} (h : a.Holds base ((Expr.quantified e q).block base out)) :
    a.Holds base (e.block base (q.exitEdges (base + e.entry) (base + e.size))) ∧
      a.state? (base + (Expr.quantified e q).exit) = some (.silent out) ∧
      a.state? (base + (Expr.quantified e q).entry) =
        some (.silent (q.entryEdges (base + e.entry) (base + e.size))) := by
  have hown := h.right.pair
  rw [Expr.length_block] at hown
  exact ⟨h.left, hown⟩

theorem holds_concat {left right : Expr} (h : a.Holds base ((Expr.connected left right .concat).block base out)) :
    a.Holds base (left.block base [base + left.size + right.entry]) ∧
      a.Holds (base + left.size) (right.block (base + left.size) out) := by
  have hright := h.right
  rw [Expr.length_block] at hright
  exact ⟨h.left, hright⟩

theorem holds_alternate {left right : Expr} (h : a.Holds base ((Expr.connected left right .alternate).block base out)) :
    a.Holds base (left.block base [base + (Expr.connected left right .alternate).exit]) ∧
      a.Holds (base + left.size)
        (right.block (base + left.size) [base + (Expr.connected left right .alternate).exit]) ∧
      a.state? (base + (Expr.connected left right .alternate).exit) = some (.silent out) ∧
      a.state? (base + (Expr.connected left right .alternate).entry) =
        some (.silent [base + left.entry, base + left.size + right.entry]) := by
  have hexit : base + left.size + right.size = base + (Expr.connected left right .alternate).exit := Nat.add_assoc _ _ _
  rw [Expr.block, hexit] at h
  have hright := h.right
  rw [Expr.length_block] at hright
  have hown := hright.right.pair
  rw [Expr.length_block, hexit] at hown
  exact ⟨h.left, hright.left, hown⟩

theorem state?_exit {e : Expr} (h : a.Holds base (e.block base out)) :
    a.state? (base + e.exit) = some (.silent out) := by
  rw [h.state? e.exit (by rw [Expr.length_block]; exact e.exit_lt_size), e.getElem?_block_exit]

/-! ## The edges of a known state -/

theorem hasEdge_silent {p q : Nat} {ids : List Nat} {label : Option Char} (h : a.state? p = some (.silent ids)) :
    a.HasEdge p label q ↔ label = none ∧ q ∈ ids := by
  constructor
  · rintro ⟨s, hs, hl, hq⟩
    rw [h] at hs
    cases hs
    exact ⟨hl.symm, hq⟩
  · rintro ⟨rfl, hq⟩
    exact ⟨_, h, rfl, hq⟩

theorem hasEdge_consuming {p q target : Nat} {c : Char} {label : Option Char}
    (h : a.state? p = some (.consuming c target)) : a.HasEdge p label q ↔ label = some c ∧ q = target := by
  constructor
  · rintro ⟨s, hs, hl, hq⟩
    rw [h] at hs
    cases hs
    exact ⟨hl.symm, List.mem_singleton.1 hq⟩
  · rintro ⟨rfl, rfl⟩
    exact ⟨_, h, rfl, List.mem_singleton.2 rfl⟩

end Automaton
end Regular
