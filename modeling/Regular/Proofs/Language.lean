import Regular.Proofs.Shape
import Regular.Proofs.Simulation
/-!
# Language — an automaton accepts what its expression denotes

A path into the block of an expression, to a state beyond it, reads a word of the expression up to the exit and goes on
from there (`walk_through`), whatever the exit is wired to: so the lemma serves an operand inside a loop as well as the
whole pattern.  A loop passes its operand's exit more than once, and the number of edges still to go is what becomes
smaller each time.
-/
namespace Regular

/-! ## Repetitions -/

/-- How many words of the operand a quantifier allows in a row. -/
def Quantifier.Admits : Quantifier → Nat → Prop
  | .optional, n => n ≤ 1
  | .plus, n => 0 < n
  | .star, _ => True

theorem Quantifier.admits_zero_iff {q : Quantifier} : q.Admits 0 ↔ q ≠ .plus := by
  cases q <;> simp [Admits]

theorem Quantifier.admits_succ_iff {q : Quantifier} {n : Nat} : q.Admits (n + 1) ↔ q ≠ .optional ∨ n = 0 := by
  cases q <;> simp [Admits]

theorem Expr.denotes_quantified {e : Expr} {q : Quantifier} {w : List Char} : (Expr.quantified e q).Denotes w ↔
    ∃ vs : List (List Char), q.Admits vs.length ∧ w = vs.flatten ∧ ∀ v ∈ vs, e.Denotes v := by
  cases q with
  | optional =>
    constructor
    · rintro (rfl | h)
      · exact ⟨[], Nat.zero_le 1, rfl, List.forall_mem_nil _⟩
      · exact ⟨[w], Nat.le_refl 1, by simp, List.forall_mem_singleton.2 h⟩
    · rintro ⟨vs, hlen, rfl, hall⟩
      rcases vs with _ | ⟨v, _ | ⟨v', vs⟩⟩
      · exact .inl rfl
      · exact .inr (by simpa using hall v List.mem_cons_self)
      · exact absurd hlen (by simp [Quantifier.Admits])
  | plus =>
    constructor
    · rintro ⟨vs, hne, hw, hall⟩
      exact ⟨vs, List.length_pos_iff.2 hne, hw, hall⟩
    · rintro ⟨vs, hlen, hw, hall⟩
      exact ⟨vs, List.length_pos_iff.1 hlen, hw, hall⟩
  | star =>
    constructor
    · rintro ⟨vs, hw, hall⟩
      exact ⟨vs, trivial, hw, hall⟩
    · rintro ⟨vs, -, hw, hall⟩
      exact ⟨vs, hw, hall⟩

namespace Automaton

/-! ## Paths with their number of edges -/

inductive Walk (a : Automaton) : Nat → Nat → List Char → Nat → Prop where
  | refl (p : Nat) : Walk a 0 p [] p
  | silent {n p q r : Nat} {w : List Char} (edge : a.HasEdge p none q) (rest : Walk a n q w r) : Walk a (n + 1) p w r
  | consume {n p q r : Nat} {c : Char} {w : List Char} (edge : a.HasEdge p (some c) q) (rest : Walk a n q w r) :
      Walk a (n + 1) p (c :: w) r

variable {a : Automaton} {base f : Nat} {out : List Nat}

theorem Path.exists_walk {p q : Nat} {w : List Char} (h : a.Path p w q) : ∃ n, a.Walk n p w q := by
  induction h with
  | refl p => exact ⟨0, .refl p⟩
  | silent edge _ ih =>
    obtain ⟨n, hn⟩ := ih
    exact ⟨n + 1, .silent edge hn⟩
  | consume edge _ ih =>
    obtain ⟨n, hn⟩ := ih
    exact ⟨n + 1, .consume edge hn⟩

theorem Walk.leave_silent {n p : Nat} {w : List Char} {ids : List Nat} (h : a.Walk n p w f)
    (hs : a.state? p = some (.silent ids)) (hne : p ≠ f) : ∃ m q, m < n ∧ q ∈ ids ∧ a.Walk m q w f := by
  cases h with
  | refl => exact absurd rfl hne
  | silent edge rest => exact ⟨_, _, Nat.lt_succ_self _, ((hasEdge_silent hs).1 edge).2, rest⟩
  | consume edge rest => cases ((hasEdge_silent hs).1 edge).1

theorem Walk.leave_consuming {n p target : Nat} {c : Char} {w : List Char} (h : a.Walk n p w f)
    (hs : a.state? p = some (.consuming c target)) (hne : p ≠ f) : ∃ m v, m < n ∧ w = c :: v ∧ a.Walk m target v f := by
  cases h with
  | refl => exact absurd rfl hne
  | silent edge rest => cases ((hasEdge_consuming hs).1 edge).1
  | consume edge rest =>
    obtain ⟨hc, rfl⟩ := (hasEdge_consuming hs).1 edge
    cases hc
    exact ⟨_, _, Nat.lt_succ_self _, rfl, rest⟩

/-! ## What a path reads on its way through a block -/

/-- A walk to `f` from the entry of the expression's block reads a word of the expression and then goes on from the
exit, no longer than it was. -/
def Through (a : Automaton) (e : Expr) (base f : Nat) : Prop :=
  ∀ (n : Nat) (w : List Char), a.Walk n (base + e.entry) w f →
    ∃ m u v, m ≤ n ∧ w = u ++ v ∧ e.Denotes u ∧ a.Walk m (base + e.exit) v f

theorem Through.leave {e : Expr} {next n : Nat} {w : List Char} (hthrough : a.Through e base f)
    (hs : a.state? (base + e.exit) = some (.silent [next])) (hne : base + e.exit ≠ f)
    (h : a.Walk n (base + e.entry) w f) : ∃ m u v, m ≤ n ∧ w = u ++ v ∧ e.Denotes u ∧ a.Walk m next v f := by
  obtain ⟨m, u, v, hm, hw, hu, hwalk⟩ := hthrough n w h
  obtain ⟨m', p, hm', hp, hwalk'⟩ := hwalk.leave_silent hs hne
  rw [List.mem_singleton.1 hp] at hwalk'
  exact ⟨m', u, v, by omega, hw, hu, hwalk'⟩

/-- From the exit of a quantified operand a walk may pass through the operand again, any number of times. -/
theorem walk_again {e : Expr} {q : Quantifier} {last : Nat} (hthrough : a.Through e base f)
    (hs : a.state? (base + e.exit) = some (.silent (q.exitEdges (base + e.entry) last))) (hne : base + e.exit ≠ f)
    (n : Nat) {w : List Char} (h : a.Walk n (base + e.exit) w f) : ∃ m vs v, m ≤ n ∧ w = List.flatten vs ++ v ∧
      (∀ u ∈ vs, e.Denotes u) ∧ (q ≠ .optional ∨ vs = []) ∧ a.Walk m last v f := by
  induction n using Nat.strongRecOn generalizing w with
  | ind n ih =>
    obtain ⟨m, p, hm, hp, hwalk⟩ := h.leave_silent hs hne
    rcases Quantifier.mem_exitEdges.1 hp with rfl | ⟨hq, rfl⟩
    · exact ⟨m, [], w, Nat.le_of_lt hm, rfl, List.forall_mem_nil _, .inr rfl, hwalk⟩
    · -- back at the entry, with fewer edges to go
      obtain ⟨m₁, u, v₁, hm₁, rfl, hu, hwalk₁⟩ := hthrough _ _ hwalk
      obtain ⟨m₂, vs, v, hm₂, rfl, hvs, -, hwalk₂⟩ := ih m₁ (by omega) hwalk₁
      exact ⟨m₂, u :: vs, v, by omega, by rw [List.flatten_cons, List.append_assoc], List.forall_mem_cons.2 ⟨hu, hvs⟩,
        .inl hq, hwalk₂⟩

/-- **A walk into a block to a state beyond it passes the exit, and reads a word of the expression before.** -/
theorem walk_through : ∀ (e : Expr) {base : Nat} {out : List Nat}, a.Holds base (e.block base out) →
    (f < base ∨ base + e.size ≤ f ∨ f = base + e.exit) → a.Through e base f
  | .literal c, base, out, h, hf => by
    intro n w hwalk
    simp only [Expr.size, Expr.exit] at hf
    obtain ⟨m, v, hm, rfl, hrest⟩ := hwalk.leave_consuming (holds_literal h).2 (by simp only [Expr.entry]; omega)
    exact ⟨m, [c], v, Nat.le_of_lt hm, rfl, rfl, hrest⟩
  | .quantified e q, base, out, h, hf => by
    intro n w hwalk
    obtain ⟨hin, -, hentry⟩ := holds_quantified h
    have hentry_lt := e.entry_lt_size
    have hexit_lt := e.exit_lt_size
    simp only [Expr.size, Expr.exit] at hf
    have hthrough := walk_through e hin (by omega)
    obtain ⟨m, p, hm, hp, hrest⟩ := hwalk.leave_silent hentry (by simp only [Expr.entry]; omega)
    rcases Quantifier.mem_entryEdges.1 hp with rfl | ⟨hq, rfl⟩
    · obtain ⟨m₁, u, v₁, hm₁, rfl, hu, hwalk₁⟩ := hthrough _ _ hrest
      obtain ⟨m₂, vs, v, hm₂, rfl, hvs, hagain, hwalk₂⟩ := walk_again hthrough (state?_exit hin) (by omega) m₁ hwalk₁
      have hlen : q.Admits (u :: vs).length := Quantifier.admits_succ_iff.2 (hagain.imp_right (congrArg List.length))
      exact ⟨m₂, u ++ vs.flatten, v, by omega, by rw [List.append_assoc],
        Expr.denotes_quantified.2 ⟨u :: vs, hlen, rfl, List.forall_mem_cons.2 ⟨hu, hvs⟩⟩, hwalk₂⟩
    · exact ⟨m, [], w, Nat.le_of_lt hm, rfl,
        Expr.denotes_quantified.2 ⟨[], Quantifier.admits_zero_iff.2 hq, rfl, List.forall_mem_nil _⟩, hrest⟩
  | .connected left right .concat, base, out, h, hf => by
    intro n w hwalk
    obtain ⟨hl, hr⟩ := holds_concat h
    have hleft := left.exit_lt_size
    simp only [Expr.size, Expr.exit, ← Nat.add_assoc] at hf ⊢
    have hthroughLeft := walk_through left hl (by omega)
    have hthroughRight := walk_through right hr (by omega)
    obtain ⟨m₁, u₁, v₁, hm₁, rfl, hu₁, hwalk₁⟩ := hthroughLeft.leave (state?_exit hl) (by omega) hwalk
    obtain ⟨m₂, u₂, v₂, hm₂, rfl, hu₂, hwalk₂⟩ := hthroughRight _ _ hwalk₁
    exact ⟨m₂, u₁ ++ u₂, v₂, by omega, by rw [List.append_assoc], ⟨u₁, u₂, rfl, hu₁, hu₂⟩, hwalk₂⟩
  | .connected left right .alternate, base, out, h, hf => by
    intro n w hwalk
    obtain ⟨hl, hr, -, hentry⟩ := holds_alternate h
    have hleft := left.exit_lt_size
    have hright := right.exit_lt_size
    simp only [Expr.size, Expr.exit] at hf
    obtain ⟨m₁, p, hm₁, hp, hwalk₁⟩ := hwalk.leave_silent hentry (by simp only [Expr.entry]; omega)
    have hthroughLeft := walk_through left hl (by omega)
    have hthroughRight := walk_through right hr (by omega)
    rcases List.mem_cons.1 hp with rfl | hp
    · obtain ⟨m₂, u, v, hm₂, rfl, hu, hwalk₂⟩ := hthroughLeft.leave (state?_exit hl) (by omega) hwalk₁
      exact ⟨m₂, u, v, by omega, rfl, .inl hu, hwalk₂⟩
    · rw [List.mem_singleton.1 hp] at hwalk₁
      obtain ⟨m₂, u, v, hm₂, rfl, hu, hwalk₂⟩ := hthroughRight.leave (state?_exit hr) (by omega) hwalk₁
      exact ⟨m₂, u, v, by omega, rfl, .inr hu, hwalk₂⟩

/-! ## A path for every word -/

theorem Path.of_silent {p q r : Nat} {w : List Char} {ids : List Nat} (hs : a.state? p = some (.silent ids))
    (hq : q ∈ ids) (h : a.Path q w r) : a.Path p w r :=
  .silent ((hasEdge_silent hs).2 ⟨rfl, hq⟩) h

theorem Path.append_silent {p q r : Nat} {w : List Char} {ids : List Nat} (h : a.Path p w q)
    (hs : a.state? q = some (.silent ids)) (hr : r ∈ ids) : a.Path p w r := by
  have hpath := h.append (Path.of_silent hs hr (.refl r))
  rwa [List.append_nil] at hpath

theorem path_again {e : Expr} {q : Quantifier} {last : Nat}
    (hpath : ∀ {v}, e.Denotes v → a.Path (base + e.entry) v (base + e.exit))
    (hs : a.state? (base + e.exit) = some (.silent (q.exitEdges (base + e.entry) last))) :
    ∀ (v : List Char) (vs : List (List Char)), q ≠ .optional ∨ vs = [] → (∀ u ∈ v :: vs, e.Denotes u) →
      a.Path (base + e.entry) (v :: vs).flatten last
  | v, [], _, h => by
    rw [List.flatten_cons, List.flatten_nil, List.append_nil]
    exact (hpath (h v List.mem_cons_self)).append_silent hs (Quantifier.mem_exitEdges.2 (.inl rfl))
  | v, v' :: vs, hagain, h => by
    have hq : q ≠ .optional := hagain.resolve_right (List.cons_ne_nil _ _)
    obtain ⟨hv, hvs⟩ := List.forall_mem_cons.1 h
    have hrest := path_again hpath hs v' vs (.inl hq) hvs
    exact (hpath hv).append (Path.of_silent hs (Quantifier.mem_exitEdges.2 (.inr ⟨hq, rfl⟩)) hrest)

/-- **Every word of an expression is read on some path from the entry of its block to the exit.** -/
theorem path_of_denotes : ∀ (e : Expr) {base : Nat} {out : List Nat} {w : List Char}, a.Holds base (e.block base out) →
    e.Denotes w → a.Path (base + e.entry) w (base + e.exit)
  | .literal c, base, out, w, h, hw => by
    rw [show w = [c] from hw]
    exact .consume ((hasEdge_consuming (holds_literal h).2).2 ⟨rfl, rfl⟩) (.refl base)
  | .quantified e q, base, out, w, h, hw => by
    obtain ⟨hin, -, hentry⟩ := holds_quantified h
    obtain ⟨vs, hlen, rfl, hvs⟩ := Expr.denotes_quantified.1 hw
    cases vs with
    | nil =>
      have hq : q ≠ .plus := Quantifier.admits_zero_iff.1 hlen
      exact Path.of_silent hentry (Quantifier.mem_entryEdges.2 (.inr ⟨hq, rfl⟩)) (.refl _)
    | cons v vs =>
      have hagain : q ≠ .optional ∨ vs = [] := (Quantifier.admits_succ_iff.1 hlen).imp_right List.length_eq_zero_iff.1
      have hrest := path_again (path_of_denotes e hin) (state?_exit hin) v vs hagain hvs
      exact Path.of_silent hentry (Quantifier.mem_entryEdges.2 (.inl rfl)) hrest
  | .connected left right .concat, base, out, w, h, hw => by
    obtain ⟨hl, hr⟩ := holds_concat h
    obtain ⟨u, v, rfl, hu, hv⟩ := hw
    have hright := path_of_denotes right hr hv
    rw [Nat.add_assoc base left.size right.exit] at hright
    exact (path_of_denotes left hl hu).append (Path.of_silent (state?_exit hl) List.mem_cons_self hright)
  | .connected left right .alternate, base, out, w, h, hw => by
    obtain ⟨hl, hr, -, hentry⟩ := holds_alternate h
    rcases hw with hw | hw
    · have hpath := (path_of_denotes left hl hw).append_silent (state?_exit hl) List.mem_cons_self
      exact Path.of_silent hentry List.mem_cons_self hpath
    · have hpath := (path_of_denotes right hr hw).append_silent (state?_exit hr) List.mem_cons_self
      exact Path.of_silent hentry (List.mem_cons_of_mem _ List.mem_cons_self) hpath

/-! ## The finished automaton -/

/-- **The automaton of an expression accepts the words that the expression denotes.** -/
theorem accepts_automaton_iff (e : Expr) (w : List Char) : e.automaton.Accepts w ↔ e.Denotes w := by
  have hblock := holds_automaton e
  constructor
  · intro h
    obtain ⟨n, hwalk⟩ := h.exists_walk
    have hentry : e.automaton.Walk n (0 + e.entry) w e.exit := by rw [Nat.zero_add]; exact hwalk
    obtain ⟨m, u, v, -, rfl, hu, hrest⟩ := walk_through e hblock (.inr (.inr (Nat.zero_add _).symm)) n w hentry
    rw [Nat.zero_add] at hrest
    -- no edge leaves the exit of the whole
    cases hrest with
    | refl => rwa [List.append_nil]
    | silent edge _ => cases ((hasEdge_silent (state?_accept e)).1 edge).2
    | consume edge _ => cases ((hasEdge_silent (state?_accept e)).1 edge).2
  · intro h
    have hpath := path_of_denotes e hblock h
    rwa [Nat.zero_add, Nat.zero_add] at hpath

end Automaton

namespace Construction

/-- **An automaton accepts exactly what its tokens denote**: they are the post-order of one expression and no other, and
a run on any word ends with the verdict whether the word is in the expression's language. -/
theorem accepts?_of_build {ts : List Token} {a : Automaton} (h : build none ts = .ok a) :
    ∃ e : Expr, (e.postorder = ts ∧ ∀ e' : Expr, e'.postorder = ts → e' = e) ∧
      ∀ w, ∃ verdict, a.accepts? w = some verdict ∧ (verdict = true ↔ e.Denotes w) := by
  obtain ⟨e, rfl, rfl⟩ := exists_expr_of_build h
  refine ⟨e, ⟨rfl, fun e' he' => Expr.postorder_injective he'⟩, fun w => ?_⟩
  obtain ⟨verdict, hverdict, hiff⟩ := Automaton.accepts?_of_isClosed (Automaton.isClosed_automaton e) w
  exact ⟨verdict, hverdict, hiff.trans (Automaton.accepts_automaton_iff e w)⟩

theorem accepts?_of_build_star_star : ∃ a, build none [.literal '*', .quantifier .star, .literal 'b',
    .connective .concat] = .ok a ∧ ∃ e : Expr, (e.postorder = [.literal '*', .quantifier .star, .literal 'b',
      .connective .concat] ∧ ∀ e' : Expr, e'.postorder = [.literal '*', .quantifier .star, .literal 'b',
        .connective .concat] → e' = e) ∧
      ∀ w, ∃ verdict, a.accepts? w = some verdict ∧ (verdict = true ↔ e.Denotes w) := by
  have h : build none [.literal '*', .quantifier .star, .literal 'b', .connective .concat] =
      .ok ⟨#[.silent [1, 2], .consuming '*' 0, .silent [5], .silent [1, 2], .silent [], .consuming 'b' 4], 3, 4⟩ := rfl
  exact ⟨_, h, accepts?_of_build h⟩

end Construction
end Regular
