import Regular.Proofs.Shape
/-!
# Context — an operand inside its pattern

An expression with one operand left out is a context.  A pattern in whose tokens an operand stands in one piece is a
context filled with that operand, and any other operand may stand there in its place (`exists_context_of_postorder`).
How far the operand's block is from the start of the whole is decided by the tokens before it.
-/
namespace Regular

/-- An expression with one operand left out. -/
inductive Context where
  | hole
  | quantified (C : Context) (q : Quantifier)
  | onLeft (C : Context) (right : Expr) (k : Connective)
  | onRight (left : Expr) (C : Context) (k : Connective)
  deriving DecidableEq, Repr

namespace Context

def fill : Context → Expr → Expr
  | .hole, e => e
  | .quantified C q, e => .quantified (C.fill e) q
  | .onLeft C right k, e => .connected (C.fill e) right k
  | .onRight left C k, e => .connected left (C.fill e) k

/-- The number of states before the block of the operand. -/
def offset : Context → Nat
  | .hole => 0
  | .quantified C _ => C.offset
  | .onLeft C _ _ => C.offset
  | .onRight left C _ => left.size + C.offset

end Context

/-! ## Reading on after the operand -/

/-- The blocks on the stack have two states for each token but a concatenation. -/
theorem Construction.length_arena (es : List Expr) :
    (arena es).length = 2 * ((Expr.postorders es).filter Token.addsStates).length := by
  induction es with
  | nil => rfl
  | cons e es ih =>
    rw [length_arena_cons, Expr.postorders_cons, List.filter_append, List.length_append, ih, e.size_eq_length_filter,
      Nat.mul_add]

namespace Expr

/-- **An operand on the stack ends up in a context** that is decided by what lies around it and by the tokens that
follow, and not by the operand. -/
theorem exists_context_of_rebuild : ∀ {ts : List Token} (above : List Expr) (C : Context) (below : List Expr)
    {e whole : Expr}, rebuild (above ++ C.fill e :: below) ts = some [whole] →
      ∃ D : Context, D.offset = (Construction.arena below).length + C.offset ∧
        ∀ f, rebuild (above ++ C.fill f :: below) ts = some [D.fill f]
  | [], above, C, below, e, whole, h => by
    rw [rebuild_nil] at h
    rcases List.append_eq_singleton_iff.1 (Option.some.inj h) with ⟨rfl, hrest⟩ | ⟨-, hrest⟩
    · obtain ⟨-, rfl⟩ := List.cons.inj hrest
      exact ⟨C, (Nat.zero_add _).symm, fun f => rebuild_nil _⟩
    · cases hrest
  | .literal c :: ts, above, C, below, e, whole, h => by
    have hpush : ∀ f, rebuild (above ++ C.fill f :: below) (.literal c :: ts) =
        rebuild ((.literal c :: above) ++ C.fill f :: below) ts := fun f => by
      cases above <;> rfl
    rw [hpush] at h
    simp only [hpush]
    exact exists_context_of_rebuild _ C below h
  | .quantifier q :: ts, [], C, below, e, whole, h => exists_context_of_rebuild [] (.quantified C q) below h
  | .quantifier q :: ts, a :: above, C, below, e, whole, h =>
    exists_context_of_rebuild (.quantified a q :: above) C below h
  | .connective k :: ts, [], C, [], e, whole, h => by cases h
  | .connective k :: ts, [], C, left :: below, e, whole, h => by
    obtain ⟨D, hoffset, hfill⟩ := exists_context_of_rebuild [] (.onRight left C k) below h
    refine ⟨D, ?_, hfill⟩
    rw [hoffset, Construction.length_arena_cons, Context.offset, Nat.add_assoc]
  | .connective k :: ts, [a], C, below, e, whole, h => exists_context_of_rebuild [] (.onLeft C a k) below h
  | .connective k :: ts, a :: b :: above, C, below, e, whole, h =>
    exists_context_of_rebuild (.connected b a k :: above) C below h

/-- **A pattern with an operand's tokens in one piece is that operand in a context**, and every operand may stand
there. -/
theorem exists_context_of_postorder {whole e : Expr} {xs ys : List Token}
    (h : whole.postorder = xs ++ (e.postorder ++ ys)) :
    ∃ D : Context, D.offset = 2 * (xs.filter Token.addsStates).length ∧
      ∀ f : Expr, (D.fill f).postorder = xs ++ (f.postorder ++ ys) := by
  have hread := rebuild_eq_singleton_iff.2 h
  rw [rebuild_append] at hread
  obtain ⟨below, hbelow, hrest⟩ := Option.bind_eq_some_iff.1 hread
  rw [rebuild_postorder] at hrest
  obtain ⟨D, hoffset, hfill⟩ := exists_context_of_rebuild [] .hole below hrest
  refine ⟨D, ?_, fun f => rebuild_eq_singleton_iff.1 ?_⟩
  · have htokens : postorders below = xs := postorders_of_rebuild hbelow
    rw [hoffset, Context.offset, Nat.add_zero, Construction.length_arena, htokens]
  · rw [rebuild_append, hbelow, Option.bind_some, rebuild_postorder]
    exact hfill f

end Expr
end Regular
