import Regular.Token
/-!
# Expr — regular expressions as trees

What a pattern means, apart from how it is written and how it is run.  A tree denotes a set of words
(`Expr.Denotes`), and its post-order is the token sequence that stands for it.  `Expr.rebuild` reads such a sequence
back with a stack of trees; the two are inverse to each other (`rebuild_postorder`, `eq_of_rebuild`), so a token
sequence is the post-order of one tree at most (`postorder_injective`).
-/
namespace Regular

inductive Expr where
  | literal (c : Char)
  | quantified (e : Expr) (q : Quantifier)
  | connected (left right : Expr) (k : Connective)
  deriving DecidableEq, Repr

namespace Expr

/-- The operands first, in order, and then the operator. -/
def postorder : Expr → List Token
  | .literal c => [.literal c]
  | .quantified e q => e.postorder ++ [.quantifier q]
  | .connected left right k => left.postorder ++ right.postorder ++ [.connective k]

/-- A word belongs to the language of an expression. -/
def Denotes : Expr → List Char → Prop
  | .literal c, w => w = [c]
  | .quantified e .optional, w => w = [] ∨ e.Denotes w
  | .quantified e .plus, w => ∃ vs : List (List Char), vs ≠ [] ∧ w = vs.flatten ∧ ∀ v ∈ vs, e.Denotes v
  | .quantified e .star, w => ∃ vs : List (List Char), w = vs.flatten ∧ ∀ v ∈ vs, e.Denotes v
  | .connected left right .concat, w => ∃ u v, w = u ++ v ∧ left.Denotes u ∧ right.Denotes v
  | .connected left right .alternate, w => left.Denotes w ∨ right.Denotes w

/-- The trees on the stack after the tokens; none if an operator lacks operands.  The latest tree comes first. -/
def rebuild : List Expr → List Token → Option (List Expr)
  | stack, [] => some stack
  | stack, .literal c :: ts => rebuild (.literal c :: stack) ts
  | e :: stack, .quantifier q :: ts => rebuild (.quantified e q :: stack) ts
  | right :: left :: stack, .connective k :: ts => rebuild (.connected left right k :: stack) ts
  | _, _ :: _ => none

/-- The tokens that leave a stack of trees. -/
def postorders (stack : List Expr) : List Token := stack.reverse.flatMap postorder

/-! ## Post-order and its reading -/

theorem postorder_ne_nil (e : Expr) : e.postorder ≠ [] := by
  cases e <;> simp [postorder]

/-- **The post-order of a tree puts that tree on the stack**, whatever is on it and whatever follows. -/
theorem rebuild_postorder (e : Expr) (stack : List Expr) (ts : List Token) :
    rebuild stack (e.postorder ++ ts) = rebuild (e :: stack) ts := by
  induction e generalizing stack ts with
  | literal c => rfl
  | quantified e q ih =>
    rw [postorder, List.append_assoc, ih]
    rfl
  | connected left right k ihl ihr =>
    rw [postorder, List.append_assoc, List.append_assoc, ihl, ihr]
    rfl

theorem postorders_cons (e : Expr) (stack : List Expr) : postorders (e :: stack) = postorders stack ++ e.postorder := by
  simp [postorders]

/-- **The tokens that led to a stack of trees are their post-orders**, the oldest tree's first. -/
theorem postorders_of_rebuild : ∀ {ts : List Token} {stack out : List Expr}, rebuild stack ts = some out →
    postorders out = postorders stack ++ ts
  | [], stack, out, h => by
    cases stack <;> (cases h; rw [List.append_nil])
  | .literal c :: ts, stack, out, h => by
    have h' : rebuild (.literal c :: stack) ts = some out := by cases stack <;> exact h
    rw [postorders_of_rebuild h', postorders_cons, List.append_assoc]
    rfl
  | .quantifier q :: ts, [], out, h => by cases h
  | .quantifier q :: ts, e :: stack, out, h => by
    have h' : rebuild (.quantified e q :: stack) ts = some out := h
    rw [postorders_of_rebuild h', postorders_cons, postorders_cons, postorder]
    simp only [List.append_assoc, List.cons_append, List.nil_append]
  | .connective k :: ts, [], out, h => by cases h
  | .connective k :: ts, [e], out, h => by cases h
  | .connective k :: ts, right :: left :: stack, out, h => by
    have h' : rebuild (.connected left right k :: stack) ts = some out := h
    rw [postorders_of_rebuild h', postorders_cons, postorders_cons, postorders_cons, postorder]
    simp only [List.append_assoc, List.cons_append, List.nil_append]

theorem rebuild_nil (stack : List Expr) : rebuild stack [] = some stack := by
  cases stack <;> rfl

theorem rebuild_eq_singleton_iff {ts : List Token} {e : Expr} : rebuild [] ts = some [e] ↔ e.postorder = ts := by
  constructor
  · intro h
    have := postorders_of_rebuild h
    simpa [postorders] using this
  · rintro rfl
    have := rebuild_postorder e [] []
    rwa [List.append_nil, rebuild_nil] at this

/-- **A token sequence is the post-order of one tree at most.** -/
theorem postorder_injective {e e' : Expr} (h : e.postorder = e'.postorder) : e = e' := by
  have h1 := rebuild_eq_singleton_iff.2 h
  have h2 := rebuild_eq_singleton_iff.2 (rfl : e'.postorder = e'.postorder)
  rw [h1] at h2
  injection h2 with h2
  injection h2

end Expr
end Regular
