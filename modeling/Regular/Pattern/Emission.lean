import Regular.Token
import Regular.Pattern.Nesting
/-!
# Emission — when each token of infix text is emitted

A literal is emitted where it stands.  An operator is emitted where its operands are known to be complete: at the next
operator in the same parentheses that binds no tighter, at the end of these parentheses, or at the end of the text.  Of
the tokens that are emitted at one position the last one comes first.  This fixes one time for each token and one order
for all of them (`Emission.IsOf.eq`), without reference to any way to find it.
-/
namespace Regular
namespace Pattern

/-- A token, where it stands, and the position that is reached when it is emitted. -/
structure Emission where
  position : Nat
  token : Token
  time : Nat
  deriving DecidableEq, Repr

/-- At position `e` the operands of the operator at position `p` are known to be complete. -/
inductive Completed (s : List Char) (op : Token) (p e : Nat) : Prop where
  | operator {next : Token} (hnext : next.isOperator = true) (hc : s[e]? = some next.char) (hbeside : Beside s p e)
      (hle : next.precedence ≤ op.precedence)
  | close {i : Nat} (h : Innermost s p i e)
  | stop (h : e = s.length)

namespace Emission

/-- The token stands in the text where the emission says, and is emitted when it says. -/
inductive IsOf (s : List Char) : Emission → Prop where
  | literal {c : Char} {p : Nat} (hc : s[p]? = some c) (h : c ∉ Token.reserved) : IsOf s ⟨p, .literal c, p⟩
  | operator {op : Token} {p e : Nat} (hop : op.isOperator = true) (hc : s[p]? = some op.char) (hlt : p < e)
      (h : Completed s op p e) (first : ∀ e', p < e' → e' < e → ¬Completed s op p e') : IsOf s ⟨p, op, e⟩

/-- By time; at one time, the last token first. -/
def Before (x y : Emission) : Prop := x.time < y.time ∨ x.time = y.time ∧ y.position < x.position

theorem Before.asymm {x y : Emission} (h : x.Before y) : ¬y.Before x := by
  rintro h'
  rcases h with h | ⟨h, hp⟩ <;> rcases h' with h' | ⟨h', hp'⟩ <;> omega

variable {s : List Char}

theorem IsOf.ofChar? {x : Emission} (h : x.IsOf s) : s[x.position]?.bind Token.ofChar? = some x.token := by
  cases h with
  | literal hc hr => rw [hc]; exact Token.ofChar?_literal hr
  | operator hop hc => rw [hc]; exact Token.ofChar?_operator hop

/-- **Each position is emitted once at most**, as one token and at one time. -/
theorem IsOf.eq {x y : Emission} (hx : x.IsOf s) (hy : y.IsOf s) (h : x.position = y.position) : x = y := by
  have htoken : x.token = y.token := Option.some.inj (hx.ofChar?.symm.trans (h ▸ hy.ofChar?))
  cases hx with
  | literal hc hr =>
    cases hy with
    | literal => cases htoken; cases h; rfl
    | operator hop => cases htoken; cases hop
  | @operator op p e hop hc hlt hend hfirst =>
    cases hy with
    | literal => cases htoken; cases hop
    | @operator _ _ e' _ _ hlt' hend' hfirst' =>
      cases htoken
      cases h
      rcases Nat.lt_trichotomy e e' with hee | rfl | hee
      · exact absurd hend (hfirst' e hlt hee)
      · rfl
      · exact absurd hend' (hfirst e' hlt' hee)

end Emission

/-- All emissions of the text, in their order. -/
structure InOrder (s : List Char) (es : List Emission) : Prop where
  mem_iff : ∀ x, x ∈ es ↔ x.IsOf s
  sorted : es.Pairwise Emission.Before

end Pattern
end Regular
