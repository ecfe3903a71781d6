import Regular.Pattern.Expr
/-!
# Balance — how many operands tokens leave

Every token leaves one operand on the stack and takes as many as its arity says, so what tokens in postfix order leave
can be counted without building anything.  The count does not depend on their order (`balance_perm`), and it is one for
the tokens of an expression.
-/
namespace Regular
namespace Pattern

/-- How many operands the tokens put on the stack, less those they take off. -/
def balance : List Token → Int
  | [] => 0
  | t :: ts => 1 - t.arity + balance ts

theorem balance_append : ∀ ts us : List Token, balance (ts ++ us) = balance ts + balance us
  | [], us => (Int.zero_add _).symm
  | t :: ts, us => by
    rw [List.cons_append, balance, balance, balance_append ts us, Int.add_assoc]

theorem balance_perm {ts us : List Token} (h : ts.Perm us) : balance ts = balance us := by
  induction h with
  | nil => rfl
  | cons t _ ih => rw [balance, balance, ih]
  | swap t u ts => simp only [balance]; omega
  | trans _ _ ih₁ ih₂ => exact ih₁.trans ih₂

theorem balance_postorder : ∀ e : Expr, balance e.postorder = 1
  | .literal _ => rfl
  | .quantified e _ => by
    rw [Expr.postorder, balance_append, balance_postorder e]; rfl
  | .connected left right _ => by
    rw [Expr.postorder, balance_append, balance_append, balance_postorder left, balance_postorder right]; rfl

theorem balance_postorders : ∀ es : List Expr, balance (Expr.postorders es) = es.length
  | [] => rfl
  | e :: es => by
    rw [Expr.postorders_cons, balance_append, balance_postorders es, balance_postorder]
    rfl

/-- **The stack grows by the balance of the tokens read.** -/
theorem length_of_rebuild {ts : List Token} {es out : List Expr} (h : Expr.rebuild es ts = some out) :
    (out.length : Int) = es.length + balance ts := by
  have hbalance := congrArg balance (Expr.postorders_of_rebuild h)
  rwa [balance_append, balance_postorders, balance_postorders] at hbalance

end Pattern
end Regular
