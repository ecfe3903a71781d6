import Regular.Proofs.Context
import Regular.Proofs.Language
import Regular.Proofs.Outcome
/-!
# Congruence — operands that accept the same words can stand for each other

Whether tokens are built depends on an operand only through the one place it takes on the stack, so exchanging it for
another one changes neither that nor the cause of a refusal (`Supplied.exchange`).  If the whole is built, the operand
stands in a context, and what the context denotes depends on the operand only through what that denotes
(`Equivalent.fill`).  Laws about expressions therefore hold for operands anywhere in a pattern.
-/
namespace Regular

namespace PatternError

/-- The cause of an error, without its place and its numbers. -/
inductive Kind where
  | tooFewOperands
  | noLeftOperand
  | unjoinedOperands
  | emptyPattern
  | strayParenthesis
  | unmatchedParenthesis
  | tooManyStates
  deriving DecidableEq, Repr

def kind : PatternError → Kind
  | .tooFewOperands _ _ _ _ => .tooFewOperands
  | .noLeftOperand _ _ => .noLeftOperand
  | .unjoinedOperands _ => .unjoinedOperands
  | .emptyPattern => .emptyPattern
  | .strayParenthesis _ _ => .strayParenthesis
  | .unmatchedParenthesis _ => .unmatchedParenthesis
  | .tooManyStates _ => .tooManyStates

end PatternError

/-! ## Expressions with the same language -/

namespace Expr

/-- Two expressions denote the same words. -/
def Equivalent (e f : Expr) : Prop := ∀ w, e.Denotes w ↔ f.Denotes w

theorem Equivalent.quantified {e f : Expr} (h : Equivalent e f) (q : Quantifier) :
    Equivalent (.quantified e q) (.quantified f q) := by
  intro w
  rw [denotes_quantified, denotes_quantified]
  exact exists_congr fun vs => and_congr_right fun _ => and_congr_right fun _ => forall₂_congr fun v _ => h v

theorem Equivalent.connected {left left' right right' : Expr} (hl : Equivalent left left')
    (hr : Equivalent right right') : ∀ k : Connective, Equivalent (.connected left right k) (.connected left' right' k)
  | .concat, _ => exists_congr fun u => exists_congr fun v => and_congr_right fun _ => and_congr (hl u) (hr v)
  | .alternate, w => or_congr (hl w) (hr w)

/-- **What a context denotes depends on its operand only through what the operand denotes.** -/
theorem Equivalent.fill {e f : Expr} (h : Equivalent e f) : ∀ C : Context, Equivalent (C.fill e) (C.fill f)
  | .hole => h
  | .quantified C q => (h.fill C).quantified q
  | .onLeft C _ k => (h.fill C).connected (fun _ => .rfl) k
  | .onRight _ C k => Equivalent.connected (fun _ => .rfl) (h.fill C) k

theorem equivalent_concat_assoc (x y z : Expr) :
    Equivalent (.connected (.connected x y .concat) z .concat) (.connected x (.connected y z .concat) .concat) := by
  intro w
  constructor
  · rintro ⟨_, v, rfl, ⟨s, t, rfl, hs, ht⟩, hv⟩
    exact ⟨s, t ++ v, List.append_assoc s t v, hs, t, v, rfl, ht, hv⟩
  · rintro ⟨s, _, rfl, hs, t, v, rfl, ht, hv⟩
    exact ⟨s ++ t, v, (List.append_assoc s t v).symm, ⟨s, t, rfl, hs, ht⟩, hv⟩

theorem equivalent_alternate_comm (x y : Expr) :
    Equivalent (.connected x y .alternate) (.connected y x .alternate) :=
  fun _ => or_comm

theorem equivalent_star (x : Expr) : Equivalent (.quantified x .star)
    (.connected (.quantified x .optional) (.quantified x .plus) .alternate) := by
  intro w
  constructor
  · rintro ⟨vs, rfl, hvs⟩
    by_cases hnil : vs = []
    · rw [hnil]
      exact .inl (.inl rfl)
    · exact .inr ⟨vs, hnil, rfl, hvs⟩
  · rintro ((rfl | hw) | ⟨vs, -, rfl, hvs⟩)
    · exact ⟨[], rfl, List.forall_mem_nil _⟩
    · exact ⟨[w], by simp, List.forall_mem_singleton.2 hw⟩
    · exact ⟨vs, rfl, hvs⟩

/-- Whether tokens can be read onto a stack depends only on how many trees it has. -/
theorem exists_rebuild_of_length_eq : ∀ {ts : List Token} {es es' out : List Expr}, es.length = es'.length →
    rebuild es ts = some out → ∃ out', rebuild es' ts = some out'
  | [], _, es', _, _, _ => ⟨es', rebuild_nil es'⟩
  | t :: ts, es, es', out, hlen, h => by
    rw [rebuild_cons] at h
    obtain ⟨next, hnext, hrest⟩ := Option.bind_eq_some_iff.1 h
    have harity : t.arity ≤ es.length := Construction.exists_rebuild_singleton_iff.1 ⟨next, hnext⟩
    obtain ⟨next', hnext'⟩ := Construction.exists_rebuild_singleton_iff.2 (hlen ▸ harity)
    have hlen' : next.length = next'.length := by
      have := Pattern.length_of_rebuild hnext
      have := Pattern.length_of_rebuild hnext'
      omega
    rw [rebuild_cons, hnext']
    exact exists_rebuild_of_length_eq hlen' hrest

end Expr

namespace Automaton

/-- **Two expressions have automata with the same verdicts exactly when they denote the same words.** -/
theorem accepts?_automaton_eq_iff {e f : Expr} :
    (∀ w, e.automaton.accepts? w = f.automaton.accepts? w) ↔ Expr.Equivalent e f := by
  refine forall_congr' fun w => ?_
  obtain ⟨verdict, hverdict, hiff⟩ := accepts?_of_isClosed (isClosed_automaton e) w
  obtain ⟨verdict', hverdict', hiff'⟩ := accepts?_of_isClosed (isClosed_automaton f) w
  rw [hverdict, hverdict', Option.some.injEq, Bool.eq_iff_iff, hiff, hiff', accepts_automaton_iff,
    accepts_automaton_iff]

end Automaton

namespace Construction

/-! ## Exchanging an operand -/

/-- **Tokens find their operands with one operand in a place as with another one there.** -/
theorem Supplied.exchange {xs ys : List Token} {e f : Expr} (h : Supplied (xs ++ e.postorder ++ ys)) :
    Supplied (xs ++ f.postorder ++ ys) := by
  rw [← exists_rebuild_iff_supplied, List.append_assoc, Expr.rebuild_append] at h ⊢
  obtain ⟨out, hout⟩ := h
  obtain ⟨below, hbelow, hrest⟩ := Option.bind_eq_some_iff.1 hout
  rw [Expr.rebuild_postorder] at hrest
  have hlen : (e :: below).length = (f :: below).length := rfl
  rw [hbelow, Option.bind_some, Expr.rebuild_postorder]
  exact Expr.exists_rebuild_of_length_eq hlen hrest

theorem balance_exchange (xs ys : List Token) (e f : Expr) :
    Pattern.balance (xs ++ e.postorder ++ ys) = Pattern.balance (xs ++ f.postorder ++ ys) := by
  simp only [Pattern.balance_append, Pattern.balance_postorder]

theorem exists_build_exchange {xs ys : List Token} {e f : Expr}
    (h : ∃ a, build none (xs ++ e.postorder ++ ys) = .ok a) : ∃ a, build none (xs ++ f.postorder ++ ys) = .ok a := by
  rw [exists_build_iff, depth_length] at h ⊢
  exact ⟨h.1.exchange, by rw [balance_exchange xs ys f e, h.2]⟩

/-- There are two causes for refusing tokens, and which one it is depends on whether all find their operands. -/
theorem kind_of_build_error {ts : List Token} {fault : PatternError} (hne : ts ≠ []) (h : build none ts = .error fault) :
    Supplied ts ∧ fault.kind = .unjoinedOperands ∨ ¬Supplied ts ∧ fault.kind = .tooFewOperands := by
  have hfault := hasFault_of_build h
  cases fault with
  | tooFewOperands op position needed found =>
    have hshort := hfault.1
    exact .inr ⟨fun hsupplied => Int.not_lt.2 (hsupplied _ _ hshort.token) hshort.short, rfl⟩
  | unjoinedOperands count => exact .inl ⟨hfault.1, rfl⟩
  | emptyPattern => exact absurd hfault hne
  | noLeftOperand | strayParenthesis | unmatchedParenthesis | tooManyStates => exact hfault.elim

theorem kind_exchange {xs ys : List Token} {e f : Expr} {fault fault' : PatternError}
    (h : build none (xs ++ e.postorder ++ ys) = .error fault)
    (h' : build none (xs ++ f.postorder ++ ys) = .error fault') : fault.kind = fault'.kind := by
  have hne : ∀ g : Expr, xs ++ g.postorder ++ ys ≠ [] := fun g hnil =>
    g.postorder_ne_nil (List.append_eq_nil_iff.1 (List.append_eq_nil_iff.1 hnil).1).2
  rcases kind_of_build_error (hne e) h with ⟨hs, hk⟩ | ⟨hs, hk⟩ <;>
    rcases kind_of_build_error (hne f) h' with ⟨hs', hk'⟩ | ⟨hs', hk'⟩
  · rw [hk, hk']
  · exact absurd hs.exchange hs'
  · exact absurd hs'.exchange hs
  · rw [hk, hk']

/-- Either may stand for the other in all tokens: what is built from the whole accepts the same words, and what is
refused is refused for the same cause. -/
structure Interchangeable (ts us : List Token) : Prop where
  exists_build_iff : ∀ xs ys, (∃ a, build none (xs ++ ts ++ ys) = .ok a) ↔ ∃ b, build none (xs ++ us ++ ys) = .ok b
  accepts?_eq : ∀ xs ys a b, build none (xs ++ ts ++ ys) = .ok a → build none (xs ++ us ++ ys) = .ok b →
    ∀ w, a.accepts? w = b.accepts? w
  kind_eq : ∀ xs ys fault fault', build none (xs ++ ts ++ ys) = .error fault →
    build none (xs ++ us ++ ys) = .error fault' → fault.kind = fault'.kind

theorem accepts?_exchange {xs ys : List Token} {e f : Expr} (hequiv : Expr.Equivalent e f) {a b : Automaton}
    (ha : build none (xs ++ e.postorder ++ ys) = .ok a) (hb : build none (xs ++ f.postorder ++ ys) = .ok b)
    (w : List Char) : a.accepts? w = b.accepts? w := by
  obtain ⟨whole, hwhole, rfl⟩ := exists_expr_of_build ha
  obtain ⟨whole', hwhole', rfl⟩ := exists_expr_of_build hb
  rw [List.append_assoc] at hwhole hwhole'
  obtain ⟨D, -, hfill⟩ := Expr.exists_context_of_postorder hwhole
  obtain rfl : whole = D.fill e := Expr.postorder_injective (hwhole.trans (hfill e).symm)
  obtain rfl : whole' = D.fill f := Expr.postorder_injective (hwhole'.trans (hfill f).symm)
  exact Automaton.accepts?_automaton_eq_iff.2 (hequiv.fill D) w

theorem interchangeable_postorder {e f : Expr} (h : Expr.Equivalent e f) :
    Interchangeable e.postorder f.postorder where
  exists_build_iff _ _ := ⟨exists_build_exchange, exists_build_exchange⟩
  accepts?_eq _ _ _ _ ha hb := accepts?_exchange h ha hb
  kind_eq _ _ _ _ := kind_exchange

/-- The tokens of an operand: they are built on their own. -/
def IsOperand (ts : List Token) : Prop := ∃ a, build none ts = .ok a

theorem IsOperand.exists_expr {ts : List Token} (h : IsOperand ts) : ∃ e : Expr, e.postorder = ts := by
  obtain ⟨a, ha⟩ := h
  obtain ⟨e, he, -⟩ := exists_expr_of_build ha
  exact ⟨e, he⟩

/-- **Operands whose automata accept the same words can stand for each other in all tokens.**  So concatenations may be
regrouped, alternatives swapped and `x*` written as `x?|x+` anywhere in a pattern. -/
theorem interchangeable_of_accepts? :
    (∀ ts us a b, build none ts = .ok a → build none us = .ok b → (∀ w, a.accepts? w = b.accepts? w) →
      Interchangeable ts us) ∧
    ∀ x y z, IsOperand x → IsOperand y → IsOperand z →
      Interchangeable (x ++ y ++ [.connective .concat] ++ z ++ [.connective .concat])
        (x ++ (y ++ z ++ [.connective .concat]) ++ [.connective .concat]) ∧
      Interchangeable (x ++ y ++ [.connective .alternate]) (y ++ x ++ [.connective .alternate]) ∧
      Interchangeable (x ++ [.quantifier .star])
        (x ++ [.quantifier .optional] ++ (x ++ [.quantifier .plus]) ++ [.connective .alternate]) := by
  constructor
  · intro ts us a b ha hb hsame
    obtain ⟨e, rfl, rfl⟩ := exists_expr_of_build ha
    obtain ⟨f, rfl, rfl⟩ := exists_expr_of_build hb
    exact interchangeable_postorder (Automaton.accepts?_automaton_eq_iff.1 hsame)
  · intro x y z hx hy hz
    obtain ⟨e, rfl⟩ := hx.exists_expr
    obtain ⟨f, rfl⟩ := hy.exists_expr
    obtain ⟨g, rfl⟩ := hz.exists_expr
    exact ⟨interchangeable_postorder (Expr.equivalent_concat_assoc e f g),
      interchangeable_postorder (Expr.equivalent_alternate_comm e f),
      interchangeable_postorder (Expr.equivalent_star e)⟩

theorem interchangeable_of_accepts?_star : ∃ a b, build none [.literal 'a', .quantifier .star] = .ok a ∧
    build none [.literal 'a', .quantifier .optional, .literal 'a', .quantifier .plus, .connective .alternate] = .ok b ∧
    (∀ w, a.accepts? w = b.accepts? w) ∧ Interchangeable [.literal 'a', .quantifier .star]
      [.literal 'a', .quantifier .optional, .literal 'a', .quantifier .plus, .connective .alternate] := by
  have ha : build none [.literal 'a', .quantifier .star] =
      .ok ⟨#[.silent [1, 2], .consuming 'a' 0, .silent [], .silent [1, 2]], 3, 2⟩ := rfl
  have hb : build none [.literal 'a', .quantifier .optional, .literal 'a', .quantifier .plus,
      .connective .alternate] =
      .ok ⟨#[.silent [2], .consuming 'a' 0, .silent [8], .silent [1, 2], .silent [5, 6], .consuming 'a' 4, .silent [8],
        .silent [5], .silent [], .silent [3, 7]], 9, 8⟩ := rfl
  have hoperand : IsOperand [.literal 'a'] := ⟨_, rfl⟩
  have hlaw := (interchangeable_of_accepts?.2 _ _ _ hoperand hoperand hoperand).2.2
  have hsame := hlaw.accepts?_eq [] [] _ _ ha hb
  exact ⟨_, _, ha, hb, hsame, interchangeable_of_accepts?.1 _ _ _ _ ha hb hsame⟩

end Construction
end Regular
