import Regular.Pattern.Flat
import Regular.Proofs.Layout
/-!
# Reassociation — grouping concatenations in another way

Expressions that differ in the grouping of concatenations only are the same expression flattened, and the other way
round (`reassociated_iff_flatten_eq`); and they have the same block (`Reassociated.block_eq`), since a concatenation
brings no states.  Expressions are compared from the end: up to grouping, each is a factor or some expression followed
by one (`exists_last`).
-/
namespace Regular

/-- Two expressions differ in the grouping of concatenations only, at whatever depth. -/
inductive Reassociated : Expr → Expr → Prop where
  | assoc (x y z : Expr) :
    Reassociated (.connected (.connected x y .concat) z .concat) (.connected x (.connected y z .concat) .concat)
  | refl (e : Expr) : Reassociated e e
  | symm {e e' : Expr} (h : Reassociated e e') : Reassociated e' e
  | trans {e e' e'' : Expr} (h : Reassociated e e') (h' : Reassociated e' e'') : Reassociated e e''
  | quantified {e e' : Expr} (h : Reassociated e e') (q : Quantifier) :
    Reassociated (.quantified e q) (.quantified e' q)
  | connected {left left' right right' : Expr} (hl : Reassociated left left') (hr : Reassociated right right')
    (k : Connective) : Reassociated (.connected left right k) (.connected left' right' k)

namespace Expr

/-- An expression that is no concatenation, and so one factor of any concatenation around it. -/
def IsFactor : Expr → Prop
  | .connected _ _ .concat => False
  | .literal _ | .quantified _ _ | .connected _ _ .alternate => True

/-- **Up to grouping, an expression is a factor or ends with one.** -/
theorem exists_last : ∀ e : Expr, e.IsFactor ∨
    ∃ init last : Expr, last.IsFactor ∧ Reassociated e (.connected init last .concat)
  | .literal _ => .inl trivial
  | .quantified _ _ => .inl trivial
  | .connected _ _ .alternate => .inl trivial
  | .connected left right .concat => by
    refine .inr ?_
    rcases exists_last right with hright | ⟨init, last, hlast, hright⟩
    · exact ⟨left, right, hright, .refl _⟩
    · exact ⟨.connected left init .concat, last, hlast, .trans (.connected (.refl left) hright .concat)
        (.symm (.assoc left init last))⟩

end Expr

/-! ## Grouping and blocks -/

theorem Reassociated.size_eq {e e' : Expr} (h : Reassociated e e') : e.size = e'.size := by
  induction h with
  | assoc x y z => simp only [Expr.size, Nat.add_assoc]
  | refl _ => rfl
  | symm _ ih => exact ih.symm
  | trans _ _ ih ih' => exact ih.trans ih'
  | quantified _ q ih => rw [Expr.size, Expr.size, ih]
  | connected _ _ k ihl ihr => cases k <;> rw [Expr.size, Expr.size, ihl, ihr]

theorem Reassociated.entry_eq {e e' : Expr} (h : Reassociated e e') : e.entry = e'.entry := by
  induction h with
  | assoc x y z => rfl
  | refl _ => rfl
  | symm _ ih => exact ih.symm
  | trans _ _ ih ih' => exact ih.trans ih'
  | quantified h q _ => rw [Expr.entry, Expr.entry, h.size_eq]
  | connected hl hr k ihl _ =>
    cases k with
    | concat => exact ihl
    | alternate => rw [Expr.entry, Expr.entry, hl.size_eq, hr.size_eq]

/-- **The grouping of concatenations leaves no trace in the states.** -/
theorem Reassociated.block_eq {e e' : Expr} (h : Reassociated e e') (base : Nat) (out : List Nat) :
    e.block base out = e'.block base out := by
  induction h generalizing base out with
  | assoc x y z => simp only [Expr.block, Expr.entry, Expr.size, List.append_assoc, Nat.add_assoc]
  | refl _ => rfl
  | symm _ ih => exact (ih base out).symm
  | trans _ _ ih ih' => exact (ih base out).trans (ih' base out)
  | quantified h q ih => rw [Expr.block, Expr.block, h.size_eq, h.entry_eq, ih]
  | connected hl hr k ihl ihr =>
    cases k with
    | concat => rw [Expr.block, Expr.block, hl.size_eq, hr.entry_eq, ihl, ihr]
    | alternate => rw [Expr.block, Expr.block, hl.size_eq, hr.size_eq, hl.entry_eq, hr.entry_eq, ihl, ihr]

theorem Expr.exit_add_two : ∀ e : Expr, e.exit + 2 = e.size
  | .literal _ => rfl
  | .quantified _ _ => rfl
  | .connected _ right .concat => by rw [exit, size, Nat.add_assoc, exit_add_two right]
  | .connected _ _ .alternate => rfl

theorem Reassociated.automaton_eq {e e' : Expr} (h : Reassociated e e') : e.automaton = e'.automaton := by
  have hexit : e.exit = e'.exit := by
    have := h.size_eq
    have := e.exit_add_two
    have := e'.exit_add_two
    omega
  rw [Expr.automaton, Expr.automaton, h.block_eq, h.entry_eq, hexit]

/-! ## Grouping and factors -/

namespace Expr

theorem factors_flatten_ne_nil : ∀ e : Expr, e.flatten.factors ≠ []
  | .literal _ => List.cons_ne_nil _ _
  | .quantified _ _ => List.cons_ne_nil _ _
  | .connected _ _ .alternate => List.cons_ne_nil _ _
  | .connected left _ .concat => List.append_ne_nil_of_left_ne_nil (factors_flatten_ne_nil left) _

theorem factors_flatten_of_isFactor : ∀ {f : Expr}, f.IsFactor → f.flatten.factors = [f.flatten]
  | .literal _, _ => rfl
  | .quantified _ _, _ => rfl
  | .connected _ _ .alternate, _ => rfl
  | .connected _ _ .concat, h => h.elim

end Expr

theorem Reassociated.flatten_eq {e e' : Expr} (h : Reassociated e e') : e.flatten = e'.flatten := by
  induction h with
  | assoc x y z => exact Expr.flatten_concat_assoc x y z
  | refl _ => rfl
  | symm _ ih => exact ih.symm
  | trans _ _ ih ih' => exact ih.trans ih'
  | quantified _ q ih => rw [Expr.flatten, Expr.flatten, ih]
  | connected _ _ k ihl ihr => cases k <;> rw [Expr.flatten, Expr.flatten, ihl, ihr]

namespace Expr

/-- Factors that are the same flattened have the same root, and their operands are the same flattened. -/
theorem reassociated_of_isFactor : ∀ {f f' : Expr}, f.IsFactor → f'.IsFactor → f.flatten = f'.flatten →
    (∀ x x' : Expr, x.size < f.size → x.flatten.factors = x'.flatten.factors → Reassociated x x') → Reassociated f f'
  | .literal _, .literal _, _, _, h, _ => by
    cases Flat.literal.inj h
    exact .refl _
  | .quantified e q, .quantified e' q', _, _, h, hsmaller => by
    obtain ⟨he, rfl⟩ := Flat.quantified.inj h
    exact .quantified (hsmaller e e' (by rw [size]; omega) (congrArg Flat.factors he)) q
  | .connected left right .alternate, .connected left' right' .alternate, _, _, h, hsmaller => by
    obtain ⟨hl, hr⟩ := Flat.alternate.inj h
    have hleft := hsmaller left left' (by rw [size]; omega) (congrArg Flat.factors hl)
    have hright := hsmaller right right' (by rw [size]; omega) (congrArg Flat.factors hr)
    exact .connected hleft hright .alternate
  | .connected _ _ .concat, _, hf, _, _, _ => hf.elim
  | _, .connected _ _ .concat, _, hf', _, _ => hf'.elim

theorem factors_ne_of_isFactor {f init last : Expr} (h : f.IsFactor) :
    f.flatten.factors ≠ (Expr.connected init last .concat).flatten.factors := by
  intro heq
  have hinit := List.length_pos_iff.2 (factors_flatten_ne_nil init)
  have hlast := List.length_pos_iff.2 (factors_flatten_ne_nil last)
  have hlen := congrArg List.length heq
  rw [factors_flatten_of_isFactor h, flatten, Flat.factors, List.length_append, List.length_singleton] at hlen
  omega

/-- **Expressions with the same factors in the same order are grouped versions of each other.** -/
theorem reassociated_of_factors {e e' : Expr} (h : e.flatten.factors = e'.flatten.factors) : Reassociated e e' := by
  rcases exists_last e with hfactor | ⟨init, last, hlast, hsplit⟩ <;>
    rcases exists_last e' with hfactor' | ⟨init', last', hlast', hsplit'⟩
  · rw [factors_flatten_of_isFactor hfactor, factors_flatten_of_isFactor hfactor'] at h
    exact reassociated_of_isFactor hfactor hfactor' (List.cons.inj h).1 fun x x' hx hxx' => reassociated_of_factors hxx'
  · rw [hsplit'.flatten_eq] at h
    exact absurd h (factors_ne_of_isFactor hfactor)
  · rw [hsplit.flatten_eq] at h
    exact absurd h.symm (factors_ne_of_isFactor hfactor')
  · have hsize : e.size = init.size + last.size := hsplit.size_eq
    have hpos := last.exit_add_two
    have hinit_pos := init.exit_add_two
    rw [hsplit.flatten_eq, hsplit'.flatten_eq, flatten, flatten, Flat.factors, Flat.factors,
      factors_flatten_of_isFactor hlast, factors_flatten_of_isFactor hlast'] at h
    obtain ⟨hinits, hlasts⟩ := List.append_inj' h rfl
    have hreInit : Reassociated init init' := reassociated_of_factors hinits
    have hreLast : Reassociated last last' :=
      reassociated_of_isFactor hlast hlast' (List.cons.inj hlasts).1 fun x x' hx hxx' => reassociated_of_factors hxx'
    exact hsplit.trans ((Reassociated.connected hreInit hreLast .concat).trans hsplit'.symm)
termination_by e.size

/-- **Two expressions are grouped versions of each other exactly when they are the same flattened.** -/
theorem reassociated_iff_flatten_eq {e e' : Expr} : Reassociated e e' ↔ e.flatten = e'.flatten :=
  ⟨Reassociated.flatten_eq, fun h => reassociated_of_factors (congrArg Flat.factors h)⟩

end Expr
end Regular
