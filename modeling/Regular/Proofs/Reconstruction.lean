import Regular.Proofs.Shape
import Regular.Proofs.Reassociation
/-!
# Reconstruction — the expression read back from its states

A finished automaton tells its expression, up to the grouping of concatenations.  It is read from the end: the last two
states are those of the last factor's own token, their label and edges tell which one, and an operand of it ends where
these states begin and is entered where their edges lead.  So a block is determined by where it ends and where it is
entered (`determines`); where it starts comes out in the end.
-/
namespace Regular

namespace Quantifier

/-- A quantifier and the entry of its operand are known by the edges of its own entry and of its operand's exit. -/
theorem eq_of_edges {q q' : Quantifier} {inner inner' exit : Nat}
    (hentry : q.entryEdges inner exit = q'.entryEdges inner' exit)
    (hexit : q.exitEdges inner exit = q'.exitEdges inner' exit) : q = q' ∧ inner = inner' := by
  cases q <;> cases q' <;> simp_all [entryEdges, exitEdges]

theorem eq_exit_of_entryEdges {q : Quantifier} {inner exit x y : Nat} (h : q.entryEdges inner exit = [x, y]) :
    y = exit := by
  cases q <;> simp_all [entryEdges]

end Quantifier

namespace Automaton
variable {a : Automaton} {base base' : Nat} {out out' : List Nat}

/-- In the automaton, only groupings of the expression have a block that ends where the expression's ends and is entered
where it is. -/
def Determines (a : Automaton) (e : Expr) : Prop :=
  ∀ {e' : Expr} {base base' : Nat} {out out' : List Nat}, a.Holds base (e.block base out) →
    a.Holds base' (e'.block base' out') → base + e.size = base' + e'.size → base + e.entry = base' + e'.entry →
      Reassociated e e'

theorem state_unique {p p' : Nat} {s s' : State} (h : a.state? p = some s) (h' : a.state? p' = some s') (hp : p = p') :
    s = s' := by
  rw [hp, h'] at h
  exact (Option.some.inj h).symm

/-! ## Two factors that end at the same place -/

theorem not_literal_silent {c : Char} {p : Nat} {edges : List Nat}
    (h : a.Holds base ((Expr.literal c).block base out)) (h' : a.state? p = some (.silent edges)) :
    base + 1 ≠ p := by
  intro hp
  have := state_unique (holds_literal h).2 h' hp
  cases this

theorem not_quantified_alternate {e left right : Expr} {q : Quantifier}
    (h : a.Holds base ((Expr.quantified e q).block base out))
    (h' : a.Holds base' ((Expr.connected left right .alternate).block base' out')) :
    base + (Expr.quantified e q).size ≠ base' + (Expr.connected left right .alternate).size := by
  intro hend
  obtain ⟨-, -, hentry⟩ := holds_quantified h
  obtain ⟨-, -, -, hentry'⟩ := holds_alternate h'
  have hright := right.entry_lt_size
  simp only [Expr.size, Expr.entry] at hend hentry hentry'
  have hedges := congrArg State.edges (state_unique hentry hentry' (by omega))
  have hsecond := Quantifier.eq_exit_of_entryEdges hedges
  omega

theorem reassociated_of_quantified {e e' : Expr} {q q' : Quantifier}
    (h : a.Holds base ((Expr.quantified e q).block base out))
    (h' : a.Holds base' ((Expr.quantified e' q').block base' out'))
    (hend : base + (Expr.quantified e q).size = base' + (Expr.quantified e' q').size) (he : a.Determines e) :
    Reassociated (.quantified e q) (.quantified e' q') := by
  obtain ⟨hin, -, hentry⟩ := holds_quantified h
  obtain ⟨hin', -, hentry'⟩ := holds_quantified h'
  have hexit_place := e.exit_add_two
  have hexit_place' := e'.exit_add_two
  simp only [Expr.size, Expr.entry] at hend hentry hentry'
  have hinner_end : base + e.size = base' + e'.size := by omega
  have hentries := congrArg State.edges (state_unique hentry hentry' (by omega))
  have hexits := congrArg State.edges (state_unique (state?_exit hin) (state?_exit hin') (by omega))
  simp only [State.silent, hinner_end] at hentries hexits
  obtain ⟨rfl, hinner⟩ := Quantifier.eq_of_edges hentries hexits
  exact .quantified (he hin hin' hinner_end hinner) q

theorem reassociated_of_alternate {left left' right right' : Expr}
    (h : a.Holds base ((Expr.connected left right .alternate).block base out))
    (h' : a.Holds base' ((Expr.connected left' right' .alternate).block base' out'))
    (hend : base + (Expr.connected left right .alternate).size = base' + (Expr.connected left' right' .alternate).size)
    (hl : a.Determines left) (hr : a.Determines right) :
    Reassociated (.connected left right .alternate) (.connected left' right' .alternate) := by
  obtain ⟨hleft, hright, -, hentry⟩ := holds_alternate h
  obtain ⟨hleft', hright', -, hentry'⟩ := holds_alternate h'
  simp only [Expr.size, Expr.entry] at hend hentry hentry'
  have hedges := congrArg State.edges (state_unique hentry hentry' (by omega))
  simp only [State.silent, List.cons.injEq, and_true] at hedges
  -- where the right operand starts, and so where the left one ends, is known only after the right one
  have hre : Reassociated right right' := hr hright hright' (by omega) hedges.2
  have hsize := hre.size_eq
  exact .connected (hl hleft hleft' (by omega) hedges.1) hre .alternate

theorem reassociated_of_factor : ∀ {f f' : Expr}, f.IsFactor → f'.IsFactor → a.Holds base (f.block base out) →
    a.Holds base' (f'.block base' out') → base + f.size = base' + f'.size →
      (∀ x : Expr, x.size < f.size → a.Determines x) → Reassociated f f'
  | .literal c, .literal c', _, _, h, h', hend, _ => by
    have hstate := state_unique (holds_literal h).2 (holds_literal h').2 (by simp only [Expr.size] at hend; omega)
    cases hstate
    exact .refl _
  | .literal _, .quantified _ _, _, _, h, h', hend, _ =>
    absurd (by simp only [Expr.size, Expr.entry] at hend ⊢; omega) (not_literal_silent h (holds_quantified h').2.2)
  | .literal _, .connected _ _ .alternate, _, _, h, h', hend, _ =>
    absurd (by simp only [Expr.size, Expr.entry] at hend ⊢; omega) (not_literal_silent h (holds_alternate h').2.2.2)
  | .quantified _ _, .literal _, _, _, h, h', hend, _ =>
    absurd (by simp only [Expr.size, Expr.entry] at hend ⊢; omega) (not_literal_silent h' (holds_quantified h).2.2)
  | .connected _ _ .alternate, .literal _, _, _, h, h', hend, _ =>
    absurd (by simp only [Expr.size, Expr.entry] at hend ⊢; omega) (not_literal_silent h' (holds_alternate h).2.2.2)
  | .quantified _ _, .connected _ _ .alternate, _, _, h, h', hend, _ => absurd hend (not_quantified_alternate h h')
  | .connected _ _ .alternate, .quantified _ _, _, _, h, h', hend, _ => absurd hend.symm (not_quantified_alternate h' h)
  | .quantified e q, .quantified e' q', _, _, h, h', hend, hsmaller =>
    reassociated_of_quantified h h' hend (hsmaller e (by rw [Expr.size]; omega))
  | .connected left right .alternate, .connected left' right' .alternate, _, _, h, h', hend, hsmaller =>
    reassociated_of_alternate h h' hend (hsmaller left (by rw [Expr.size]; omega))
      (hsmaller right (by rw [Expr.size]; omega))
  | .connected _ _ .concat, _, hf, _, _, _, _, _ => hf.elim
  | _, .connected _ _ .concat, _, hf', _, _, _, _ => hf'.elim

/-! ## Two expressions that end at the same place -/

theorem holds_last {e init last : Expr} (hsplit : Reassociated e (.connected init last .concat))
    (h : a.Holds base (e.block base out)) : a.Holds base (init.block base [base + init.size + last.entry]) ∧
      a.Holds (base + init.size) (last.block (base + init.size) out) := by
  rw [hsplit.block_eq] at h
  exact holds_concat h

/-- A longer expression is entered before the block of its last factor. -/
theorem not_entered_before {f e init last : Expr} (hsplit : Reassociated e (.connected init last .concat))
    (hre : Reassociated f last) (hend : base + f.size = base' + e.size) : base + f.entry ≠ base' + e.entry := by
  have hsize : e.size = init.size + last.size := hsplit.size_eq
  have hentry : e.entry = init.entry := hsplit.entry_eq
  have hlast := hre.size_eq
  have hinit := init.entry_lt_size
  omega

/-- **Where a block ends and where it is entered determine its expression**, up to grouping. -/
theorem determines (e : Expr) : a.Determines e := by
  intro e' base base' out out' h h' hend hentry
  rcases Expr.exists_last e with hfactor | ⟨init, last, hlast, hsplit⟩ <;>
    rcases Expr.exists_last e' with hfactor' | ⟨init', last', hlast', hsplit'⟩
  · exact reassociated_of_factor hfactor hfactor' h h' hend fun x _ => determines x
  · have hsize' : e'.size = init'.size + last'.size := hsplit'.size_eq
    have hre : Reassociated e last' :=
      reassociated_of_factor hfactor hlast' h (holds_last hsplit' h').2 (by omega) fun x _ => determines x
    exact absurd hentry (not_entered_before hsplit' hre hend)
  · have hsize : e.size = init.size + last.size := hsplit.size_eq
    have hinit := init.exit_add_two
    have hre : Reassociated last e' :=
      reassociated_of_factor hlast hfactor' (holds_last hsplit h).2 h' (by omega) fun x _ => determines x
    exact absurd hentry.symm (not_entered_before hsplit hre.symm hend.symm)
  · have hsize : e.size = init.size + last.size := hsplit.size_eq
    have hsize' : e'.size = init'.size + last'.size := hsplit'.size_eq
    have hinit := init.exit_add_two
    have hpos := last.exit_add_two
    have hreLast : Reassociated last last' :=
      reassociated_of_factor hlast hlast' (holds_last hsplit h).2 (holds_last hsplit' h').2 (by omega)
        fun x _ => determines x
    have hstart := hreLast.size_eq
    have hreInit : Reassociated init init' := by
      refine determines init (holds_last hsplit h).1 (holds_last hsplit' h').1 (by omega) ?_
      rwa [hsplit.entry_eq, hsplit'.entry_eq] at hentry
    exact hsplit.trans ((Reassociated.connected hreInit hreLast .concat).trans hsplit'.symm)
termination_by e.size

/-- **Two expressions have the same automaton exactly when they are groupings of each other.** -/
theorem automaton_eq_iff {e e' : Expr} : e.automaton = e'.automaton ↔ Reassociated e e' := by
  refine ⟨fun h => ?_, Reassociated.automaton_eq⟩
  have hblock := holds_automaton e
  rw [h] at hblock
  have hsize : e.size = e'.size := by
    rw [← size_automaton, h, size_automaton]
  have hentry : e.entry = e'.entry := congrArg Automaton.start h
  exact determines e hblock (holds_automaton e') (by rw [hsize]) (by rw [hentry])

end Automaton

namespace Construction

/-- **Equal automata come from the same expression up to the grouping of concatenations, and from no others**: two token
sequences that are built are the post-orders of one expression each, and their automata are equal exactly when the
expressions are the same flattened, which is when regrouping turns one into the other. -/
theorem eq_iff_flatten_eq_of_build {ts ts' : List Token} {a a' : Automaton} (h : build none ts = .ok a)
    (h' : build none ts' = .ok a') : ∃ e e' : Expr, (∀ x : Expr, x.postorder = ts ↔ x = e) ∧
      (∀ x : Expr, x.postorder = ts' ↔ x = e') ∧ (a = a' ↔ e.flatten = e'.flatten) ∧
        (a = a' ↔ Reassociated e e') := by
  obtain ⟨e, rfl, rfl⟩ := exists_expr_of_build h
  obtain ⟨e', rfl, rfl⟩ := exists_expr_of_build h'
  refine ⟨e, e', fun x => ⟨Expr.postorder_injective, congrArg _⟩, fun x => ⟨Expr.postorder_injective, congrArg _⟩, ?_,
    Automaton.automaton_eq_iff⟩
  rw [Automaton.automaton_eq_iff, Expr.reassociated_iff_flatten_eq]

theorem eq_iff_flatten_eq_of_build_regrouped : ∃ a, build none [.literal 'a', .quantifier .star, .literal 'b',
    .connective .concat, .literal 'c', .connective .concat] = .ok a ∧ build none [.literal 'a', .quantifier .star,
      .literal 'b', .literal 'c', .connective .concat, .connective .concat] = .ok a ∧
    ∃ e e' : Expr, (∀ x : Expr, x.postorder = [.literal 'a', .quantifier .star, .literal 'b', .connective .concat,
        .literal 'c', .connective .concat] ↔ x = e) ∧
      (∀ x : Expr, x.postorder = [.literal 'a', .quantifier .star, .literal 'b', .literal 'c', .connective .concat,
        .connective .concat] ↔ x = e') ∧ (a = a ↔ e.flatten = e'.flatten) ∧ (a = a ↔ Reassociated e e') := by
  have h : build none [.literal 'a', .quantifier .star, .literal 'b', .connective .concat, .literal 'c',
      .connective .concat] = .ok ⟨#[.silent [1, 2], .consuming 'a' 0, .silent [5], .silent [1, 2], .silent [7],
        .consuming 'b' 4, .silent [], .consuming 'c' 6], 3, 6⟩ := rfl
  exact ⟨_, h, rfl, eq_iff_flatten_eq_of_build h rfl⟩

end Construction
end Regular
