import Regular.Proofs.Context
/-!
# Embedding — the automaton of an operand inside that of the whole

Whatever is built around an operand, its states stay as they are, moved along by the states before them
(`block_shift`); only the exit is wired on.  And nothing is wired into the middle of it: an edge into the block of an
expression, unless it starts inside and not at the exit, leads to the entry (`EnteredAt`), and each operand's block
inherits this from the block around it.
-/
namespace Regular

/-- The state with every edge leading so many places further. -/
def State.shift (k : Nat) (s : State) : State := ⟨s.label, s.edges.map (k + ·)⟩

namespace Expr

/-! ## A block at another place -/

/-- **A block that starts further on is the same block with its edges moved along.** -/
theorem block_shift (k : Nat) : ∀ (e : Expr) (base : Nat) (out : List Nat),
    e.block (k + base) (out.map (k + ·)) = (e.block base out).map (State.shift k)
  | .literal _, _, _ => rfl
  | .quantified e q, base, out => by
    have hexit : q.exitEdges (k + base + e.entry) (k + base + e.size) =
        (q.exitEdges (base + e.entry) (base + e.size)).map (k + ·) := by
      cases q <;> simp [Quantifier.exitEdges, Nat.add_assoc]
    have hentry : q.entryEdges (k + base + e.entry) (k + base + e.size) =
        (q.entryEdges (base + e.entry) (base + e.size)).map (k + ·) := by
      cases q <;> simp [Quantifier.entryEdges, Nat.add_assoc]
    rw [block, block, hexit, hentry, block_shift k e, List.map_append]
    rfl
  | .connected left right .concat, base, out => by
    have hleft := block_shift k left base [base + left.size + right.entry]
    have hright := block_shift k right (base + left.size) out
    simp only [List.map_cons, List.map_nil, ← Nat.add_assoc] at hleft hright
    rw [block, block, hleft, hright, List.map_append]
  | .connected left right .alternate, base, out => by
    have hleft := block_shift k left base [base + left.size + right.size]
    have hright := block_shift k right (base + left.size) [base + left.size + right.size]
    simp only [List.map_cons, List.map_nil, ← Nat.add_assoc] at hleft hright
    rw [block, block, hleft, hright, List.map_append, List.map_append]
    simp [State.shift, State.silent, Nat.add_assoc]

theorem getElem?_block_of_ne_exit {e : Expr} {i : Nat} (h : i ≠ e.exit) (base : Nat) (out out' : List Nat) :
    (e.block base out)[i]? = (e.block base out')[i]? := by
  obtain ⟨before, after, hlen, hsplit⟩ := block_split e base
  rw [hsplit, hsplit, List.getElem?_append, List.getElem?_append]
  split
  · rfl
  · rw [List.getElem?_cons, List.getElem?_cons, if_neg (by omega), if_neg (by omega)]

end Expr

namespace Automaton

/-- The first automaton lies in the second from a place on: each of its states but the accepting one has its label
there and its edges, moved along; and from elsewhere it is entered at its start only. -/
structure EmbeddedAt (n m : Automaton) (k : Nat) : Prop where
  state_eq : ∀ i < n.size, i ≠ n.accept → m.state? (k + i) = (n.state? i).map (State.shift k)
  label_accept : (m.state? (k + n.accept)).map State.label = some none
  entered : ∀ {source label target}, m.HasEdge source label target → ¬(k ≤ source ∧ source < k + n.size) →
    k ≤ target ∧ target < k + n.size → target = k + n.start

/-! ## Where a block is entered -/

/-- An edge into the block of an expression leads to its entry, unless it starts inside and not at the exit. -/
def EnteredAt (a : Automaton) (e : Expr) (base : Nat) : Prop :=
  ∀ {source label target}, a.HasEdge source label target → base ≤ target ∧ target < base + e.size →
    source < base ∨ base + e.size ≤ source ∨ source = base + e.exit → target = base + e.entry

variable {a : Automaton} {base : Nat} {out : List Nat}

theorem inside_of_holds {e : Expr} (h : a.Holds base (e.block base out)) {source target : Nat} {label : Option Char}
    (hedge : a.HasEdge source label target) (hsource : base ≤ source ∧ source < base + e.size)
    (hne : source ≠ base + e.exit) : base ≤ target ∧ target < base + e.size := by
  obtain ⟨s, hs, hwired⟩ := wired_of_holds e h (source - base) (by omega) (by omega)
  rw [Nat.add_sub_cancel' hsource.1] at hs
  obtain ⟨s', hs', -, htarget⟩ := hedge
  rw [hs] at hs'
  cases hs'
  have hinside := hwired.inside target htarget
  exact ⟨hinside.1, hinside.2.1⟩

/-- The exit of a block is left only by the edges that the surroundings gave it. -/
theorem mem_out_of_hasEdge {e : Expr} (h : a.Holds base (e.block base out)) {source target : Nat} {label : Option Char}
    (hedge : a.HasEdge source label target) (hsource : source = base + e.exit) : target ∈ out := by
  rw [hsource] at hedge
  exact ((hasEdge_silent (state?_exit h)).1 hedge).2

theorem EnteredAt.quantified {e : Expr} {q : Quantifier} (h : a.Holds base ((Expr.quantified e q).block base out))
    (hwhole : a.EnteredAt (.quantified e q) base) : a.EnteredAt e base := by
  obtain ⟨hin, -, hentry⟩ := holds_quantified h
  intro source label target hedge htarget hsource
  have hwhole' := @hwhole source label target hedge
  simp only [Expr.size, Expr.exit, Expr.entry] at hentry hwhole'
  by_cases hlast : source = base + e.exit
  · rcases Quantifier.mem_exitEdges.1 (mem_out_of_hasEdge hin hedge hlast) with htop | ⟨-, hagain⟩
    · omega
    · exact hagain
  · by_cases hfirst : source = base + (e.size + 1)
    · rw [hfirst] at hedge
      rcases Quantifier.mem_entryEdges.1 ((hasEdge_silent hentry).1 hedge).2 with hinto | ⟨-, hpast⟩
      · exact hinto
      · omega
    · -- an edge from further away would enter the whole, and at the whole's own entry
      have := hwhole' (by omega) (by omega)
      omega

theorem EnteredAt.concat {left right : Expr} (h : a.Holds base ((Expr.connected left right .concat).block base out))
    (hwhole : a.EnteredAt (.connected left right .concat) base) :
    a.EnteredAt left base ∧ a.EnteredAt right (base + left.size) := by
  obtain ⟨hl, hr⟩ := holds_concat h
  have hentry := left.entry_lt_size
  have hexit := right.exit_lt_size
  constructor
  all_goals
    intro source label target hedge htarget hsource
    have hwhole' := @hwhole source label target hedge
    simp only [Expr.size, Expr.exit, Expr.entry] at hwhole'
    by_cases hjoin : source = base + left.exit
    · have hnext := List.mem_singleton.1 (mem_out_of_hasEdge hl hedge hjoin)
      omega
  · by_cases hother : base + left.size ≤ source ∧ source < base + left.size + right.size ∧
        source ≠ base + left.size + right.exit
    · have := inside_of_holds hr hedge ⟨hother.1, hother.2.1⟩ hother.2.2
      omega
    · exact hwhole' (by omega) (by omega)
  · by_cases hother : base ≤ source ∧ source < base + left.size
    · have := inside_of_holds hl hedge hother hjoin
      omega
    · have := hwhole' (by omega) (by omega)
      omega

theorem EnteredAt.alternate {left right : Expr}
    (h : a.Holds base ((Expr.connected left right .alternate).block base out))
    (hwhole : a.EnteredAt (.connected left right .alternate) base) :
    a.EnteredAt left base ∧ a.EnteredAt right (base + left.size) := by
  obtain ⟨hl, hr, -, hentry⟩ := holds_alternate h
  simp only [Expr.exit, Expr.entry] at hl hr hentry
  have hinto_lt := left.entry_lt_size
  have hleft := left.exit_lt_size
  have hright := right.exit_lt_size
  constructor
  all_goals
    intro source label target hedge htarget hsource
    have hwhole' := @hwhole source label target hedge
    simp only [Expr.size, Expr.exit, Expr.entry] at hwhole'
    by_cases hfirst : source = base + (left.size + right.size + 1)
    · rw [hfirst] at hedge
      have hinto := ((hasEdge_silent hentry).1 hedge).2
      simp only [List.mem_cons, List.not_mem_nil, or_false] at hinto
      omega
    by_cases hlast : source = base + left.exit
    · have hout := List.mem_singleton.1 (mem_out_of_hasEdge hl hedge hlast)
      omega
    by_cases hlast' : source = base + left.size + right.exit
    · have hout := List.mem_singleton.1 (mem_out_of_hasEdge hr hedge hlast')
      omega
  · by_cases hother : base + left.size ≤ source ∧ source < base + left.size + right.size
    · have := inside_of_holds hr hedge hother hlast'
      omega
    · have := hwhole' (by omega) (by omega)
      omega
  · by_cases hother : base ≤ source ∧ source < base + left.size
    · have := inside_of_holds hl hedge hother hlast
      omega
    · have := hwhole' (by omega) (by omega)
      omega

/-! ## The operand of a context -/

/-- **The block around a context's operand holds the operand's block, entered at its entry.** -/
theorem holds_of_context : ∀ (C : Context) {e : Expr} {base : Nat} {out : List Nat},
    a.Holds base ((C.fill e).block base out) → a.EnteredAt (C.fill e) base →
      (∃ out', a.Holds (base + C.offset) (e.block (base + C.offset) out')) ∧ a.EnteredAt e (base + C.offset)
  | .hole, _, _, out, h, hentered => ⟨⟨out, h⟩, hentered⟩
  | .quantified C _, _, _, _, h, hentered => holds_of_context C (holds_quantified h).1 (hentered.quantified h)
  | .onLeft C _ .concat, _, _, _, h, hentered => holds_of_context C (holds_concat h).1 (hentered.concat h).1
  | .onLeft C _ .alternate, _, _, _, h, hentered => holds_of_context C (holds_alternate h).1 (hentered.alternate h).1
  | .onRight left C .concat, e, base, _, h, hentered => by
    rw [Context.offset, ← Nat.add_assoc]
    exact holds_of_context C (holds_concat h).2 (hentered.concat h).2
  | .onRight left C .alternate, e, base, _, h, hentered => by
    rw [Context.offset, ← Nat.add_assoc]
    exact holds_of_context C (holds_alternate h).2.1 (hentered.alternate h).2

theorem enteredAt_automaton (e : Expr) : e.automaton.EnteredAt e 0 := by
  intro source label target hedge _ hsource
  have hlt := hedge.lt_size
  rw [size_automaton] at hlt
  exact absurd (mem_out_of_hasEdge (holds_automaton e) hedge (by omega)) List.not_mem_nil

/-- **The automaton of an operand lies in that of the whole**, where its context puts it. -/
theorem embeddedAt_context (C : Context) (e : Expr) : e.automaton.EmbeddedAt (C.fill e).automaton C.offset := by
  obtain ⟨⟨out, hblock⟩, hentered⟩ := holds_of_context C (holds_automaton (C.fill e)) (enteredAt_automaton _)
  rw [Nat.zero_add] at hblock hentered
  refine ⟨fun i hi hne => ?_, ?_, fun hedge hsource htarget => ?_⟩
  · rw [size_automaton] at hi
    have hshift := Expr.block_shift C.offset e 0 []
    rw [Nat.add_zero, List.map_nil] at hshift
    rw [hblock.state? i (by rwa [Expr.length_block]), Expr.getElem?_block_of_ne_exit hne _ out [], hshift,
      List.getElem?_map, state?_automaton]
  · rw [show e.automaton.accept = e.exit from rfl, state?_exit hblock]
    rfl
  · rw [size_automaton] at hsource htarget
    exact hentered hedge htarget (by omega)

end Automaton

namespace Construction

/-- **Tokens that are built on their own are built the same way among others**: the automaton of a part lies in that of
the whole, after the two states for each token before it but concatenations. -/
theorem embeddedAt_of_build {limit limit' : Option Nat} {xs ps ys : List Token} {n m : Automaton}
    (hpart : build limit ps = .ok n) (hwhole : build limit' (xs ++ ps ++ ys) = .ok m) :
    n.EmbeddedAt m (2 * (xs.filter Token.addsStates).length) := by
  obtain ⟨e, rfl, rfl⟩ := exists_expr_of_build hpart
  obtain ⟨whole, htokens, rfl⟩ := exists_expr_of_build hwhole
  rw [List.append_assoc] at htokens
  obtain ⟨C, hoffset, hfill⟩ := Expr.exists_context_of_postorder htokens
  rw [← hoffset, Expr.postorder_injective (htokens.trans (hfill e).symm)]
  exact Automaton.embeddedAt_context C e

theorem embeddedAt_of_build_looped : ∃ n m, build none [.literal 'b', .quantifier .star] = .ok n ∧
    build none ([.literal 'a'] ++ [.literal 'b', .quantifier .star] ++ [.connective .alternate, .quantifier .plus]) =
      .ok m ∧ n.EmbeddedAt m 2 := by
  have hpart : build none [.literal 'b', .quantifier .star] =
      .ok ⟨#[.silent [1, 2], .consuming 'b' 0, .silent [], .silent [1, 2]], 3, 2⟩ := rfl
  have hwhole : build none ([.literal 'a'] ++ [.literal 'b', .quantifier .star] ++
      [.connective .alternate, .quantifier .plus]) =
      .ok ⟨#[.silent [6], .consuming 'a' 0, .silent [3, 4], .consuming 'b' 2, .silent [6], .silent [3, 4],
        .silent [7, 8], .silent [1, 5], .silent [], .silent [7]], 9, 8⟩ := rfl
  exact ⟨_, _, hpart, hwhole, embeddedAt_of_build hpart hwhole⟩

end Construction
end Regular
