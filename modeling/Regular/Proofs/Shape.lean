import Regular.Proofs.Placement
/-!
# Shape — what every finished automaton looks like

A finished automaton has two states for each token but concatenations, in the order of the tokens; it is entered where
no edge leads, left where no edge starts, and has no state that a run could not pass on its way from one to the other
(`hasShape_of_build`).  Everything is read off the blocks of expressions: `map_label_block` for the labels,
`wired_of_holds` for the edges, `reaches_of_holds` for the paths.
-/
namespace Regular

namespace Token

/-- Whether the token brings states of its own. -/
def addsStates : Token → Bool
  | .connective .concat => false
  | _ => true

def literal? : Token → Option Char
  | .literal c => some c
  | _ => none

end Token

/-- A state that is left, but not out of the part of the array between two bounds nor back to the entry of that part:
by one edge if it has a label, by one or two different ones if it has none. -/
structure State.Wired (s : State) (low high entry : Nat) : Prop where
  edges_ne_nil : s.edges ≠ []
  length_le : s.edges.length ≤ 2
  nodup : s.edges.Nodup
  labeled : s.label.isSome → s.edges.length = 1
  inside : ∀ id ∈ s.edges, low ≤ id ∧ id < high ∧ id ≠ entry

namespace Automaton

structure HasShape (a : Automaton) (ts : List Token) : Prop where
  size_eq : a.size = 2 * (ts.filter Token.addsStates).length
  closed : a.IsClosed
  /-- Each token but a concatenation has two states: an unlabeled one, and one with its character if it is a literal. -/
  label_exit : ∀ k t, (ts.filter Token.addsStates)[k]? = some t → (a.state? (2 * k)).map State.label = some none
  label_entry : ∀ k t, (ts.filter Token.addsStates)[k]? = some t →
    (a.state? (2 * k + 1)).map State.label = some t.literal?
  length_labeled : ∀ id s, a.state? id = some s → s.label.isSome → s.edges.length = 1
  length_unlabeled : ∀ id s, a.state? id = some s → s.label = none → s.edges.length ≤ 2 ∧ s.edges.Nodup
  edges_eq_nil_iff : ∀ id s, a.state? id = some s → (s.edges = [] ↔ id = a.accept)
  not_hasEdge_start : ∀ source label, ¬ a.HasEdge source label a.start
  reaches_from_start : ∀ id < a.size, a.Reaches a.start id
  reaches_accept : ∀ id < a.size, a.Reaches id a.accept

end Automaton

namespace Expr

/-! ## Sizes and labels -/

/-- **A block lists the labels of its tokens**: none for the exit of a token, its character, if any, for the entry. -/
theorem map_label_block : ∀ (e : Expr) (base : Nat) (out : List Nat), (e.block base out).map State.label =
    (e.postorder.filter Token.addsStates).flatMap fun t => [none, t.literal?]
  | .literal _, _, _ => rfl
  | .quantified e q, base, out => by
    rw [block, postorder, List.map_append, map_label_block e, List.filter_append, List.flatMap_append]
    rfl
  | .connected left right .concat, base, out => by
    rw [block, postorder, List.map_append, map_label_block left, map_label_block right, List.filter_append,
      List.filter_append, List.flatMap_append, List.flatMap_append]
    exact (List.append_nil _).symm
  | .connected left right .alternate, base, out => by
    rw [block, postorder, List.map_append, List.map_append, map_label_block left, map_label_block right,
      List.filter_append, List.filter_append, List.flatMap_append, List.flatMap_append, List.append_assoc]
    rfl

theorem getElem?_flatMap_pair {α β : Type} (f g : α → β) : ∀ (xs : List α) (k : Nat),
    (xs.flatMap fun x => [f x, g x])[2 * k]? = xs[k]?.map f ∧
      (xs.flatMap fun x => [f x, g x])[2 * k + 1]? = xs[k]?.map g
  | [], _ => ⟨rfl, rfl⟩
  | _ :: _, 0 => ⟨rfl, rfl⟩
  | _ :: xs, k + 1 => getElem?_flatMap_pair f g xs k

theorem length_flatMap_pair {α β : Type} (f g : α → β) : ∀ xs : List α,
    (xs.flatMap fun x => [f x, g x]).length = 2 * xs.length
  | [] => rfl
  | x :: xs => by
    simp only [List.flatMap_cons, List.length_append, List.length_cons, List.length_nil, length_flatMap_pair f g xs]
    omega

theorem size_eq_length_filter (e : Expr) : e.size = 2 * (e.postorder.filter Token.addsStates).length := by
  rw [← length_block e 0 [], ← List.length_map State.label, map_label_block, length_flatMap_pair]

theorem label_state?_automaton (e : Expr) (i : Nat) : (e.automaton.state? i).map State.label =
    ((e.postorder.filter Token.addsStates).flatMap fun t => [none, t.literal?])[i]? := by
  rw [← map_label_block e 0 [], List.getElem?_map]
  simp [Automaton.state?, automaton]

end Expr

/-! ## Edges -/

namespace State.Wired
variable {low high entry : Nat}

theorem mono {s : State} {low' high' entry' : Nat} (h : s.Wired low high entry) (hlow : low' ≤ low)
    (hhigh : high ≤ high') (hentry : entry' = entry ∨ entry' < low ∨ high ≤ entry') : s.Wired low' high' entry' :=
  ⟨h.edges_ne_nil, h.length_le, h.nodup, h.labeled, fun id hid => by
    have := h.inside id hid
    omega⟩

theorem one {p : Nat} (label : Option Char) (hp : low ≤ p ∧ p < high ∧ p ≠ entry) :
    State.Wired ⟨label, [p]⟩ low high entry :=
  ⟨List.cons_ne_nil _ _, Nat.le_succ 1, by simp, fun _ => rfl, fun id hid => by
    rw [List.mem_singleton.1 hid]; exact hp⟩

theorem two {p q : Nat} (hpq : p ≠ q) (hp : low ≤ p ∧ p < high ∧ p ≠ entry) (hq : low ≤ q ∧ q < high ∧ q ≠ entry) :
    State.Wired (.silent [p, q]) low high entry :=
  ⟨List.cons_ne_nil _ _, Nat.le_refl 2, by simpa [State.silent] using hpq, nofun, fun id hid => by
    rcases List.mem_cons.1 hid with rfl | hid
    · exact hp
    · rw [List.mem_singleton.1 hid]; exact hq⟩

end State.Wired

namespace Automaton
variable {a : Automaton}

/-- The states of an operand, in the block of the whole: the exit by the edges it is given, the others by their own. -/
theorem wired_operand {e : Expr} {base low high entry : Nat} {out : List Nat} (h : a.Holds base (e.block base out))
    (hown : ∀ i < e.size, i ≠ e.exit →
      ∃ s, a.state? (base + i) = some s ∧ s.Wired base (base + e.size) (base + e.entry))
    (hout : (State.silent out).Wired low high entry) (hlow : low ≤ base) (hhigh : base + e.size ≤ high)
    (hentry : entry = base + e.entry ∨ entry < base ∨ base + e.size ≤ entry) (i : Nat) (hi : i < e.size) :
    ∃ s, a.state? (base + i) = some s ∧ s.Wired low high entry := by
  by_cases hexit : i = e.exit
  · rw [hexit]
    exact ⟨_, state?_exit h, hout⟩
  · obtain ⟨s, hs, hwired⟩ := hown i hi hexit
    exact ⟨s, hs, hwired.mono hlow hhigh hentry⟩

/-- **Every state of a block but its exit is left inside the block and not back to the entry.** -/
theorem wired_of_holds : ∀ (e : Expr) {base : Nat} {out : List Nat}, a.Holds base (e.block base out) → ∀ i < e.size,
    i ≠ e.exit → ∃ s, a.state? (base + i) = some s ∧ s.Wired base (base + e.size) (base + e.entry)
  | .literal c, base, out, h, i, hi, hne => by
    match i, hi with
    | 0, _ => exact absurd rfl hne
    | 1, _ => exact ⟨_, (holds_literal h).2, .one _ (by simp [Expr.size, Expr.entry])⟩
  | .quantified e q, base, out, h, i, hi, hne => by
    obtain ⟨hin, -, hentry⟩ := holds_quantified h
    have hlt := e.entry_lt_size
    rcases Expr.place_quantified hi with hi | hexit | rfl
    · refine wired_operand hin (wired_of_holds e hin) ?_ (Nat.le_refl _) ?_ ?_ i hi
      · simp only [Expr.size, Expr.entry]
        cases q
        · exact .one _ (by omega)
        · exact .two (by omega) (by omega) (by omega)
        · exact .two (by omega) (by omega) (by omega)
      · simp only [Expr.size]; omega
      · simp only [Expr.entry]; omega
    · exact absurd hexit hne
    · refine ⟨_, hentry, ?_⟩
      simp only [Expr.size, Expr.entry]
      cases q
      · exact .two (by omega) (by omega) (by omega)
      · exact .one _ (by omega)
      · exact .two (by omega) (by omega) (by omega)
  | .connected left right .concat, base, out, h, i, hi, hne => by
    obtain ⟨hl, hr⟩ := holds_concat h
    have hleft := left.entry_lt_size
    have hright := right.entry_lt_size
    simp only [Expr.size, Expr.entry, Expr.exit] at hne ⊢
    rcases Expr.place_concat hi with hi | ⟨j, hj, rfl⟩
    · exact wired_operand hl (wired_of_holds left hl) (.one _ (by omega)) (Nat.le_refl _) (by omega) (.inl rfl) i hi
    · obtain ⟨s, hs, hwired⟩ := wired_of_holds right hr j hj (by omega)
      rw [← Nat.add_assoc]
      exact ⟨s, hs, hwired.mono (by omega) (by omega) (by omega)⟩
  | .connected left right .alternate, base, out, h, i, hi, hne => by
    obtain ⟨hl, hr, -, hentry⟩ := holds_alternate h
    have hleft := left.entry_lt_size
    have hright := right.entry_lt_size
    have hout : (State.silent [base + (Expr.connected left right .alternate).exit]).Wired base
        (base + (Expr.connected left right .alternate).size) (base + (Expr.connected left right .alternate).entry) :=
      .one _ (by simp only [Expr.size, Expr.entry, Expr.exit]; omega)
    rcases Expr.place_alternate hi with hi | ⟨j, hj, rfl⟩ | hexit | rfl
    · refine wired_operand hl (wired_of_holds left hl) hout (Nat.le_refl _) ?_ ?_ i hi
      · simp only [Expr.size]; omega
      · simp only [Expr.entry]; omega
    · rw [← Nat.add_assoc]
      refine wired_operand hr (wired_of_holds right hr) hout (Nat.le_add_right _ _) ?_ ?_ j hj
      · simp only [Expr.size]; omega
      · simp only [Expr.entry]; omega
    · exact absurd hexit hne
    · refine ⟨_, hentry, ?_⟩
      simp only [Expr.size, Expr.entry]
      exact .two (by omega) (by omega) (by omega)

/-! ## Paths through a block -/

theorem reaches_of_hasEdge {p q : Nat} {label : Option Char} (h : a.HasEdge p label q) : a.Reaches p q :=
  .edge h (.refl q)

theorem reaches_silent {p q : Nat} {ids : List Nat} (h : a.state? p = some (.silent ids)) (hq : q ∈ ids) :
    a.Reaches p q :=
  reaches_of_hasEdge ((hasEdge_silent h).2 ⟨rfl, hq⟩)

/-- **Every state of a block lies between its entry and its exit.** -/
theorem reaches_of_holds : ∀ (e : Expr) {base : Nat} {out : List Nat}, a.Holds base (e.block base out) →
    ∀ i < e.size, a.Reaches (base + e.entry) (base + i) ∧ a.Reaches (base + i) (base + e.exit)
  | .literal c, base, out, h, i, hi => by
    have hstep : a.Reaches (base + 1) base := reaches_of_hasEdge ((hasEdge_consuming (holds_literal h).2).2 ⟨rfl, rfl⟩)
    match i, hi with
    | 0, _ => exact ⟨hstep, .refl _⟩
    | 1, _ => exact ⟨.refl _, hstep⟩
  | .quantified e q, base, out, h, i, hi => by
    obtain ⟨hin, -, hentry⟩ := holds_quantified h
    have hinner := reaches_of_holds e hin
    have hfirst := reaches_silent hentry (Quantifier.mem_entryEdges.2 (.inl rfl))
    have hlast := reaches_silent (state?_exit hin) (Quantifier.mem_exitEdges.2 (.inl rfl))
    have hthrough := hfirst.trans ((hinner e.exit e.exit_lt_size).1.trans hlast)
    rcases Expr.place_quantified hi with hlt | rfl | rfl
    · exact ⟨hfirst.trans (hinner i hlt).1, (hinner i hlt).2.trans hlast⟩
    · exact ⟨hthrough, .refl _⟩
    · exact ⟨.refl _, hthrough⟩
  | .connected left right .concat, base, out, h, i, hi => by
    obtain ⟨hl, hr⟩ := holds_concat h
    have hleft := reaches_of_holds left hl
    have hright := reaches_of_holds right hr
    have hjoin := reaches_silent (state?_exit hl) List.mem_cons_self
    simp only [Expr.entry, Expr.exit, ← Nat.add_assoc]
    rcases Expr.place_concat hi with hlt | ⟨j, hj, rfl⟩
    · exact ⟨(hleft i hlt).1, ((hleft i hlt).2.trans hjoin).trans (hright right.exit right.exit_lt_size).1⟩
    · rw [← Nat.add_assoc]
      exact ⟨((hleft left.exit left.exit_lt_size).1.trans hjoin).trans (hright j hj).1, (hright j hj).2⟩
  | .connected left right .alternate, base, out, h, i, hi => by
    obtain ⟨hl, hr, -, hentry⟩ := holds_alternate h
    have hleft := reaches_of_holds left hl
    have hright := reaches_of_holds right hr
    have htoLeft := reaches_silent hentry List.mem_cons_self
    have htoRight := reaches_silent hentry (List.mem_cons_of_mem _ List.mem_cons_self)
    have hfromLeft := reaches_silent (state?_exit hl) List.mem_cons_self
    have hfromRight := reaches_silent (state?_exit hr) List.mem_cons_self
    have hthrough := (htoLeft.trans (hleft left.exit left.exit_lt_size).1).trans hfromLeft
    rcases Expr.place_alternate hi with hlt | ⟨j, hj, rfl⟩ | rfl | rfl
    · exact ⟨htoLeft.trans (hleft i hlt).1, (hleft i hlt).2.trans hfromLeft⟩
    · rw [← Nat.add_assoc]
      exact ⟨htoRight.trans (hright j hj).1, (hright j hj).2.trans hfromRight⟩
    · exact ⟨hthrough, .refl _⟩
    · exact ⟨.refl _, hthrough⟩

/-! ## The finished automaton -/

theorem size_automaton (e : Expr) : e.automaton.size = e.size := by
  simp [Automaton.size, Expr.automaton]

theorem state?_automaton (e : Expr) (id : Nat) : e.automaton.state? id = (e.block 0 [])[id]? := by
  simp [Automaton.state?, Expr.automaton]

theorem state?_accept (e : Expr) : e.automaton.state? e.exit = some (.silent []) := by
  rw [state?_automaton, e.getElem?_block_exit]

theorem wired_automaton {e : Expr} {id : Nat} {s : State} (h : e.automaton.state? id = some s) (hid : id ≠ e.exit) :
    s.Wired 0 e.size e.entry := by
  have hlt := lt_size_of_state? h
  rw [size_automaton] at hlt
  obtain ⟨s', hs', hwired⟩ := wired_of_holds e (holds_automaton e) id hlt hid
  rw [Nat.zero_add, h] at hs'
  cases hs'
  simpa only [Nat.zero_add] using hwired

theorem inside_of_hasEdge {e : Expr} {source target : Nat} {label : Option Char}
    (h : e.automaton.HasEdge source label target) : target < e.size ∧ target ≠ e.entry := by
  obtain ⟨s, hs, -, ht⟩ := h
  by_cases hid : source = e.exit
  · rw [hid, state?_accept] at hs
    cases hs
    cases ht
  · exact ((wired_automaton hs hid).inside target ht).2

theorem isClosed_automaton (e : Expr) : e.automaton.IsClosed where
  start_lt := by rw [size_automaton]; exact e.entry_lt_size
  accept_lt := by rw [size_automaton]; exact e.exit_lt_size
  target_lt := fun h => by rw [size_automaton]; exact (inside_of_hasEdge h).1

theorem hasShape_automaton (e : Expr) : e.automaton.HasShape e.postorder where
  size_eq := by rw [size_automaton, e.size_eq_length_filter]
  closed := isClosed_automaton e
  label_exit := fun k t ht => by
    rw [e.label_state?_automaton, (Expr.getElem?_flatMap_pair _ _ _ k).1, ht]; rfl
  label_entry := fun k t ht => by
    rw [e.label_state?_automaton, (Expr.getElem?_flatMap_pair _ _ _ k).2, ht]; rfl
  length_labeled := fun id s hs hl => by
    by_cases hid : id = e.exit
    · rw [hid, state?_accept] at hs
      cases hs
      cases hl
    · exact (wired_automaton hs hid).labeled hl
  length_unlabeled := fun id s hs _ => by
    by_cases hid : id = e.exit
    · rw [hid, state?_accept] at hs
      cases hs
      exact ⟨Nat.zero_le _, List.nodup_nil⟩
    · exact ⟨(wired_automaton hs hid).length_le, (wired_automaton hs hid).nodup⟩
  edges_eq_nil_iff := fun id s hs => by
    constructor
    · intro hnil
      exact Classical.byContradiction fun hid => (wired_automaton hs hid).edges_ne_nil hnil
    · intro hid
      rw [show id = e.exit from hid, state?_accept] at hs
      cases hs
      rfl
  not_hasEdge_start := fun _ _ h => (inside_of_hasEdge h).2 rfl
  reaches_from_start := fun id hid => by
    rw [size_automaton] at hid
    have h := (reaches_of_holds e (holds_automaton e) id hid).1
    rwa [Nat.zero_add, Nat.zero_add] at h
  reaches_accept := fun id hid => by
    rw [size_automaton] at hid
    have h := (reaches_of_holds e (holds_automaton e) id hid).2
    rwa [Nat.zero_add, Nat.zero_add] at h

end Automaton

namespace Construction

theorem isClosed_of_build {limit : Option Nat} {ts : List Token} {a : Automaton} (h : build limit ts = .ok a) :
    a.IsClosed := by
  obtain ⟨e, -, rfl⟩ := exists_expr_of_build h
  exact Automaton.isClosed_automaton e

/-- **Every automaton that is built has the shape of its tokens**, whatever number of states is allowed. -/
theorem hasShape_of_build {limit : Option Nat} {ts : List Token} {a : Automaton} (h : build limit ts = .ok a) :
    a.HasShape ts := by
  obtain ⟨e, rfl, rfl⟩ := exists_expr_of_build h
  exact Automaton.hasShape_automaton e

theorem hasShape_of_build_alternate_star : ∃ a, build (some 8) [.literal 'a', .literal 'b', .connective .alternate,
    .quantifier .star] = .ok a ∧ a.size = 8 ∧
      a.HasShape [.literal 'a', .literal 'b', .connective .alternate, .quantifier .star] := by
  have h : build (some 8) [.literal 'a', .literal 'b', .connective .alternate, .quantifier .star] =
      .ok ⟨#[.silent [4], .consuming 'a' 0, .silent [4], .consuming 'b' 2, .silent [5, 6], .silent [1, 3], .silent [],
        .silent [5, 6]], 7, 6⟩ := rfl
  exact ⟨_, h, rfl, hasShape_of_build h⟩

end Construction
end Regular
