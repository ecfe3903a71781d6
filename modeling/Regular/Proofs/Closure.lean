import Regular.Automaton.Closure
import Regular.Automaton.Path
/-!
# Closure — the search finds what silent edges lead to

The invariant of the work list is `Explored`: only states that drift from the given ones are marked, and a marked state
whose silent edges are not all marked is still pending.  Each round keeps it (`Explored.skip`, `Explored.leave`), and
when nothing is pending it says that the marks are the answer (`closure_of_lt`).
-/
namespace Regular
namespace Automaton

def IsMarked (marks : Array Bool) (id : Nat) : Prop := marks[id]? = some true

theorem IsMarked.lt_size {marks : Array Bool} {id : Nat} (h : IsMarked marks id) : id < marks.size :=
  (Array.getElem?_eq_some_iff.1 h).1

theorem isMarked_set {marks : Array Bool} {id i : Nat} (h : id < marks.size) :
    IsMarked (marks.set id true h) i ↔ i = id ∨ IsMarked marks i := by
  unfold IsMarked
  rw [Array.getElem?_set]
  by_cases hi : id = i
  · simp [hi]
  · rw [if_neg hi]
    exact ⟨.inr, fun h => h.resolve_left (Ne.symm hi)⟩

/-! ## Marking -/

/-- **Marking adds the given numbers to the marked ones**, and what it lists are numbers it added. -/
theorem markFresh_eq_some : ∀ {ids : List Nat} {marks marks' : Array Bool} {fresh : List Nat},
    markFresh marks ids = some (marks', fresh) → marks'.size = marks.size ∧
      (∀ i, IsMarked marks' i ↔ i ∈ ids ∨ IsMarked marks i) ∧ (∀ i, IsMarked marks' i ↔ i ∈ fresh ∨ IsMarked marks i)
  | [], marks, marks', fresh, h => by
    cases h
    simp
  | id :: ids, marks, marks', fresh, h => by
    rw [markFresh] at h
    split at h
    · rename_i hlt
      split at h
      · rename_i hm
        obtain ⟨hsize, hids, hfresh⟩ := markFresh_eq_some h
        have hid : IsMarked marks id := by rw [IsMarked, Array.getElem?_eq_getElem hlt, hm]
        refine ⟨hsize, fun i => ?_, hfresh⟩
        rw [hids, List.mem_cons]
        by_cases hi : i = id
        · subst hi
          simp [hid]
        · simp [hi]
      · split at h
        · cases h
        · rename_i marks'' fresh' hrest
          cases h
          obtain ⟨hsize, hids, hfresh⟩ := markFresh_eq_some hrest
          refine ⟨by rw [hsize, Array.size_set], fun i => ?_, fun i => ?_⟩
          · rw [hids, isMarked_set, List.mem_cons, or_left_comm, or_assoc]
          · rw [hfresh, isMarked_set, List.mem_cons, or_left_comm, or_assoc]
    · cases h

theorem markFresh_isSome : ∀ {ids : List Nat} {marks : Array Bool}, (∀ id ∈ ids, id < marks.size) →
    (markFresh marks ids).isSome
  | [], _, _ => rfl
  | id :: ids, marks, h => by
    have hlt := h id List.mem_cons_self
    have hrest := fun i hi => h i (List.mem_cons_of_mem id hi)
    rw [markFresh, dif_pos hlt]
    split
    · exact markFresh_isSome hrest
    · have hset : (markFresh (marks.set id true hlt) ids).isSome := markFresh_isSome (by simpa using hrest)
      obtain ⟨r, hr⟩ := Option.isSome_iff_exists.1 hset
      rw [hr]; rfl

/-! ## The search -/

/-- What holds between two rounds of a search that began at the given states. -/
structure Explored (a : Automaton) (ids : List Nat) (marks : Array Bool) (pending : List Nat) : Prop where
  size_eq : marks.size = a.size
  drift : ∀ {i}, IsMarked marks i → ∃ p ∈ ids, a.Drift p i
  begun : ∀ p ∈ ids, IsMarked marks p
  marked : ∀ i ∈ pending, IsMarked marks i
  /-- A marked state has been left by all its silent edges, or it still waits. -/
  left : ∀ {i j}, IsMarked marks i → a.HasEdge i none j → i ∈ pending ∨ IsMarked marks j

variable {a : Automaton} {ids pending : List Nat} {marks : Array Bool} {id : Nat}

theorem Drift.snoc {p q r : Nat} (h : a.Drift p q) (edge : a.HasEdge q none r) : a.Drift p r :=
  h.trans (.silent edge (.refl r))

theorem Explored.skip {s : State} (h : Explored a ids marks (id :: pending)) (hs : a.state? id = some s)
    (hl : s.label.isSome) : Explored a ids marks pending :=
  ⟨h.size_eq, h.drift, h.begun, fun i hi => h.marked i (List.mem_cons_of_mem id hi), fun {i j} hi hedge => by
    rcases h.left hi hedge with hmem | hj
    · rcases List.mem_cons.1 hmem with rfl | hmem
      · obtain ⟨s', hs', hnone, -⟩ := hedge
        rw [hs] at hs'
        cases hs'
        rw [hnone] at hl
        cases hl
      · exact .inl hmem
    · exact .inr hj⟩

/-- A state without a label is left by marking the targets of its edges; those not marked before wait from then on. -/
theorem Explored.leave {s : State} {marks' : Array Bool} {fresh : List Nat} (h : Explored a ids marks (id :: pending))
    (hs : a.state? id = some s) (hl : ¬ s.label.isSome) (hmark : markFresh marks s.edges = some (marks', fresh)) :
    Explored a ids marks' (fresh ++ pending) := by
  obtain ⟨hsize, hedges, hfresh⟩ := markFresh_eq_some hmark
  have hnone : s.label = none := by simpa using hl
  obtain ⟨p, hp, hid⟩ := h.drift (h.marked id List.mem_cons_self)
  refine ⟨hsize.trans h.size_eq, fun {i} hi => ?_, fun p hp => (hedges p).2 (.inr (h.begun p hp)), fun i hi => ?_,
    fun {i j} hi hedge => ?_⟩
  · rcases (hedges i).1 hi with he | hi
    · exact ⟨p, hp, hid.snoc ⟨s, hs, hnone, he⟩⟩
    · exact h.drift hi
  · rcases List.mem_append.1 hi with hi | hi
    · exact (hfresh i).2 (.inl hi)
    · exact (hedges i).2 (.inr (h.marked i (List.mem_cons_of_mem id hi)))
  · rcases (hfresh i).1 hi with hi | hi
    · exact .inl (List.mem_append_left pending hi)
    · rcases h.left hi hedge with hmem | hj
      · rcases List.mem_cons.1 hmem with rfl | hmem
        · obtain ⟨s', hs', -, hj⟩ := hedge
          rw [hs] at hs'
          cases hs'
          exact .inr ((hedges j).2 (.inl hj))
        · exact .inl (List.mem_append_right fresh hmem)
      · exact .inr ((hedges j).2 (.inr hj))

theorem Explored.lt_size (h : Explored a ids marks (id :: pending)) : id < a.size :=
  h.size_eq ▸ (h.marked id List.mem_cons_self).lt_size

theorem Explored.markFresh_isSome {s : State} (hedge : ∀ {p q}, a.HasEdge p none q → q < a.size)
    (h : Explored a ids marks pending) (hs : a.state? id = some s) (hl : ¬ s.label.isSome) :
    (markFresh marks s.edges).isSome :=
  Automaton.markFresh_isSome fun i hi => by
    rw [h.size_eq]
    exact hedge ⟨s, hs, by simpa using hl, hi⟩

/-- **The search ends with nothing pending**, if no silent edge leads out of the automaton. -/
theorem explore_explored (hedge : ∀ {p q}, a.HasEdge p none q → q < a.size) (h : Explored a ids marks pending) :
    ∃ marks', a.explore marks pending = some marks' ∧ Explored a ids marks' [] := by
  fun_induction explore a marks pending with
  | case1 marks => exact ⟨marks, rfl, h⟩
  | case2 marks id rest hs =>
    rw [state?_eq_some h.lt_size] at hs
    cases hs
  | case3 marks id rest s hs hl ih => exact ih (h.skip hs hl)
  | case4 marks id rest s hs hl hmark =>
    have := h.markFresh_isSome hedge hs hl
    rw [hmark] at this
    cases this
  | case5 marks id rest s hs hl marks' fresh hmark ih => exact ih (h.leave hs hl hmark)

theorem mem_marked {q : Nat} : q ∈ marked marks ↔ IsMarked marks q := by
  rw [marked, List.mem_filter, List.mem_range, beq_iff_eq]
  exact ⟨And.right, fun h => ⟨IsMarked.lt_size h, h⟩⟩

theorem pairwise_marked (marks : Array Bool) : (marked marks).Pairwise (· < ·) := List.pairwise_lt_range.filter _

/-- **A closure comes in ascending order**, each state once. -/
theorem pairwise_of_closure {out : List Nat} (h : a.closure ids = some out) : out.Pairwise (· < ·) := by
  unfold closure at h
  split at h
  · cases h
  · obtain ⟨marks, -, rfl⟩ := Option.map_eq_some_iff.1 h
    exact pairwise_marked marks

theorem not_isMarked_replicate (n i : Nat) : ¬ IsMarked (Array.replicate n false) i := by
  unfold IsMarked
  rw [Array.getElem?_replicate]
  split <;> simp

theorem Explored.drift_of_done {p q : Nat} (h : Explored a ids marks []) (hp : IsMarked marks p) (hd : a.Drift p q) :
    IsMarked marks q := by
  induction hd with
  | refl => exact hp
  | silent edge _ ih => exact ih ((h.left hp edge).resolve_left List.not_mem_nil)

/-- A search begins with the given states marked, and all of them pending. -/
theorem explored_begin (h : markFresh (Array.replicate a.size false) ids = some (marks, pending)) :
    Explored a ids marks pending := by
  obtain ⟨hsize, hids, hpending⟩ := markFresh_eq_some h
  have honly : ∀ {i}, IsMarked marks i ↔ i ∈ ids := fun {i} => by
    rw [hids]
    exact or_iff_left (not_isMarked_replicate _ i)
  exact ⟨by rw [hsize, Array.size_replicate], fun {i} hi => ⟨i, honly.1 hi, .refl i⟩, fun p hp => honly.2 hp,
    fun i hi => (hpending i).2 (.inl hi),
    fun {i j} hi _ => .inl (((hpending i).1 hi).resolve_right (not_isMarked_replicate _ i))⟩

/-- **A search with nothing pending has marked what silent edges lead to.** -/
theorem mem_marked_of_explored {q : Nat} (h : Explored a ids marks []) :
    q ∈ marked marks ↔ ∃ p ∈ ids, a.Drift p q := by
  rw [mem_marked]
  exact ⟨h.drift, fun ⟨p, hp, hd⟩ => h.drift_of_done (h.begun p hp) hd⟩

/-- **The closure is what silent edges lead to**: it is found whenever the given states and the targets of silent edges
are states of the automaton, loops or not. -/
theorem closure_of_lt (hedge : ∀ {p q}, a.HasEdge p none q → q < a.size) (hids : ∀ id ∈ ids, id < a.size) :
    ∃ out, a.closure ids = some out ∧ ∀ q, q ∈ out ↔ ∃ p ∈ ids, a.Drift p q := by
  have hsome : (markFresh (Array.replicate a.size false) ids).isSome := markFresh_isSome (by simpa using hids)
  obtain ⟨⟨marks, pending⟩, hmark⟩ := Option.isSome_iff_exists.1 hsome
  obtain ⟨marks', hexplore, hdone⟩ := explore_explored hedge (explored_begin hmark)
  exact ⟨marked marks', by rw [closure, hmark]; exact congrArg (Option.map marked) hexplore,
    fun _ => mem_marked_of_explored hdone⟩

end Automaton
end Regular
