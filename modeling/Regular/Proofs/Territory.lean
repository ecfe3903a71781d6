import Regular.Automaton.Guarded
import Regular.Proofs.Shape
/-!
# Territory — which states belong to which fragment

At every moment of a run the fragments on the stack divide the state array among them: each owns the states of one
interval, with its entry and its exit, no edge crosses from one interval into another, and the states still to be wired
are the exits (`DividedInto`).  All of it is read off the blocks of the expressions that the stack stands for.  It is
also why no rule ever meets a state that it does not expect: the run with every check made has the same outcome as the
one without (`run?_laid`).
-/
namespace Regular

/-- A fragment with the states it owns, from one number to below another. -/
structure Part where
  fragment : Fragment
  low : Nat
  high : Nat
  deriving DecidableEq, Repr

namespace Part

def Owns (p : Part) (id : Nat) : Prop := p.low ≤ id ∧ id < p.high

instance (p : Part) (id : Nat) : Decidable (p.Owns id) := inferInstanceAs (Decidable (_ ∧ _))

/-- The parts, the latest first, lie one below the other from a number down to the first state; none is empty. -/
def Adjoin : List Part → Nat → Prop
  | [], high => high = 0
  | p :: ps, high => p.high = high ∧ p.low < p.high ∧ Adjoin ps p.low

theorem Adjoin.exists_owns_iff : ∀ {ps : List Part} {high : Nat}, Adjoin ps high → ∀ id,
    (∃ p ∈ ps, p.Owns id) ↔ id < high
  | [], _, h, id => by
    rw [show _ = 0 from h]
    simp
  | p :: ps, high, ⟨hhigh, hlt, hrest⟩, id => by
    simp only [List.mem_cons, or_and_right, exists_or, exists_eq_left]
    rw [exists_owns_iff hrest, Owns]
    omega

theorem Adjoin.high_le : ∀ {ps : List Part} {high : Nat}, Adjoin ps high → ∀ p ∈ ps, p.high ≤ high
  | _ :: _, _, ⟨hhigh, _, _⟩, _, .head _ => Nat.le_of_eq hhigh
  | _ :: _, _, ⟨hhigh, hlt, hrest⟩, p, .tail _ hp => by
    have := high_le hrest p hp
    omega

/-- **Of two parts the later one lies above the earlier one.** -/
theorem Adjoin.pairwise : ∀ {ps : List Part} {high : Nat}, Adjoin ps high →
    ps.Pairwise fun later earlier => earlier.high ≤ later.low
  | [], _, _ => .nil
  | _ :: _, _, ⟨_, _, hrest⟩ => .cons hrest.high_le (pairwise hrest)

end Part

namespace Construction

/-- The fragments of a construction own the parts, in the order of the stack, and between them all the states. -/
structure DividedInto (k : Construction) (parts : List Part) : Prop where
  fragments : parts.map Part.fragment = k.stack
  adjoin : Part.Adjoin parts k.states.size
  exists_owns_iff : ∀ id, (∃ p ∈ parts, p.Owns id) ↔ id < k.states.size
  disjoint : parts.Pairwise fun later earlier => ∀ id, later.Owns id → ¬earlier.Owns id
  owns_entry : ∀ p ∈ parts, p.Owns p.fragment.entry
  owns_exit : ∀ p ∈ parts, p.Owns p.fragment.exit
  entry_ne_exit : ∀ p ∈ parts, p.fragment.entry ≠ p.fragment.exit
  inside : ∀ (id : Nat) (s : State), k.states[id]? = some s → ∀ target ∈ s.edges, ∃ p ∈ parts, p.Owns id ∧ p.Owns target
  open_iff : ∀ id : Nat, k.states[id]? = some (.silent []) ↔ ∃ f ∈ k.stack, f.exit = id
  labeled : ∀ (id : Nat) (s : State), k.states[id]? = some s → s.label.isSome → s.edges ≠ []

end Construction

/-! ## The parts of a stack of expressions -/

namespace Expr

theorem entry_ne_exit : ∀ e : Expr, e.entry ≠ e.exit
  | .literal _ => Nat.one_ne_zero
  | .quantified e _ => Nat.succ_ne_self e.size
  | .connected left right .concat => by
    have := left.entry_lt_size
    simp only [entry, exit]; omega
  | .connected left right .alternate => Nat.succ_ne_self (left.size + right.size)

/-- What the fragment of an expression owns, if its block starts at a base. -/
def part (e : Expr) (base : Nat) : Part := ⟨⟨base + e.entry, base + e.exit⟩, base, base + e.size⟩

end Expr

namespace Construction

def parts : List Expr → List Part
  | [] => []
  | e :: es => e.part (arena es).length :: parts es

theorem map_fragment_parts : ∀ es : List Expr, (parts es).map Part.fragment = fragments es
  | [] => rfl
  | _ :: es => congrArg (_ :: ·) (map_fragment_parts es)

theorem adjoin_parts : ∀ es : List Expr, Part.Adjoin (parts es) (arena es).length
  | [] => rfl
  | e :: es => ⟨(length_arena_cons e es).symm, Nat.lt_add_of_pos_right (Nat.zero_lt_of_lt e.entry_lt_size),
      adjoin_parts es⟩

/-- **Each part is that of an expression, with its block in the array.** -/
theorem exists_block_of_mem_parts : ∀ {es : List Expr} {p : Part}, p ∈ parts es → ∃ (e : Expr) (pre post : List State),
    p = e.part pre.length ∧ arena es = pre ++ (e.block pre.length [] ++ post)
  | e :: es, _, .head _ => ⟨e, arena es, [], rfl, by rw [List.append_nil]; rfl⟩
  | e :: es, _, .tail _ hp => by
    obtain ⟨e', pre, post, hpart, hsplit⟩ := exists_block_of_mem_parts hp
    exact ⟨e', pre, post ++ e.block (arena es).length [], hpart, by
      rw [arena, hsplit, List.append_assoc, List.append_assoc]⟩

/-- **A state of a part is the exit and open, or it is wired inside the part.** -/
theorem state_of_owns {es : List Expr} {p : Part} (hp : p ∈ parts es) {id : Nat} (hid : p.Owns id) :
    ∃ s, (arena es).toArray[id]? = some s ∧
      (id = p.fragment.exit ∧ s = .silent [] ∨ id ≠ p.fragment.exit ∧ s.Wired p.low p.high p.fragment.entry) := by
  obtain ⟨e, pre, post, rfl, hsplit⟩ := exists_block_of_mem_parts hp
  have hblock : (Automaton.mk (arena es).toArray 0 0).Holds pre.length (e.block pre.length []) :=
    ⟨pre, post, hsplit, rfl⟩
  obtain ⟨hlow, hhigh⟩ := hid
  by_cases hexit : id = pre.length + e.exit
  · exact ⟨.silent [], by rw [hexit]; exact Automaton.state?_exit hblock, .inl ⟨hexit, rfl⟩⟩
  · obtain ⟨i, rfl⟩ := Nat.exists_eq_add_of_le hlow
    obtain ⟨s, hs, hwired⟩ := Automaton.wired_of_holds e hblock i (Nat.lt_of_add_lt_add_left hhigh)
      fun heq => hexit (congrArg _ heq)
    exact ⟨s, hs, .inr ⟨hexit, hwired⟩⟩

theorem state_of_getElem? {es : List Expr} {id : Nat} {s : State} (h : (arena es).toArray[id]? = some s) :
    ∃ p ∈ parts es, p.Owns id ∧
      (id = p.fragment.exit ∧ s = .silent [] ∨ id ≠ p.fragment.exit ∧ s.Wired p.low p.high p.fragment.entry) := by
  have hlt := (Array.getElem?_eq_some_iff.1 h).1
  obtain ⟨p, hp, hid⟩ := ((adjoin_parts es).exists_owns_iff id).2 hlt
  obtain ⟨s', hs', hcase⟩ := state_of_owns hp hid
  rw [h] at hs'
  cases hs'
  exact ⟨p, hp, hid, hcase⟩

theorem bounds_of_mem_parts {es : List Expr} {p : Part} (hp : p ∈ parts es) :
    p.Owns p.fragment.entry ∧ p.Owns p.fragment.exit ∧ p.fragment.entry ≠ p.fragment.exit := by
  obtain ⟨e, pre, -, rfl, -⟩ := exists_block_of_mem_parts hp
  exact ⟨⟨Nat.le_add_right _ _, Nat.add_lt_add_left e.entry_lt_size _⟩,
    ⟨Nat.le_add_right _ _, Nat.add_lt_add_left e.exit_lt_size _⟩, fun h => e.entry_ne_exit (Nat.add_left_cancel h)⟩

/-- **The stack of expressions divides the array into their blocks.** -/
theorem dividedInto_laid (es : List Expr) : (laid es).DividedInto (parts es) where
  fragments := map_fragment_parts es
  adjoin := adjoin_parts es
  exists_owns_iff := (adjoin_parts es).exists_owns_iff
  disjoint := (adjoin_parts es).pairwise.imp fun hle id hlater hearlier =>
    Nat.lt_irrefl id (Nat.lt_of_lt_of_le hearlier.2 (Nat.le_trans hle hlater.1))
  owns_entry := fun _ hp => (bounds_of_mem_parts hp).1
  owns_exit := fun _ hp => (bounds_of_mem_parts hp).2.1
  entry_ne_exit := fun _ hp => (bounds_of_mem_parts hp).2.2
  inside := fun id s hs target htarget => by
    obtain ⟨p, hp, hid, ⟨-, rfl⟩ | ⟨-, hwired⟩⟩ := state_of_getElem? hs
    · cases htarget
    · have hinside := hwired.inside target htarget
      exact ⟨p, hp, hid, hinside.1, hinside.2.1⟩
  open_iff := fun id => by
    show _ ↔ ∃ f ∈ fragments es, f.exit = id
    rw [← map_fragment_parts]
    constructor
    · intro hs
      obtain ⟨p, hp, -, ⟨hexit, -⟩ | ⟨-, hwired⟩⟩ := state_of_getElem? hs
      · exact ⟨p.fragment, List.mem_map_of_mem hp, hexit.symm⟩
      · exact absurd rfl hwired.edges_ne_nil
    · rintro ⟨f, hf, rfl⟩
      obtain ⟨p, hp, rfl⟩ := List.mem_map.1 hf
      obtain ⟨s, hs, ⟨-, rfl⟩ | ⟨hne, -⟩⟩ := state_of_owns hp (bounds_of_mem_parts hp).2.1
      · exact hs
      · exact absurd rfl hne
  labeled := fun id s hs hlabel => by
    obtain ⟨p, -, -, ⟨-, rfl⟩ | ⟨-, hwired⟩⟩ := state_of_getElem? hs
    · cases hlabel
    · exact hwired.edges_ne_nil

/-! ## No check fails -/

theorem getElem?_exit (e : Expr) (pre post : List State) (out : List Nat) :
    (pre ++ (e.block pre.length out ++ post)).toArray[pre.length + e.exit]? = some (.silent out) := by
  have hexit : e.exit < (e.block pre.length out).length := by
    rw [Expr.length_block]; exact e.exit_lt_size
  rw [List.getElem?_toArray, List.getElem?_append_right (Nat.le_add_right _ _), Nat.add_sub_cancel_left,
    List.getElem?_append_left hexit, e.getElem?_block_exit]

theorem addEdge?_block (e : Expr) (pre post : List State) (out : List Nat) (target : Nat) :
    addEdge? (pre ++ (e.block pre.length out ++ post)).toArray (pre.length + e.exit) target =
      some (pre ++ (e.block pre.length (out ++ [target]) ++ post)).toArray := by
  rw [addEdge?, getElem?_exit, ← addEdges_block]
  rfl

theorem addEdge?_twice (e : Expr) (pre post : List State) (first second : Nat) :
    ((addEdge? (pre ++ (e.block pre.length [] ++ post)).toArray (pre.length + e.exit) first).bind fun states =>
        addEdge? states (pre.length + e.exit) second) =
      some (pre ++ (e.block pre.length [first, second] ++ post)).toArray := by
  rw [addEdge?_block, Option.bind_some, addEdge?_block]
  rfl

theorem setEdges?_block (e : Expr) (pre post : List State) (targets : List Nat) :
    setEdges? (pre ++ (e.block pre.length [] ++ post)).toArray (pre.length + e.exit) targets =
      some (pre ++ (e.block pre.length targets ++ post)).toArray := by
  rw [setEdges?, getElem?_exit]
  exact congrArg some (setEdges_block e pre post [] targets)

theorem addEdge?_second (left right : Expr) (pre post : List State) (leftOut out : List Nat) (target : Nat) :
    addEdge? (pre ++ (left.block pre.length leftOut ++ (right.block (pre.length + left.size) out ++ post))).toArray
        (pre.length + left.size + right.exit) target =
      some (pre ++ (left.block pre.length leftOut ++
        (right.block (pre.length + left.size) (out ++ [target]) ++ post))).toArray := by
  have h := addEdge?_block right (pre ++ left.block pre.length leftOut) post out target
  rw [List.length_append, Expr.length_block] at h
  simpa only [List.append_assoc] using h

theorem addEdge?_both (left right : Expr) (pre post : List State) (target : Nat) :
    ((addEdge? (pre ++ (left.block pre.length [] ++ (right.block (pre.length + left.size) [] ++ post))).toArray
        (pre.length + left.exit) target).bind fun states =>
          addEdge? states (pre.length + left.size + right.exit) target) =
      some (pre ++ (left.block pre.length [target] ++
        (right.block (pre.length + left.size) [target] ++ post))).toArray := by
  rw [addEdge?_block, Option.bind_some, addEdge?_second]
  rfl

theorem wire?_within {limit : Option Nat} {needed : Nat} {g : Fragment} {states states' : Array State}
    {wiring : Fragment → Array State → Option (Array State)} (h : wiring g states = some states') :
    wire? (within limit needed (g, states)) wiring = some (within limit needed (g, states')) := by
  rcases within_ok_or_error limit needed with hok | ⟨_, herror⟩
  · rw [hok, hok, wire?, h]; rfl
  · rw [herror, herror]; rfl

theorem push?_laid (limit : Option Nat) (needed : Nat) (e : Expr) (es : List Expr) :
    push? (fragments es) (within limit needed
        (⟨(arena es).length + e.entry, (arena es).length + e.exit⟩, (arena (e :: es)).toArray)) =
      some (within limit needed (laid (e :: es))) := by
  have hexit : (arena (e :: es)).toArray[(arena es).length + e.exit]? = some (.silent []) := by
    have h := getElem?_exit e (arena es) [] []
    rwa [List.append_nil] at h
  rcases within_ok_or_error limit needed with hok | ⟨_, herror⟩
  · rw [hok, hok, push?, hexit]; rfl
  · rw [herror, herror]; rfl

theorem quantify?_laid (limit : Option Nat) (q : Quantifier) (e : Expr) (es : List Expr) :
    quantify? limit q ⟨(arena es).length + e.entry, (arena es).length + e.exit⟩ (arena (e :: es)).toArray =
      some (within limit (arena (.quantified e q :: es)).length
        (⟨(arena es).length + (Expr.quantified e q).entry, (arena es).length + (Expr.quantified e q).exit⟩,
          (arena (.quantified e q :: es)).toArray)) := by
  cases q
  all_goals
    simp only [quantify?, addPair_toArray, length_arena_cons]
    simp only [arena, List.append_assoc]
  · exact (wire?_within (addEdge?_block e _ _ [] _)).trans rfl
  · exact (wire?_within (setEdges?_block e _ _ _)).trans rfl
  · exact (wire?_within (addEdge?_twice e _ _ _ _)).trans rfl

theorem connect?_laid (limit : Option Nat) (k : Connective) (left right : Expr) (es : List Expr)
    (h : Fits limit (arena (right :: left :: es)).length) :
    connect? limit k ⟨(arena es).length + left.entry, (arena es).length + left.exit⟩
        ⟨(arena (left :: es)).length + right.entry, (arena (left :: es)).length + right.exit⟩
        (arena (right :: left :: es)).toArray =
      some (within limit (arena (.connected left right k :: es)).length
        (⟨(arena es).length + (Expr.connected left right k).entry,
            (arena es).length + (Expr.connected left right k).exit⟩,
          (arena (.connected left right k :: es)).toArray)) := by
  cases k with
  | concat =>
    have hlen : (arena (.connected left right .concat :: es)).length = (arena (right :: left :: es)).length := by
      simp only [length_arena_cons, Expr.size]; omega
    rw [hlen, within_of_fits h, connect?, arena_pair, addEdge?_block, length_arena_cons,
      Nat.add_assoc _ left.size right.exit]
    rfl
  | alternate =>
    simp only [connect?, addPair_toArray, length_arena_cons]
    simp only [arena_pair, List.append_assoc]
    refine (wire?_within (addEdge?_both left right _ _ _)).trans ?_
    simp only [arena, Expr.block, Expr.entry, Expr.exit, Expr.size, ← Nat.add_assoc]

/-- **No check fails at a token** that finds the blocks of a stack of expressions. -/
theorem step?_laid {limit : Option Nat} {es : List Expr} (h : Fits limit (arena es).length) (position : Nat)
    (t : Token) : step? limit position t (laid es) = some (step limit position t (laid es)) := by
  rw [step_laid h]
  rcases t with c | q | k
  · rw [show Expr.rebuild es [.literal c] = some (.literal c :: es) by cases es <;> rfl]
    show push? (fragments es) (literal limit c (arena es).toArray) = _
    simp only [literal, addPair_toArray, length_arena_cons]
    exact push?_laid limit _ (.literal c) es
  · rcases es with _ | ⟨e, es⟩
    · rfl
    · show (quantify? limit q _ (arena (e :: es)).toArray).bind (push? (fragments es)) = _
      rw [quantify?_laid]
      exact push?_laid limit _ (.quantified e q) es
  · rcases es with _ | ⟨right, _ | ⟨left, es⟩⟩
    · rfl
    · rfl
    · show (connect? limit k _ _ (arena (right :: left :: es)).toArray).bind (push? (fragments es)) = _
      rw [connect?_laid limit k left right es h]
      exact push?_laid limit _ (.connected left right k) es

/-- **No check fails in a run**, whatever its outcome. -/
theorem run?_laid {limit : Option Nat} : ∀ {ts : List Token} {es : List Expr} (position : Nat),
    Fits limit (arena es).length → run? limit position ts (laid es) = some (run limit position ts (laid es)).2
  | [], _, _, _ => rfl
  | t :: ts, es, position, h => by
    rw [run?, step?_laid h, run]
    cases hstep : step limit position t (laid es) with
    | error fault => rfl
    | ok k =>
      rw [step_laid h] at hstep
      cases hread : Expr.rebuild es [t] with
      | none => rw [hread] at hstep; cases hstep
      | some es' =>
        rw [hread] at hstep
        obtain ⟨hfits, rfl⟩ := within_eq_ok hstep
        exact run?_laid (position + 1) hfits

/-! ## Every moment of a run -/

/-- The constructions that a run passes through: each one that a token finds, and the last one. -/
def moments (limit : Option Nat) : Nat → List Token → Construction → List Construction
  | _, [], k => [k]
  | position, t :: ts, k =>
    match step limit position t k with
    | .error _ => [k]
    | .ok k' => k :: moments limit (position + 1) ts k'

/-- **The moments of a run are where the tokens so far lead.** -/
theorem mem_moments_iff (limit : Option Nat) (k : Construction) : ∀ (ts : List Token) (position : Nat)
    (k₀ : Construction), k ∈ moments limit position ts k₀ ↔ ∃ us, us <+: ts ∧ (run limit position us k₀).2 = .ok k
  | [], _, k₀ => by
    simp only [moments, List.mem_singleton, List.prefix_nil, exists_eq_left, run, Except.ok.injEq, eq_comm]
  | t :: ts, position, k₀ => by
    simp only [List.prefix_cons_iff, or_and_right, exists_or, exists_eq_left, moments, run, Except.ok.injEq]
    rw [eq_comm]
    cases hstep : step limit position t k₀ with
    | error fault =>
      rw [List.mem_singleton]
      refine ⟨.inl, Or.rec id ?_⟩
      rintro ⟨_, ⟨us, rfl, -⟩, hrun⟩
      rw [run, hstep] at hrun
      cases hrun
    | ok k₁ =>
      rw [List.mem_cons, mem_moments_iff limit k ts (position + 1) k₁]
      refine or_congr_right ⟨?_, ?_⟩
      · rintro ⟨us, hus, hrun⟩
        exact ⟨t :: us, ⟨us, rfl, hus⟩, by rw [run, hstep]; exact hrun⟩
      · rintro ⟨_, ⟨us, rfl, hus⟩, hrun⟩
        rw [run, hstep] at hrun
        exact ⟨us, hus, hrun⟩

/-- **At every moment of a run the fragments divide the states among them, and no check fails**, whatever the tokens,
the number of states allowed and the outcome. -/
theorem dividedInto_of_mem_moments (limit : Option Nat) (ts : List Token) :
    (∀ k ∈ moments limit 0 ts empty, ∃ parts, k.DividedInto parts) ∧
      run? limit 0 ts empty = some (run limit 0 ts empty).2 := by
  have hfits : Fits limit (arena []).length := fun _ _ => Nat.zero_le _
  refine ⟨fun k hk => ?_, run?_laid 0 hfits⟩
  obtain ⟨us, -, hrun⟩ := (mem_moments_iff limit k ts 0 empty).1 hk
  obtain ⟨es, -, rfl⟩ := rebuild_of_run hfits hrun
  exact ⟨parts es, dividedInto_laid es⟩

theorem dividedInto_of_mem_moments_refused :
    (∃ k ∈ moments (some 5) 0 [.literal 'a', .literal 'b', .connective .alternate] empty,
      k.stack.length = 2 ∧ ∃ parts, k.DividedInto parts) ∧
        run? (some 5) 0 [.literal 'a', .literal 'b', .connective .alternate] empty =
          some (.error (.tooManyStates 5)) := by
  have h := dividedInto_of_mem_moments (some 5) [.literal 'a', .literal 'b', .connective .alternate]
  have hlast : (⟨#[.silent [], .consuming 'a' 0, .silent [], .consuming 'b' 2], [⟨3, 2⟩, ⟨1, 0⟩]⟩ : Construction) ∈
      moments (some 5) 0 [.literal 'a', .literal 'b', .connective .alternate] empty :=
    .tail _ (.tail _ (.head _))
  exact ⟨⟨_, hlast, rfl, h.1 _ hlast⟩, h.2⟩

end Construction
end Regular
