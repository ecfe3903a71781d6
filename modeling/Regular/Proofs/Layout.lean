import Regular.Automaton.Construction
import Regular.Pattern.Expr
/-!
# Layout — where the states of an expression lie

The construction changes one array for all its fragments, but what it leaves behind can be said without any change:
the states of an expression fill one block, the blocks of its operands first, and all that the surroundings decide
about a block is where it starts and which edges leave its exit (`Expr.block`).  One token turns the blocks of a stack
of expressions into the blocks of the next stack (`step_laid`), so a finished automaton is the block of the one
expression whose post-order was read (`exists_expr_of_build`, `build_postorder`).
-/
namespace Regular

namespace Quantifier

/-- The edges of the new entry, given the operand's entry and the new exit. -/
def entryEdges : Quantifier → Nat → Nat → List Nat
  | .plus, inner, _ => [inner]
  | .optional, inner, exit | .star, inner, exit => [inner, exit]

/-- The edges of the operand's exit, given the operand's entry and the new exit. -/
def exitEdges : Quantifier → Nat → Nat → List Nat
  | .optional, _, exit => [exit]
  | .plus, inner, exit | .star, inner, exit => [inner, exit]

theorem mem_entryEdges {q : Quantifier} {inner exit p : Nat} :
    p ∈ q.entryEdges inner exit ↔ p = inner ∨ q ≠ .plus ∧ p = exit := by
  cases q <;> simp [entryEdges]

theorem mem_exitEdges {q : Quantifier} {inner exit p : Nat} :
    p ∈ q.exitEdges inner exit ↔ p = exit ∨ q ≠ .optional ∧ p = inner := by
  cases q <;> simp [exitEdges, or_comm]

end Quantifier

namespace Expr

/-! ## Blocks -/

def size : Expr → Nat
  | .literal _ => 2
  | .quantified e _ => e.size + 2
  | .connected left right .concat => left.size + right.size
  | .connected left right .alternate => left.size + right.size + 2

/-- The entry, counted from the start of the block. -/
def entry : Expr → Nat
  | .literal _ => 1
  | .quantified e _ => e.size + 1
  | .connected left _ .concat => left.entry
  | .connected left right .alternate => left.size + right.size + 1

/-- The exit, counted from the start of the block. -/
def exit : Expr → Nat
  | .literal _ => 0
  | .quantified e _ => e.size
  | .connected left right .concat => left.size + right.exit
  | .connected left right .alternate => left.size + right.size

/-- The states of an expression whose block starts at a base and whose exit has the given edges. -/
def block : Expr → Nat → List Nat → List State
  | .literal c, base, out => [.silent out, .consuming c base]
  | .quantified e q, base, out =>
    e.block base (q.exitEdges (base + e.entry) (base + e.size)) ++
      [.silent out, .silent (q.entryEdges (base + e.entry) (base + e.size))]
  | .connected left right .concat, base, out =>
    left.block base [base + left.size + right.entry] ++ right.block (base + left.size) out
  | .connected left right .alternate, base, out =>
    left.block base [base + left.size + right.size] ++
      (right.block (base + left.size) [base + left.size + right.size] ++
        [.silent out, .silent [base + left.entry, base + left.size + right.entry]])

/-- The automaton of an expression: its block alone, with no edge leaving the exit. -/
def automaton (e : Expr) : Automaton := ⟨(e.block 0 []).toArray, e.entry, e.exit⟩

@[simp] theorem length_block : ∀ (e : Expr) (base : Nat) (out : List Nat), (e.block base out).length = e.size
  | .literal _, _, _ => rfl
  | .quantified e _, base, _ => by
    rw [block, List.length_append, length_block e base]; rfl
  | .connected left right .concat, base, out => by
    rw [block, List.length_append, length_block left base, length_block right _ out]; rfl
  | .connected left right .alternate, base, _ => by
    rw [block, List.length_append, List.length_append, length_block left base, length_block right]; rfl

theorem entry_lt_size : ∀ e : Expr, e.entry < e.size
  | .literal _ => Nat.one_lt_two
  | .quantified _ _ => Nat.lt_succ_self _
  | .connected left right .concat => by
    have := entry_lt_size left
    simp only [entry, size]; omega
  | .connected _ _ .alternate => Nat.lt_succ_self _

theorem exit_lt_size : ∀ e : Expr, e.exit < e.size
  | .literal _ => Nat.zero_lt_two
  | .quantified e _ => by simp only [exit, size]; omega
  | .connected left right .concat => by
    have := exit_lt_size right
    simp only [exit, size]; omega
  | .connected _ _ .alternate => by simp only [exit, size]; omega

/-! Each place of a block is a place of an operand's block or one of the two that the token added. -/

theorem place_quantified {e : Expr} {q : Quantifier} {i : Nat} (h : i < (quantified e q).size) :
    i < e.size ∨ i = (quantified e q).exit ∨ i = (quantified e q).entry := by
  simp only [size, exit, entry] at h ⊢
  omega

theorem place_concat {left right : Expr} {i : Nat} (h : i < (connected left right .concat).size) :
    i < left.size ∨ ∃ j < right.size, i = left.size + j := by
  simp only [size] at h
  by_cases hlt : i < left.size
  · exact .inl hlt
  · exact .inr ⟨i - left.size, by omega, by omega⟩

theorem place_alternate {left right : Expr} {i : Nat} (h : i < (connected left right .alternate).size) :
    i < left.size ∨ (∃ j < right.size, i = left.size + j) ∨ i = (connected left right .alternate).exit ∨
      i = (connected left right .alternate).entry := by
  simp only [size, exit, entry] at h ⊢
  by_cases hlt : i < left.size
  · exact .inl hlt
  · by_cases hlt' : i < left.size + right.size
    · exact .inr (.inl ⟨i - left.size, by omega, by omega⟩)
    · omega

/-- **The exit is the one place of a block that its surroundings fill in.** -/
theorem block_split : ∀ (e : Expr) (base : Nat), ∃ before after : List State, before.length = e.exit ∧
    ∀ out, e.block base out = before ++ .silent out :: after
  | .literal c, base => ⟨[], [.consuming c base], rfl, fun _ => rfl⟩
  | .quantified e q, base =>
    ⟨e.block base (q.exitEdges (base + e.entry) (base + e.size)),
      [.silent (q.entryEdges (base + e.entry) (base + e.size))],
      length_block e base _, fun _ => rfl⟩
  | .connected left right .concat, base => by
    obtain ⟨before, after, hlen, hsplit⟩ := block_split right (base + left.size)
    refine ⟨left.block base [base + left.size + right.entry] ++ before, after, ?_, fun out => ?_⟩
    · rw [List.length_append, length_block, hlen]; rfl
    · rw [block, hsplit, List.append_assoc]
  | .connected left right .alternate, base => by
    refine ⟨left.block base [base + left.size + right.size] ++
      right.block (base + left.size) [base + left.size + right.size],
      [.silent [base + left.entry, base + left.size + right.entry]], ?_, fun out => ?_⟩
    · rw [List.length_append, length_block, length_block]; rfl
    · rw [block, List.append_assoc]

theorem getElem?_block_exit (e : Expr) (base : Nat) (out : List Nat) :
    (e.block base out)[e.exit]? = some (.silent out) := by
  obtain ⟨before, after, hlen, hsplit⟩ := block_split e base
  rw [hsplit, ← hlen]
  simp

/-- **Giving the exit other edges gives the block of the new edges**, wherever in an array it lies. -/
theorem modify_block (e : Expr) (pre post : List State) (out out' : List Nat) (f : State → State)
    (hf : f (.silent out) = .silent out') :
    (pre ++ (e.block pre.length out ++ post)).toArray.modify (pre.length + e.exit) f =
      (pre ++ (e.block pre.length out' ++ post)).toArray := by
  obtain ⟨before, after, hlen, hsplit⟩ := block_split e pre.length
  have hmod : ∀ xs ys : List State, (xs ++ .silent out :: ys).modify xs.length f = xs ++ .silent out' :: ys := by
    intro xs ys
    have := List.modifyTailIdx_add (List.modifyHead f) 0 xs (.silent out :: ys)
    rw [Nat.add_zero, List.modifyTailIdx_zero, List.modifyHead_cons, hf] at this
    exact this
  have := hmod (pre ++ before) (after ++ post)
  rw [List.modify_toArray, hsplit, hsplit, ← hlen, ← List.length_append]
  simp only [List.append_assoc, List.cons_append] at this ⊢
  rw [this]

/-! ## Reading tokens one at a time -/

theorem rebuild_cons (t : Token) (ts : List Token) (es : List Expr) :
    Expr.rebuild es (t :: ts) = (Expr.rebuild es [t]).bind (Expr.rebuild · ts) := by
  rcases t with c | q | k
  · cases es <;> rfl
  · rcases es with _ | ⟨e, es⟩
    · rfl
    · rw [Expr.rebuild, Expr.rebuild, rebuild_nil]; rfl
  · rcases es with _ | ⟨right, _ | ⟨left, es⟩⟩
    · rfl
    · rfl
    · rw [Expr.rebuild, Expr.rebuild, rebuild_nil]; rfl

theorem rebuild_append (xs ys : List Token) (es : List Expr) :
    rebuild es (xs ++ ys) = (rebuild es xs).bind (rebuild · ys) := by
  induction xs generalizing es with
  | nil => rw [List.nil_append, rebuild_nil]; rfl
  | cons t xs ih =>
    rw [List.cons_append, rebuild_cons, rebuild_cons t xs, Option.bind_assoc]
    exact congrArg _ (funext ih)

end Expr

namespace Construction

/-! ## The array of a stack of expressions -/

/-- The blocks of the expressions on the stack, the oldest first, with every exit open. -/
def arena : List Expr → List State
  | [] => []
  | e :: es => arena es ++ e.block (arena es).length []

def fragments : List Expr → List Fragment
  | [] => []
  | e :: es => ⟨(arena es).length + e.entry, (arena es).length + e.exit⟩ :: fragments es

/-- The construction with a stack of expressions built and none of them joined. -/
def laid (es : List Expr) : Construction := ⟨(arena es).toArray, fragments es⟩

@[simp] theorem length_fragments : ∀ es : List Expr, (fragments es).length = es.length
  | [] => rfl
  | _ :: es => congrArg (· + 1) (length_fragments es)

@[simp] theorem length_arena_cons (e : Expr) (es : List Expr) :
    (arena (e :: es)).length = (arena es).length + e.size := by
  rw [arena, List.length_append, Expr.length_block]

/-! ## One token -/

/-- The outcome of a rule that needs the given number of states in all. -/
def within {α : Type} (limit : Option Nat) (needed : Nat) (result : α) : Except PatternError α :=
  match limit with
  | none => .ok result
  | some most => if needed ≤ most then .ok result else .error (.tooManyStates most)

def Fits (limit : Option Nat) (n : Nat) : Prop := ∀ most ∈ limit, n ≤ most

theorem fits_nil (limit : Option Nat) : Fits limit (arena []).length := fun _ _ => Nat.zero_le _

theorem within_eq_ok {α : Type} {limit : Option Nat} {needed : Nat} {result r : α}
    (h : within limit needed result = .ok r) : Fits limit needed ∧ r = result := by
  unfold within at h
  split at h
  · cases h
    exact ⟨fun _ hm => (by cases hm), rfl⟩
  · split at h
    · rename_i most hle
      cases h
      exact ⟨fun m hm => (by cases hm; exact hle), rfl⟩
    · cases h

theorem within_of_fits {α : Type} {limit : Option Nat} {needed : Nat} (h : Fits limit needed) (result : α) :
    within limit needed result = .ok result := by
  unfold within
  split
  · rfl
  · exact if_pos (h _ rfl)

theorem within_cases {α : Type} (limit : Option Nat) (needed : Nat) (result : α) :
    (Fits limit needed ∧ within limit needed result = .ok result) ∨
      ∃ most, limit = some most ∧ within limit needed result = .error (.tooManyStates most) := by
  rcases limit with _ | most
  · exact .inl ⟨nofun, rfl⟩
  · by_cases h : needed ≤ most
    · exact .inl ⟨fun m hm => (by cases hm; exact h), if_pos h⟩
    · exact .inr ⟨most, rfl, if_neg h⟩

/-- Whether there is a result depends on the number of states and not on the result. -/
theorem within_ok_or_error (limit : Option Nat) (needed : Nat) :
    (∀ {α : Type} (result : α), within limit needed result = .ok result) ∨
      ∃ fault, ∀ {α : Type} (result : α), within limit needed result = .error fault := by
  rcases limit with _ | most
  · exact .inl fun _ => rfl
  · by_cases h : needed ≤ most
    · exact .inl fun _ => if_pos h
    · exact .inr ⟨.tooManyStates most, fun _ => if_neg h⟩

/-- What is refused for a number of states is refused for any larger one, whatever the result would be. -/
theorem within_error_of_le {α β : Type} {limit : Option Nat} {needed more : Nat} {result : α} {fault : PatternError}
    (h : within limit needed result = .error fault) (hle : needed ≤ more) (result' : β) :
    within limit more result' = .error fault := by
  rcases limit with _ | most
  · cases h
  · by_cases hfits : needed ≤ most
    · rw [show within (some most) needed result = .ok result from if_pos hfits] at h
      cases h
    · rw [show within (some most) needed result = .error (.tooManyStates most) from if_neg hfits] at h
      cases h
      exact if_neg fun hmore => hfits (Nat.le_trans hle hmore)

theorem map_within {α β : Type} (limit : Option Nat) (needed : Nat) (result : α) (f : α → β) :
    (within limit needed result).map f = within limit needed (f result) := by
  rcases within_ok_or_error limit needed with h | ⟨_, h⟩ <;> rw [h, h] <;> rfl

theorem push_within (limit : Option Nat) (needed : Nat) (stack : List Fragment) (f : Fragment) (states : Array State) :
    push stack (within limit needed (f, states)) = within limit needed ⟨states, f :: stack⟩ := by
  rcases within_ok_or_error limit needed with h | ⟨_, h⟩ <;> rw [h, h] <;> rfl

/-- **Two states are added or none**: a limit that admits only the first of them refuses both. -/
theorem addPair_toArray (limit : Option Nat) (pre : List State) (entry : Nat → State) :
    addPair limit pre.toArray entry =
      within limit (pre.length + 2)
        (⟨pre.length + 1, pre.length⟩, (pre ++ [.silent [], entry pre.length]).toArray) := by
  rcases limit with _ | most
  · simp [addPair, addState, within]
  · simp only [addPair, addState, within, List.size_toArray, List.push_toArray]
    by_cases h : most ≤ pre.length
    · rw [if_pos h, if_neg (by omega)]
    · rw [if_neg h]
      by_cases h' : most ≤ (pre ++ [State.silent []]).length
      · have : ¬ pre.length + 2 ≤ most := by simp at h'; omega
        simp only [List.size_toArray, if_pos h', if_neg this]
      · have : pre.length + 2 ≤ most := by simp at h'; omega
        simp only [List.size_toArray, if_neg h', if_pos this]
        simp

theorem addEdges_block (e : Expr) (pre post : List State) (out more : List Nat) :
    addEdges (pre ++ (e.block pre.length out ++ post)).toArray (pre.length + e.exit) more =
      (pre ++ (e.block pre.length (out ++ more) ++ post)).toArray :=
  e.modify_block pre post out _ _ rfl

theorem setEdges_block (e : Expr) (pre post : List State) (out targets : List Nat) :
    setEdges (pre ++ (e.block pre.length out ++ post)).toArray (pre.length + e.exit) targets =
      (pre ++ (e.block pre.length targets ++ post)).toArray :=
  e.modify_block pre post out _ _ rfl

theorem addEdges_second (left right : Expr) (pre post : List State) (leftOut out more : List Nat) :
    addEdges (pre ++ (left.block pre.length leftOut ++ (right.block (pre.length + left.size) out ++ post))).toArray
        (pre.length + left.size + right.exit) more =
      (pre ++ (left.block pre.length leftOut ++
        (right.block (pre.length + left.size) (out ++ more) ++ post))).toArray := by
  have h := addEdges_block right (pre ++ left.block pre.length leftOut) post out more
  rw [List.length_append, Expr.length_block] at h
  simpa only [List.append_assoc] using h

theorem arena_pair (left right : Expr) (es : List Expr) :
    arena (right :: left :: es) =
      arena es ++ (left.block (arena es).length [] ++ right.block ((arena es).length + left.size) []) := by
  rw [arena, length_arena_cons, arena, List.append_assoc]

/-! The rule of each kind of token, on the blocks of its operands. -/

theorem literal_laid (limit : Option Nat) (c : Char) (es : List Expr) :
    push (fragments es) (literal limit c (arena es).toArray) =
      within limit (arena (.literal c :: es)).length (laid (.literal c :: es)) := by
  rw [literal, addPair_toArray, push_within, length_arena_cons]
  rfl

theorem quantify_laid (limit : Option Nat) (q : Quantifier) (e : Expr) (es : List Expr) :
    push (fragments es)
        (quantify limit q ⟨(arena es).length + e.entry, (arena es).length + e.exit⟩ (arena (e :: es)).toArray) =
      within limit (arena (.quantified e q :: es)).length (laid (.quantified e q :: es)) := by
  cases q
  all_goals
    simp only [quantify, addPair_toArray, map_within, push_within, length_arena_cons]
    simp only [arena, List.append_assoc, addEdges_block, setEdges_block]
    rfl

theorem connect_laid (limit : Option Nat) (k : Connective) (left right : Expr) (es : List Expr)
    (h : Fits limit (arena (right :: left :: es)).length) :
    push (fragments es)
        (connect limit k ⟨(arena es).length + left.entry, (arena es).length + left.exit⟩
          ⟨(arena (left :: es)).length + right.entry, (arena (left :: es)).length + right.exit⟩
          (arena (right :: left :: es)).toArray) =
      within limit (arena (.connected left right k :: es)).length (laid (.connected left right k :: es)) := by
  cases k with
  | concat =>
    have hlen : (arena (.connected left right .concat :: es)).length = (arena (right :: left :: es)).length := by
      simp only [length_arena_cons, Expr.size]; omega
    rw [hlen, within_of_fits h, connect, arena_pair, addEdges_block, length_arena_cons,
      Nat.add_assoc _ left.size right.exit]
    rfl
  | alternate =>
    simp only [connect, addPair_toArray, map_within, push_within, length_arena_cons]
    simp only [arena_pair, List.append_assoc, addEdges_block, addEdges_second, ← Nat.add_assoc, Expr.size]
    simp only [laid, arena, fragments, Expr.block, Expr.entry, Expr.exit, List.nil_append, ← Nat.add_assoc]

/-- **One token turns the blocks of a stack of expressions into those of the next stack**, or is refused: for want of
operands, or because the next stack has more states than allowed. -/
theorem step_laid {limit : Option Nat} {es : List Expr} (h : Fits limit (arena es).length) (position : Nat)
    (t : Token) : step limit position t (laid es) =
      match Expr.rebuild es [t] with
      | none => .error (.tooFewOperands t position t.arity es.length)
      | some es' => within limit (arena es').length (laid es') := by
  rcases t with c | q | k
  · rw [show Expr.rebuild es [.literal c] = some (.literal c :: es) by cases es <;> rfl]
    exact literal_laid limit c es
  · rcases es with _ | ⟨e, es⟩
    · rfl
    · exact quantify_laid limit q e es
  · rcases es with _ | ⟨right, _ | ⟨left, es⟩⟩
    · rfl
    · rfl
    · exact connect_laid limit k left right es h

/-! ## The whole run -/

/-- **A run that succeeds ends at the blocks of the expressions its tokens leave on the stack.** -/
theorem rebuild_of_run {limit : Option Nat} : ∀ {ts : List Token} {position : Nat} {es : List Expr} {k : Construction},
    Fits limit (arena es).length → (run limit position ts (laid es)).2 = .ok k →
      ∃ es', Expr.rebuild es ts = some es' ∧ k = laid es'
  | [], _, es, k, _, h => ⟨es, Expr.rebuild_nil es, by cases h; rfl⟩
  | t :: ts, position, es, k, hfits, h => by
    rw [run] at h
    simp only [step_laid hfits] at h
    rw [Expr.rebuild_cons]
    cases hes : Expr.rebuild es [t] with
    | none => rw [hes] at h; cases h
    | some es' =>
      rw [hes] at h
      simp only at h
      split at h
      · cases h
      · rename_i k' hk'
        obtain ⟨hfits', rfl⟩ := within_eq_ok hk'
        exact rebuild_of_run hfits' h

/-- **Tokens in two parts**: the second part starts at the construction that the first one ends at. -/
theorem run_append (limit : Option Nat) (ys : List Token) : ∀ (xs : List Token) (position : Nat) (k : Construction),
    (run limit position (xs ++ ys) k).2 =
      (run limit position xs k).2.bind fun k => (run limit (position + xs.length) ys k).2
  | [], _, _ => rfl
  | t :: xs, position, k => by
    rw [List.cons_append, run, run, List.length_cons, Nat.add_comm xs.length 1, ← Nat.add_assoc]
    cases step limit position t k with
    | error fault => rfl
    | ok k' => exact run_append limit ys xs (position + 1) k'

/-- The array only grows while tokens are read. -/
theorem length_arena_le_of_rebuild : ∀ {ts : List Token} {es es' : List Expr}, Expr.rebuild es ts = some es' →
    (arena es).length ≤ (arena es').length
  | [], es, es', h => by
    rw [Expr.rebuild_nil] at h
    cases h
    exact Nat.le_refl _
  | .literal c :: ts, es, es', h => by
    have h' : Expr.rebuild (.literal c :: es) ts = some es' := by cases es <;> exact h
    have hrest := length_arena_le_of_rebuild h'
    rw [length_arena_cons] at hrest
    omega
  | .quantifier q :: ts, e :: es, es', h => by
    have h' : Expr.rebuild (.quantified e q :: es) ts = some es' := h
    have hrest := length_arena_le_of_rebuild h'
    simp only [length_arena_cons, Expr.size] at hrest ⊢
    omega
  | .connective k :: ts, right :: left :: es, es', h => by
    have h' : Expr.rebuild (.connected left right k :: es) ts = some es' := h
    have hrest := length_arena_le_of_rebuild h'
    cases k <;> (simp only [length_arena_cons, Expr.size] at hrest ⊢; omega)

/-- **A run that finds its operands ends at the blocks of the expressions they leave**, unless these have more states
than allowed: none of the stacks before have more. -/
theorem run_of_rebuild {limit : Option Nat} : ∀ {ts : List Token} {position : Nat} {es es' : List Expr},
    Fits limit (arena es).length → Expr.rebuild es ts = some es' →
      (run limit position ts (laid es)).2 = within limit (arena es').length (laid es')
  | [], _, es, es', hfits, h => by
    rw [Expr.rebuild_nil] at h
    cases h
    exact (within_of_fits hfits _).symm
  | t :: ts, position, es, es', hfits, h => by
    rw [Expr.rebuild_cons] at h
    obtain ⟨es₁, h₁, h₂⟩ := Option.bind_eq_some_iff.1 h
    rw [run, step_laid hfits, h₁]
    rcases within_cases limit (arena es₁).length (laid es₁) with ⟨hfits₁, hok⟩ | ⟨most, -, herror⟩
    · simp only [hok]
      exact run_of_rebuild hfits₁ h₂
    · simp only [herror]
      exact (within_error_of_le herror (length_arena_le_of_rebuild h₂) _).symm

theorem finish_laid_singleton (e : Expr) : finish (laid [e]) = .ok e.automaton := by
  simp only [laid, fragments, arena, finish, List.nil_append, List.length_nil, Nat.zero_add]
  rfl

theorem finish_laid_eq_ok {es : List Expr} {a : Automaton} (h : finish (laid es) = .ok a) :
    ∃ e, es = [e] ∧ a = e.automaton := by
  rcases es with _ | ⟨e, _ | ⟨e', es⟩⟩
  · cases h
  · rw [finish_laid_singleton] at h
    cases h
    exact ⟨e, rfl, rfl⟩
  · cases h

/-- **What is built is the automaton of the expression whose post-order was read.** -/
theorem exists_expr_of_build {limit : Option Nat} {ts : List Token} {a : Automaton} (h : build limit ts = .ok a) :
    ∃ e : Expr, e.postorder = ts ∧ a = e.automaton := by
  rw [build_eq] at h
  rw [show empty = laid [] from rfl] at h
  cases hrun : (run limit 0 ts (laid [])).2 with
  | error e => rw [hrun] at h; cases h
  | ok k =>
    rw [hrun] at h
    obtain ⟨es, hes, rfl⟩ := rebuild_of_run (fun _ _ => Nat.zero_le _) hrun
    obtain ⟨e, rfl, rfl⟩ := finish_laid_eq_ok h
    exact ⟨e, Expr.rebuild_eq_singleton_iff.1 hes, rfl⟩

/-- **Every post-order is built**, if nothing limits the number of states. -/
theorem build_postorder (e : Expr) : build none e.postorder = .ok e.automaton := by
  have hrun : (run none 0 e.postorder (laid [])).2 = .ok (laid [e]) :=
    run_of_rebuild (fits_nil none) (Expr.rebuild_eq_singleton_iff.2 rfl)
  rw [build_eq, show empty = laid [] from rfl, hrun]
  exact finish_laid_singleton e

end Construction
end Regular
