import Mathlib.Data.List.Chain
import Regular.Pattern.Compile
import Regular.Proofs.Balance
import Regular.Proofs.Layout
import Regular.Proofs.Reordering
/-!
# Juxtaposition — the malformed infix texts that are compiled

The reader refuses an operator without a left operand and a parenthesis without a partner; what else is wrong with a
text has to show in the number of operands that are left.  It does not show if two operands stand side by side and
another is missing: `ab.` is reordered as `a.b` is.  That is the only way.  As long as no two operands stand side by
side (`Separated`), a text has at most one operand more than it joins, and none more where an operand is expected; a
text that reaches the bound is the start of an expression (`Reader.Follows`), and one that has fallen short stays
short.
-/
namespace Regular
namespace Pattern

/-! ## Texts without operands side by side -/

def EndsOperand (c : Char) : Prop := c ∉ Token.reserved ∨ c ∈ [')', '?', '+', '*']

def StartsOperand (c : Char) : Prop := c ∉ Token.reserved ∨ c = '('

instance : DecidablePred EndsOperand := fun c =>
  inferInstanceAs (Decidable (c ∉ Token.reserved ∨ c ∈ [')', '?', '+', '*']))

instance : DecidablePred StartsOperand := fun c => inferInstanceAs (Decidable (c ∉ Token.reserved ∨ c = '('))

/-- No two operands stand side by side. -/
def Separated (s : List Char) : Prop := s.IsChain fun x y => EndsOperand x → ¬StartsOperand y

instance (s : List Char) : Decidable (Separated s) :=
  inferInstanceAs (Decidable (s.IsChain fun x y => EndsOperand x → ¬StartsOperand y))

theorem not_startsOperand_char (q : Quantifier) : ¬StartsOperand q.char := by
  cases q <;> decide

theorem endsOperand_char (q : Quantifier) : EndsOperand q.char := by
  cases q <;> decide

theorem separated_append_singleton {s : List Char} (hs : Separated s) {c : Char} (hc : ¬StartsOperand c) :
    Separated (s ++ [c]) := by
  refine List.isChain_append.2 ⟨hs, .singleton _, fun x _ y hy _ => ?_⟩
  cases hy
  exact hc

theorem separated_connective {s t : List Char} (hs : Separated s) (ht : Separated t) (k : Connective) :
    Separated (s ++ k.char :: t) := by
  have hends : ¬EndsOperand k.char := by cases k <;> decide
  have hstarts : ¬StartsOperand k.char := by cases k <;> decide
  refine List.isChain_append.2 ⟨hs, List.isChain_cons.2 ⟨fun y _ hk => absurd hk hends, ht⟩, fun x _ y hy _ => ?_⟩
  cases hy
  exact hstarts

/-- **In a derived text no two operands stand side by side.** -/
theorem separated_of_derives {n : Nonterminal} {s : List Char} {e : Expr} (h : Derives n s e) : Separated s := by
  induction h with
  | expression _ ih | term _ ih | factor _ ih => exact ih
  | alternate _ _ ihl ihr => exact separated_connective ihl ihr .alternate
  | concat _ _ ihl ihr => exact separated_connective ihl ihr .concat
  | quantified _ q ih => exact separated_append_singleton ih (not_startsOperand_char q)
  | literal _ => exact .singleton _
  | group _ ih =>
    have hinner := separated_append_singleton ih (c := ')') (by decide)
    exact List.isChain_cons.2 ⟨fun y _ hopen => absurd hopen (by decide), hinner⟩

/-! ## Starts of expressions -/

/-- After the text, in which so many groups are open, a text derived from the nonterminal may follow. -/
inductive Awaits : Nonterminal → Nat → List Char → Prop where
  | start : Awaits .expression 0 []
  | group {d : Nat} {s : List Char} (h : Awaits .factor d s) : Awaits .expression (d + 1) (s ++ ['('])
  | alternate {d : Nat} {s t : List Char} {e : Expr} (h : Awaits .expression d s) (ht : Derives .expression t e) :
      Awaits .term d (s ++ (t ++ ['|']))
  | term {d : Nat} {s : List Char} (h : Awaits .expression d s) : Awaits .term d s
  | concat {d : Nat} {s t : List Char} {e : Expr} (h : Awaits .term d s) (ht : Derives .term t e) :
      Awaits .factor d (s ++ (t ++ ['.']))
  | factor {d : Nat} {s : List Char} (h : Awaits .term d s) : Awaits .factor d s

/-- The text ends with one derived from the nonterminal, where such a text may stand. -/
def Completes (n : Nonterminal) (d : Nat) (s : List Char) : Prop :=
  ∃ t u e, s = t ++ u ∧ Awaits n d t ∧ Derives n u e

section Completes
variable {d : Nat} {s : List Char}

theorem Awaits.literal (h : Awaits .factor d s) {c : Char} (hc : c ∉ Token.reserved) : Completes .factor d (s ++ [c]) :=
  ⟨s, [c], .literal c, rfl, h, .factor (.literal hc)⟩

theorem Completes.quantified (h : Completes .factor d s) (q : Quantifier) : Completes .factor d (s ++ [q.char]) := by
  obtain ⟨t, u, e, rfl, ht, hu⟩ := h
  exact ⟨t, u ++ [q.char], _, List.append_assoc t u _, ht, .quantified hu q⟩

theorem Completes.term (h : Completes .factor d s) : Completes .term d s := by
  obtain ⟨t, u, e, rfl, ht, hu⟩ := h
  cases ht with
  | concat ht hl => exact ⟨_, _, _, by simp only [List.append_assoc]; rfl, ht, .concat hl hu⟩
  | factor ht => exact ⟨t, u, e, rfl, ht, .term hu⟩

theorem Completes.expression (h : Completes .term d s) : Completes .expression d s := by
  obtain ⟨t, u, e, rfl, ht, hu⟩ := h
  cases ht with
  | alternate ht hl => exact ⟨_, _, _, by simp only [List.append_assoc]; rfl, ht, .alternate hl hu⟩
  | term ht => exact ⟨t, u, e, rfl, ht, .expression hu⟩

theorem Completes.close (h : Completes .expression (d + 1) s) : Completes .factor d (s ++ [')']) := by
  obtain ⟨t, u, e, rfl, ht, hu⟩ := h
  cases ht with
  | group ht => exact ⟨_, _, e, by simp only [List.append_assoc]; rfl, ht, .factor (.group hu)⟩

theorem Completes.connective (h : Completes .factor d s) : ∀ k : Connective, Awaits .factor d (s ++ [k.char])
  | .concat => by
    obtain ⟨t, u, e, rfl, ht, hu⟩ := h.term
    rw [List.append_assoc]
    exact .concat ht hu
  | .alternate => by
    obtain ⟨t, u, e, rfl, ht, hu⟩ := h.term.expression
    rw [List.append_assoc]
    exact .factor (.alternate ht hu)

theorem Completes.isExpression (h : Completes .factor 0 s) : IsExpression s := by
  obtain ⟨t, u, e, rfl, ht, hu⟩ := h.term.expression
  cases ht with
  | start => exact ⟨e, hu⟩

end Completes

/-! ## How many operands a text gives -/

def Reader.balance (r : Reader) : Int := Pattern.balance (r.emitted ++ operators r.pending)

/-- An operator that arrives changes the balance by its own arity, whatever it releases. -/
theorem balance_release (r : Reader) (t : Token) (b : Bool) :
    Reader.balance ⟨(release t r.pending r.emitted).1, .operator t :: (release t r.pending r.emitted).2, b⟩ =
      1 - t.arity + r.balance := by
  have hperm := (release_perm t r.pending r.emitted).1
  show balance (_ ++ t :: operators _) = _
  rw [balance_perm List.perm_middle, balance, balance_perm hperm]
  rfl

/-! ## The reader on separated text -/

/-- The reader after a text without operands side by side.  The balance is at most none where an operand is expected
and one elsewhere; at that bound the text starts an expression. -/
structure Reader.Follows (r : Reader) (s : List Char) : Prop where
  awaits : r.expectsOperand = true → r.balance ≤ 0 ∧ (r.balance = 0 → Awaits .factor (opened r.pending) s)
  completes : r.expectsOperand = false → r.balance ≤ 1 ∧ (r.balance = 1 → Completes .factor (opened r.pending) s)
  ends : r.expectsOperand = false → ∃ t x, s = t ++ [x] ∧ EndsOperand x

namespace Reader.Follows
variable {r r' : Reader} {s : List Char}

theorem start : Reader.start.Follows [] where
  awaits _ := ⟨Int.le_refl 0, fun _ => .factor (.term .start)⟩
  completes h := by cases h
  ends h := by cases h

/-- An operand starts only where one is expected: else it would stand beside the one before. -/
theorem expects_of_startsOperand (h : r.Follows s) {c : Char} (hsep : Separated (s ++ [c])) (hc : StartsOperand c) :
    r.expectsOperand = true := by
  cases hexpects : r.expectsOperand with
  | true => rfl
  | false =>
    obtain ⟨t, x, rfl, hx⟩ := h.ends hexpects
    unfold Separated at hsep
    rw [List.append_assoc] at hsep
    exact absurd hc ((List.isChain_append_cons_cons.1 hsep).2.1 hx)

theorem step {position : Nat} {c : Char} (h : r.Follows s) (hsep : Separated (s ++ [c]))
    (hstep : Reader.Step r position c r') : r'.Follows (s ++ [c]) := by
  cases hstep with
  | opens =>
    obtain ⟨hle, hawaits⟩ := h.awaits (h.expects_of_startsOperand hsep (by decide))
    exact ⟨fun _ => ⟨hle, fun heq => .factor (.term (.group (hawaits heq)))⟩, nofun, nofun⟩
  | @closes emitted' pending' hclose =>
    obtain ⟨hperm, hopened⟩ := closeGroup_perm hclose
    have hbalance : Reader.balance ⟨emitted', pending', false⟩ = r.balance := balance_perm hperm
    refine ⟨nofun, fun _ => ?_, fun _ => ⟨s, ')', rfl, by decide⟩⟩
    rw [hbalance]
    cases hexpects : r.expectsOperand with
    | true =>
      -- the group ends where an operand is missing, and the balance stays below the bound from here on
      have hle := (h.awaits hexpects).1
      exact ⟨by omega, fun heq => absurd heq (by omega)⟩
    | false =>
      obtain ⟨hle, hcompletes⟩ := h.completes hexpects
      rw [hopened] at hcompletes
      exact ⟨hle, fun heq => (hcompletes heq).term.expression.close⟩
  | literal hc =>
    have hbalance : Reader.balance ⟨.literal c :: r.emitted, r.pending, false⟩ = 1 + r.balance := rfl
    obtain ⟨hle, hawaits⟩ := h.awaits (h.expects_of_startsOperand hsep (.inl hc))
    refine ⟨nofun, fun _ => ?_, fun _ => ⟨s, c, rfl, .inl hc⟩⟩
    rw [hbalance]
    exact ⟨by omega, fun heq => (hawaits (by omega)).literal hc⟩
  | quantifier q hleft =>
    obtain ⟨hle, hcompletes⟩ := h.completes hleft
    have hgain : 1 - ((Token.quantifier q).arity : Int) = 0 := rfl
    refine ⟨nofun, fun _ => ?_, fun _ => ⟨s, q.char, rfl, endsOperand_char q⟩⟩
    rw [balance_release, hgain, Int.zero_add, opened, (release_perm _ _ _).2]
    exact ⟨hle, fun heq => (hcompletes heq).quantified q⟩
  | connective k hleft =>
    obtain ⟨hle, hcompletes⟩ := h.completes hleft
    have hgain : 1 - ((Token.connective k).arity : Int) = -1 := rfl
    refine ⟨fun _ => ?_, nofun, nofun⟩
    rw [balance_release, hgain, opened, (release_perm _ _ _).2]
    exact ⟨by omega, fun heq => (hcompletes (by omega)).connective k⟩

/-- **The bound holds after the whole of a text in which no two operands stand side by side.** -/
theorem run : ∀ {cs s : List Char} {r r' : Reader} {position : Nat}, r.Follows s → Separated (s ++ cs) →
    r.run position cs = .ok r' → r'.Follows (s ++ cs)
  | [], s, r, r', _, h, _, hrun => by
    cases hrun
    rwa [List.append_nil]
  | c :: cs, s, r, r', position, h, hsep, hrun => by
    rw [List.append_cons] at hsep ⊢
    obtain ⟨next, hnext, hrest⟩ := Reader.run_cons_eq_ok_iff.1 hrun
    exact (h.step (List.isChain_append.1 hsep).1 (Reader.step_cases hnext)).run hsep hrest

end Reader.Follows

theorem exists_reader_of_readInfix {s : List Char} {ts : List Token} (h : readInfix s = .ok ts) :
    ∃ r : Reader, Reader.start.run 0 s = .ok r ∧ r.balance = balance ts ∧ opened r.pending = 0 := by
  obtain ⟨r, hrun, hdrain⟩ := readInfix_eq_ok_iff.1 h
  obtain ⟨hperm, hopened⟩ := drain_perm hdrain
  exact ⟨r, hrun, (balance_perm ((List.reverse_perm ts).symm.trans hperm)).symm, hopened⟩

/-! ## What is compiled -/

theorem isExpression_of_separated {s : List Char} {e : Expr} (hsep : Separated s) (h : readInfix s = .ok e.postorder) :
    IsExpression s := by
  obtain ⟨r, hrun, hbalance, hopened⟩ := exists_reader_of_readInfix h
  rw [balance_postorder] at hbalance
  have hfollows : r.Follows s := Reader.Follows.start.run hsep hrun
  cases hexpects : r.expectsOperand with
  | true =>
    have hle := (hfollows.awaits hexpects).1
    omega
  | false =>
    have hcompletes := (hfollows.completes hexpects).2 hbalance
    rw [hopened] at hcompletes
    exact hcompletes.isExpression

/-- **Of the infix texts that are compiled, exactly those are expressions in which no two operands stand side by
side.** -/
theorem isExpression_iff_of_compile {limit : Option Nat} {s : List Char} {a : Automaton}
    (h : (Pattern.inInfix s).compile limit = .ok a) : IsExpression s ↔ Separated s := by
  constructor
  · rintro ⟨e, he⟩
    exact separated_of_derives he
  · intro hsep
    rw [compile, tokens] at h
    cases hread : readInfix s with
    | error fault =>
      rw [hread] at h
      cases h
    | ok ts =>
      rw [hread] at h
      obtain ⟨e, rfl, -⟩ := Construction.exists_expr_of_build h
      exact isExpression_of_separated hsep hread

theorem isExpression_iff_of_compile_concat : (∃ a, (Pattern.inInfix ['a', '.', 'b']).compile none = .ok a) ∧
    (IsExpression ['a', '.', 'b'] ↔ Separated ['a', '.', 'b']) := by
  have h : (Pattern.inInfix ['a', '.', 'b']).compile none =
      .ok ⟨#[.silent [3], .consuming 'a' 0, .silent [], .consuming 'b' 2], 1, 2⟩ := rfl
  exact ⟨⟨_, h⟩, isExpression_iff_of_compile h⟩

/-- **Two operands side by side and a missing one make up for each other**: `ab.` is compiled as `a.b` is, although it
is no expression. -/
theorem compile_juxtaposed :
    (Pattern.inInfix ['a', 'b', '.']).compile none = (Pattern.inInfix ['a', '.', 'b']).compile none ∧
    (∃ a, (Pattern.inInfix ['a', 'b', '.']).compile none = .ok a) ∧ ¬IsExpression ['a', 'b', '.'] := by
  refine ⟨rfl, ⟨⟨#[.silent [3], .consuming 'a' 0, .silent [], .consuming 'b' 2], 1, 2⟩, rfl⟩, fun ⟨e, he⟩ => ?_⟩
  exact absurd (separated_of_derives he) (by decide)

end Pattern
end Regular
