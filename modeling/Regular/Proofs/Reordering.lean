import Regular.Pattern.Grammar
import Regular.Proofs.Reader
/-!
# Reordering — every derived text is read as the post-order of its tree

What waits when a derived text has been read is bounded by the nonterminal it is derived from: a term leaves no `|`
waiting, a factor no `.` either, an atom nothing at all (`Nonterminal.strength`).  The induction on the derivation
(`readsAs_of_derives`) is over any operators that wait below the text and bind less tightly: a connective or quantifier
that arrives then releases the text's own operators and stops at those.
-/
namespace Regular
namespace Pattern

/-! ## What an operator or the end of a group finds waiting -/

/-- The operator that waits last, if there is one in the innermost group, binds less tightly than the bound. -/
def WaitsBelow (bound : Nat) : List Pending → Prop
  | .operator op :: _ => op.precedence < bound
  | _ => True

theorem WaitsBelow.mono {low high : Nat} (hle : low ≤ high) : ∀ {pending : List Pending}, WaitsBelow low pending →
    WaitsBelow high pending
  | [], _ => trivial
  | .group _ :: _, _ => trivial
  | .operator _ :: _, h => Nat.lt_of_lt_of_le h hle

/-- An operator releases those that bind as tightly and stops at the first that does not. -/
theorem release_operators {arriving : Token} {rest : List Pending} (hrest : WaitsBelow arriving.precedence rest) :
    ∀ (ops : List Token) (emitted : List Token), (∀ op ∈ ops, arriving.precedence ≤ op.precedence) →
      release arriving (ops.map .operator ++ rest) emitted = (ops.reverse ++ emitted, rest)
  | [], emitted, _ => by
    cases rest with
    | nil => rfl
    | cons p rest =>
      cases p with
      | group position => rfl
      | operator op => exact if_pos hrest
  | op :: ops, emitted, hops => by
    have hop : ¬op.precedence < arriving.precedence := Nat.not_lt.2 (hops op List.mem_cons_self)
    rw [List.map_cons, List.cons_append, release, if_neg hop,
      release_operators hrest ops (op :: emitted) (fun x hx => hops x (List.mem_cons_of_mem op hx)),
      List.reverse_cons, List.append_assoc]
    rfl

theorem release_split (arriving : Token) : ∀ (pending : List Pending) (emitted : List Token),
    ∃ (ops : List Token) (rest : List Pending), pending = ops.map .operator ++ rest ∧
      release arriving pending emitted = (ops.reverse ++ emitted, rest) ∧ WaitsBelow arriving.precedence rest ∧
        ∀ op ∈ ops, arriving.precedence ≤ op.precedence
  | [], emitted => ⟨[], [], rfl, rfl, trivial, List.forall_mem_nil _⟩
  | .group i :: rest, emitted => ⟨[], .group i :: rest, rfl, rfl, trivial, List.forall_mem_nil _⟩
  | .operator op :: rest, emitted => by
    by_cases hop : op.precedence < arriving.precedence
    · exact ⟨[], .operator op :: rest, rfl, by rw [release, if_pos hop]; rfl, hop, List.forall_mem_nil _⟩
    · obtain ⟨ops, rest', rfl, hrelease, hwaits, hops⟩ := release_split arriving rest (op :: emitted)
      refine ⟨op :: ops, rest', rfl, ?_, hwaits, List.forall_mem_cons.2 ⟨Nat.not_lt.1 hop, hops⟩⟩
      rw [release, if_neg hop, hrelease, List.reverse_cons, List.append_assoc]
      rfl

theorem Reader.step_operator {t : Token} (ht : t.isOperator = true) {pending : List Pending}
    (hwaits : WaitsBelow t.precedence pending) {ops : List Token} (hops : ∀ op ∈ ops, t.precedence ≤ op.precedence)
    (emitted : List Token) (position : Nat) :
    Reader.step ⟨emitted, ops.map .operator ++ pending, false⟩ position t.char =
      .ok ⟨ops.reverse ++ emitted, .operator t :: pending, t.arity == 2⟩ := by
  rw [Reader.step_char (Token.isWritable_of_isOperator ht), ht, release_operators hwaits ops emitted hops]
  rfl

theorem Reader.step_close (emitted ops : List Token) (opened position : Nat) (pending : List Pending) (b : Bool) :
    Reader.step ⟨emitted, ops.map .operator ++ .group opened :: pending, b⟩ position ')' =
      .ok ⟨ops.reverse ++ emitted, pending, false⟩ := by
  rw [Reader.step, if_neg (by decide), if_pos rfl, closeGroup_operators]
  rfl

/-! ## What a derived text does -/

/-- Read where an operand has to start, the text emits the tokens of the tree in post-order, but for some operators
that it leaves waiting; these bind at least as tightly as given.  What was emitted before stays, and so does what
waits below, if that binds less tightly. -/
def ReadsAs (strength : Nat) (s : List Char) (e : Expr) : Prop :=
  ∀ (emitted : List Token) (pending : List Pending) (position : Nat), WaitsBelow strength pending →
    ∃ emitted' ops : List Token,
      Reader.run ⟨emitted, pending, true⟩ position s = .ok ⟨emitted', ops.map .operator ++ pending, false⟩ ∧
        ops.reverse ++ emitted' = e.postorder.reverse ++ emitted ∧ ∀ op ∈ ops, strength ≤ op.precedence

theorem ReadsAs.weaken {low high : Nat} {s : List Char} {e : Expr} (h : ReadsAs high s e) (hle : low ≤ high) :
    ReadsAs low s e := by
  intro emitted pending position hwaits
  obtain ⟨emitted', ops, hrun, hemit, hops⟩ := h emitted pending position (hwaits.mono hle)
  exact ⟨emitted', ops, hrun, hemit, fun op hop => Nat.le_trans hle (hops op hop)⟩

theorem readsAs_literal {c : Char} (hc : c ∉ Token.reserved) (strength : Nat) :
    ReadsAs strength [c] (.literal c) := by
  intro emitted pending position _
  have hstep : Reader.step ⟨emitted, pending, true⟩ position c = .ok ⟨.literal c :: emitted, pending, false⟩ :=
    Reader.step_char (t := .literal c) hc ⟨emitted, pending, true⟩ position
  refine ⟨.literal c :: emitted, [], ?_, rfl, List.forall_mem_nil _⟩
  rw [Reader.run, hstep]
  rfl

theorem ReadsAs.group {low : Nat} {s : List Char} {e : Expr} (h : ReadsAs low s e) (strength : Nat) :
    ReadsAs strength ('(' :: (s ++ [')'])) e := by
  intro emitted pending position _
  obtain ⟨emitted', ops, hrun, hemit, -⟩ := h emitted (.group position :: pending) (position + 1) trivial
  refine ⟨ops.reverse ++ emitted', [], ?_, hemit, List.forall_mem_nil _⟩
  have hopen : Reader.step ⟨emitted, pending, true⟩ position '(' = .ok ⟨emitted, .group position :: pending, true⟩ :=
    rfl
  rw [Reader.run, hopen]
  simp only [Reader.run_append, hrun, Except.bind, Reader.run, Reader.step_close]
  rfl

theorem ReadsAs.quantified {s : List Char} {e : Expr} (q : Quantifier)
    (h : ReadsAs (Token.quantifier q).precedence s e) :
    ReadsAs (Token.quantifier q).precedence (s ++ [q.char]) (.quantified e q) := by
  intro emitted pending position hwaits
  obtain ⟨emitted', ops, hrun, hemit, hops⟩ := h emitted pending position hwaits
  have hstep := Reader.step_operator (t := .quantifier q) rfl hwaits hops emitted' (position + s.length)
  refine ⟨ops.reverse ++ emitted', [.quantifier q], ?_, ?_, fun op hop => ?_⟩
  · rw [Reader.run_append, hrun]
    show Reader.run _ _ [(Token.quantifier q).char] = _
    rw [Reader.run, hstep]
    rfl
  · rw [hemit, Expr.postorder, List.reverse_append]
    rfl
  · cases List.mem_singleton.1 hop
    exact Nat.le_refl _

/-- The connective finds only operators of the left text above those that bind less tightly, and releases them all; the
right text then leaves the connective waiting below its own. -/
theorem ReadsAs.connected {s t : List Char} {left right : Expr} (k : Connective) {tight : Nat}
    (hl : ReadsAs (Token.connective k).precedence s left) (hr : ReadsAs tight t right)
    (htight : (Token.connective k).precedence < tight) :
    ReadsAs (Token.connective k).precedence (s ++ k.char :: t) (.connected left right k) := by
  intro emitted pending position hwaits
  obtain ⟨emitted₁, ops₁, hrun₁, hemit₁, hops₁⟩ := hl emitted pending position hwaits
  have hstep := Reader.step_operator (t := .connective k) rfl hwaits hops₁ emitted₁ (position + s.length)
  obtain ⟨emitted₂, ops₂, hrun₂, hemit₂, hops₂⟩ := hr (ops₁.reverse ++ emitted₁) (.operator (.connective k) :: pending)
    (position + s.length + 1) htight
  refine ⟨emitted₂, ops₂ ++ [.connective k], ?_, ?_, fun op hop => ?_⟩
  · rw [Reader.run_append, hrun₁]
    show Reader.run _ _ ((Token.connective k).char :: t) = _
    rw [Reader.run, hstep, List.map_append, List.append_assoc]
    exact hrun₂
  · rw [List.reverse_append, List.append_assoc, hemit₂, hemit₁, Expr.postorder, List.reverse_append,
      List.reverse_append]
    simp only [List.append_assoc, List.reverse_singleton]
  · rcases List.mem_append.1 hop with hop | hop
    · exact Nat.le_trans (Nat.le_of_lt htight) (hops₂ op hop)
    · cases List.mem_singleton.1 hop
      exact Nat.le_refl _

/-- How tightly every operator binds that a text of this kind leaves waiting. -/
def Nonterminal.strength : Nonterminal → Nat
  | .expression => (Token.connective .alternate).precedence
  | .term => (Token.connective .concat).precedence
  | .factor => (Token.quantifier .star).precedence
  | .atom => (Token.quantifier .star).precedence + 1

theorem readsAs_of_derives {n : Nonterminal} {s : List Char} {e : Expr} (h : Derives n s e) :
    ReadsAs n.strength s e := by
  induction h with
  | expression _ ih | term _ ih | factor _ ih => exact ih.weaken (by decide)
  | alternate _ _ ihl ihr => exact ihl.connected .alternate ihr (by decide)
  | concat _ _ ihl ihr => exact ihl.connected .concat ihr (by decide)
  | quantified _ q ih => exact ih.quantified q
  | literal hc => exact readsAs_literal hc _
  | group _ ih => exact ih.group _

theorem ReadsAs.readInfix {strength : Nat} {s : List Char} {e : Expr} (h : ReadsAs strength s e) :
    readInfix s = .ok e.postorder := by
  obtain ⟨emitted, ops, hrun, hemit, -⟩ := h [] [] 0 trivial
  refine readInfix_eq_ok_iff.2 ⟨_, hrun, ?_⟩
  rw [drain_operators, hemit, List.append_nil]
  rfl

/-- **Infix text derived from the grammar is read as the post-order of its derivation's tree**, and never refused. -/
theorem readInfix_of_derives {s : List Char} {e : Expr} (h : Derives .expression s e) :
    readInfix s = .ok e.postorder :=
  (readsAs_of_derives h).readInfix

theorem readInfix_of_derives_starred_group : ∃ e,
    Derives .expression ['(', 'a', '|', '(', 'b', ')', ')', '*', '.', 'c'] e ∧
    readInfix ['(', 'a', '|', '(', 'b', ')', ')', '*', '.', 'c'] = .ok e.postorder ∧
      e.postorder = [.literal 'a', .literal 'b', .connective .alternate, .quantifier .star, .literal 'c',
        .connective .concat] := by
  have atom : ∀ {c : Char}, c ∉ Token.reserved → Derives .factor [c] (.literal c) := fun hc => .factor (.literal hc)
  have hb : Derives .term ['(', 'b', ')'] (.literal 'b') :=
    .term (.factor (.group (.expression (.term (atom (by decide))))))
  have hab := Derives.alternate (.expression (.term (atom (c := 'a') (by decide)))) hb
  have hstar := Derives.quantified (.factor (.group hab)) .star
  have h := Derives.expression (.concat (.term hstar) (atom (c := 'c') (by decide)))
  exact ⟨_, h, readInfix_of_derives h, rfl⟩

end Pattern
end Regular
