import Mathlib.Data.List.Forall2
import Regular.Proofs.Refusal
import Regular.Proofs.Reordering
/-!
# Isolation — what is inside of parentheses is read on its own

Inside a group the reader does what it would do at the beginning of a text: it never takes off what waits below the
`(`, and never looks at what was emitted before (`Reader.Mirrors.run`).  So a group puts out the tokens that its inside
is read as, and leaves the reader in the same state whatever these are (`Reader.run_group`); what is read before and
after it does not depend on them.
-/
namespace Regular
namespace Pattern

/-- The same entry, wherever its group was opened. -/
inductive Pending.Alike : Pending → Pending → Prop where
  | group (i j : Nat) : Alike (.group i) (.group j)
  | operator (op : Token) : Alike (.operator op) (.operator op)

instance : Std.Refl Pending.Alike where
  refl
    | .group i => .group i i
    | .operator op => .operator op

theorem exists_alike_operators : ∀ {ops : List Token} {rest inner : List Pending},
    List.Forall₂ Pending.Alike (ops.map .operator ++ rest) inner →
      ∃ rest', inner = ops.map .operator ++ rest' ∧ List.Forall₂ Pending.Alike rest rest'
  | [], _, inner, h => ⟨inner, rfl, h⟩
  | op :: ops, rest, _, h => by
    cases h with
    | cons hop h =>
      obtain ⟨rest', rfl, hrest⟩ := exists_alike_operators h
      cases hop
      exact ⟨rest', rfl, hrest⟩

/-- Nothing that arrives takes an operator off what waits outside. -/
theorem waitsBelow_append {bound : Nat} {outer : List Pending} (houter : WaitsBelow 0 outer) :
    ∀ {rest inner : List Pending}, List.Forall₂ Pending.Alike rest inner → WaitsBelow bound rest →
      WaitsBelow bound (inner ++ outer)
  | _, _, .nil, _ => houter.mono (Nat.zero_le bound)
  | _, _, .cons (.group _ _) _, _ => trivial
  | _, _, .cons (.operator _) _, h => h

/-- The second reader has done the same as the first one, which started with less: over tokens of its own that were
emitted before, and inside of whatever else waits. -/
structure Reader.Mirrors (base base' : List Token) (outer : List Pending) (r r' : Reader) : Prop where
  emitted : ∃ new, r.emitted = new ++ base ∧ r'.emitted = new ++ base'
  pending : ∃ inner, List.Forall₂ Pending.Alike r.pending inner ∧ r'.pending = inner ++ outer
  expects : r'.expectsOperand = r.expectsOperand

namespace Reader.Mirrors
variable {base base' : List Token} {outer : List Pending} {r r' : Reader}

theorem closes (h : r.Mirrors base base' outer r') {emitted : List Token} {pending : List Pending}
    (hclose : closeGroup r.pending r.emitted = some (emitted, pending)) (b : Bool) :
    ∃ emitted' pending', closeGroup r'.pending r'.emitted = some (emitted', pending') ∧
      Reader.Mirrors base base' outer ⟨emitted, pending, b⟩ ⟨emitted', pending', b⟩ := by
  obtain ⟨ops, i, hpending, rfl⟩ := closeGroup_eq_some hclose
  obtain ⟨new, hnew, hnew'⟩ := h.emitted
  obtain ⟨inner, halike, hinner⟩ := h.pending
  rw [hpending] at halike
  obtain ⟨rest', rfl, hrest⟩ := exists_alike_operators halike
  cases hrest with
  | @cons _ p _ inner' hp hinner' =>
    cases hp with
    | group _ j =>
      refine ⟨ops.reverse ++ r'.emitted, inner' ++ outer, ?_,
        ⟨⟨ops.reverse ++ new, ?_, ?_⟩, ⟨inner', hinner', rfl⟩, rfl⟩⟩
      · rw [hinner, List.append_assoc, closeGroup_operators]
        rfl
      · rw [hnew, List.append_assoc]
      · rw [hnew', List.append_assoc]

theorem operator (h : r.Mirrors base base' outer r') (houter : WaitsBelow 0 outer) (t : Token) (b : Bool) :
    Reader.Mirrors base base' outer
      ⟨(release t r.pending r.emitted).1, .operator t :: (release t r.pending r.emitted).2, b⟩
      ⟨(release t r'.pending r'.emitted).1, .operator t :: (release t r'.pending r'.emitted).2, b⟩ := by
  obtain ⟨ops, rest, hpending, hrelease, hbelow, htight⟩ := release_split t r.pending r.emitted
  obtain ⟨new, hnew, hnew'⟩ := h.emitted
  obtain ⟨inner, halike, hinner⟩ := h.pending
  rw [hpending] at halike
  obtain ⟨rest', rfl, hrest⟩ := exists_alike_operators halike
  have hrelease' := release_operators (waitsBelow_append houter hrest hbelow) ops r'.emitted htight
  rw [← List.append_assoc, ← hinner] at hrelease'
  rw [hrelease, hrelease']
  refine ⟨⟨ops.reverse ++ new, ?_, ?_⟩, ⟨.operator t :: rest', .cons (.operator t) hrest, rfl⟩, rfl⟩
  · rw [hnew, List.append_assoc]
  · rw [hnew', List.append_assoc]

/-- **A character that the first reader accepts is accepted by the second, which does the same with it.** -/
theorem step (h : r.Mirrors base base' outer r') (houter : WaitsBelow 0 outer) {position : Nat} {c : Char}
    {next : Reader} (hstep : r.step position c = .ok next) (position' : Nat) :
    ∃ next', r'.step position' c = .ok next' ∧ next.Mirrors base base' outer next' := by
  cases Reader.step_cases hstep with
  | opens =>
    obtain ⟨inner, halike, hinner⟩ := h.pending
    exact ⟨_, rfl, h.emitted, ⟨_, .cons (.group position position') halike, congrArg _ hinner⟩, rfl⟩
  | closes hclose =>
    obtain ⟨emitted', pending', hclose', hmirrors⟩ := h.closes hclose false
    refine ⟨_, ?_, hmirrors⟩
    rw [Reader.step, if_neg (by decide), if_pos rfl, hclose']
  | @literal c hc =>
    obtain ⟨new, hnew, hnew'⟩ := h.emitted
    refine ⟨_, Reader.step_char (t := .literal c) hc r' position', ⟨.literal c :: new, ?_, ?_⟩, h.pending, rfl⟩
    · exact congrArg _ hnew
    · exact congrArg _ hnew'
  | quantifier q hleft =>
    refine ⟨_, ?_, h.operator houter (.quantifier q) false⟩
    have hstep' := Reader.step_char (t := .quantifier q) trivial r' position'
    rwa [h.expects, hleft] at hstep'
  | connective k hleft =>
    refine ⟨_, ?_, h.operator houter (.connective k) true⟩
    have hstep' := Reader.step_char (t := .connective k) trivial r' position'
    rwa [h.expects, hleft] at hstep'

theorem run (houter : WaitsBelow 0 outer) : ∀ {cs : List Char} {r r' next : Reader} {position : Nat},
    r.Mirrors base base' outer r' → r.run position cs = .ok next → ∀ position' : Nat,
      ∃ next', r'.run position' cs = .ok next' ∧ next.Mirrors base base' outer next'
  | [], _, r', _, _, h, hrun, _ => by
    cases hrun
    exact ⟨r', rfl, h⟩
  | c :: cs, r, r', next, position, h, hrun, position' => by
    obtain ⟨mid, hmid, hrest⟩ := Reader.run_cons_eq_ok_iff.1 hrun
    obtain ⟨mid', hmid', hmirrors⟩ := h.step houter hmid position'
    obtain ⟨next', hnext', hlast⟩ := hmirrors.run houter hrest (position' + 1)
    exact ⟨next', Reader.run_cons_eq_ok_iff.2 ⟨mid', hmid', hnext'⟩, hlast⟩

/-- When the first reader's text ends, operators alone wait in the second one above what waits outside. -/
theorem drained (h : r.Mirrors base base' outer r') {out : List Token} (hdrain : drain r.pending r.emitted = .ok out) :
    ∃ ops new : List Token, out = new ++ base ∧ r'.pending = ops.map .operator ++ outer ∧
      ops.reverse ++ r'.emitted = new ++ base' := by
  obtain ⟨ops, hpending, rfl⟩ := drain_eq_ok hdrain
  obtain ⟨new, hnew, hnew'⟩ := h.emitted
  obtain ⟨inner, halike, hinner⟩ := h.pending
  rw [hpending, ← List.append_nil (ops.map Pending.operator)] at halike
  obtain ⟨rest', rfl, hrest⟩ := exists_alike_operators halike
  cases hrest
  rw [List.append_nil] at hinner
  refine ⟨ops, ops.reverse ++ new, ?_, hinner, ?_⟩
  · rw [hnew, List.append_assoc]
  · rw [hnew', List.append_assoc]

end Reader.Mirrors

/-! ## A group in a text -/

/-- **A group puts out what its inside is read as**, and leaves what waits as it was. -/
theorem Reader.run_group {y : List Char} {v : List Token} (h : readInfix y = .ok v) (emitted : List Token)
    (pending : List Pending) (b : Bool) (position : Nat) :
    Reader.run ⟨emitted, pending, b⟩ position ('(' :: (y ++ [')'])) = .ok ⟨v.reverse ++ emitted, pending, false⟩ := by
  obtain ⟨r, hrun, hdrain⟩ := readInfix_eq_ok_iff.1 h
  have hstart : Reader.start.Mirrors [] emitted (.group position :: pending)
      ⟨emitted, .group position :: pending, true⟩ := ⟨⟨[], rfl, rfl⟩, ⟨[], .nil, rfl⟩, rfl⟩
  have houter : WaitsBelow 0 (.group position :: pending) := trivial
  obtain ⟨r', hrun', hmirrors⟩ := hstart.run houter hrun (position + 1)
  obtain ⟨ops, new, hnew, hpending, hemitted⟩ := hmirrors.drained hdrain
  rw [List.append_nil] at hnew
  refine Reader.run_cons_eq_ok_iff.2 ⟨⟨emitted, .group position :: pending, true⟩, rfl, ?_⟩
  obtain ⟨emitted', pending', b'⟩ := r'
  obtain rfl : pending' = _ := hpending
  rw [Reader.run_append_singleton hrun', Reader.step_close, hnew]
  exact congrArg (fun out => Except.ok (Reader.mk out pending false)) hemitted

theorem group_split (x y z : List Char) : x ++ '(' :: (y ++ ')' :: z) = x ++ ('(' :: (y ++ [')']) ++ z) := by simp

/-- **What is read around a group does not depend on its inside.** -/
theorem exists_around_group {x y z : List Char} {v ts : List Token} (hy : readInfix y = .ok v)
    (h : readInfix (x ++ '(' :: (y ++ ')' :: z)) = .ok ts) :
    ∃ before after : List Token, ∀ y' v', readInfix y' = .ok v' →
      readInfix (x ++ '(' :: (y' ++ ')' :: z)) = .ok (before ++ v' ++ after) := by
  obtain ⟨last, hrun, hdrain⟩ := readInfix_eq_ok_iff.1 h
  rw [group_split] at hrun
  obtain ⟨r, hx, hrun⟩ := Reader.run_append_eq_ok_iff.1 hrun
  obtain ⟨mid, hgroup, hz⟩ := Reader.run_append_eq_ok_iff.1 hrun
  cases (Reader.run_group hy r.emitted r.pending r.expectsOperand _).symm.trans hgroup
  -- the rest of the text is read alike over whatever the group has put out
  have hrest : ∀ v' : List Token, ∀ position', ∃ last' new, ts.reverse = new ++ (v.reverse ++ r.emitted) ∧
      Reader.run ⟨v'.reverse ++ r.emitted, r.pending, false⟩ position' z = .ok last' ∧
        drain last'.pending last'.emitted = .ok (new ++ (v'.reverse ++ r.emitted)) := fun v' position' => by
    have hmirrors : Reader.Mirrors (v.reverse ++ r.emitted) (v'.reverse ++ r.emitted) []
        ⟨v.reverse ++ r.emitted, r.pending, false⟩ ⟨v'.reverse ++ r.emitted, r.pending, false⟩ :=
      ⟨⟨[], rfl, rfl⟩, ⟨r.pending, List.forall₂_refl _, (List.append_nil _).symm⟩, rfl⟩
    have houter : WaitsBelow 0 [] := trivial
    obtain ⟨last', hrun', hlast⟩ := hmirrors.run houter hz position'
    obtain ⟨ops, new, hnew, hpending, hemitted⟩ := hlast.drained hdrain
    refine ⟨last', new, hnew, hrun', ?_⟩
    rw [hpending, drain_operators, hemitted]
    rfl
  obtain ⟨-, new, hnew, -⟩ := hrest v 0
  refine ⟨r.emitted.reverse, new.reverse, fun y' v' hy' => ?_⟩
  have hgroup' := Reader.run_group hy' r.emitted r.pending r.expectsOperand (0 + x.length)
  obtain ⟨last', new', hnew', hrun', hdrain'⟩ := hrest v' (0 + x.length + ('(' :: (y' ++ [')'])).length)
  obtain rfl := List.append_cancel_right (hnew.symm.trans hnew')
  refine readInfix_eq_ok_iff.2 ⟨last', ?_, ?_⟩
  · rw [group_split]
    exact Reader.run_append_eq_ok_iff.2 ⟨r, hx, Reader.run_append_eq_ok_iff.2 ⟨_, hgroup', hrun'⟩⟩
  · rw [hdrain']
    simp only [List.reverse_append, List.reverse_reverse, List.append_assoc]

/-! ## The inside of a group -/

theorem expectsOperand_append {s t : List Char} (hs : ExpectsOperand s) (ht : ExpectsOperand t) :
    ExpectsOperand (s ++ t) := by
  intro c hc
  rw [List.getLast?_append, Option.mem_def, Option.or_eq_some_iff] at hc
  rcases hc with hc | ⟨-, hc⟩
  · exact ht c hc
  · exact hs c hc

/-- An operator that lacks its left operand lacks it wherever an operand is expected before the text. -/
theorem FaultAt.noLeft_append {s t u : List Char} {q : Nat} {op : Token} (hs : ExpectsOperand s)
    (hop : op.isOperator = true) (hc : t[q]? = some op.char) (h : ExpectsOperand (t.take q)) :
    FaultAt (s ++ (t ++ u)) (s.length + q) (.noLeftOperand op (s.length + q)) := by
  have hq := (List.getElem?_eq_some_iff.1 hc).1
  refine .noLeft hop ?_ ?_
  · rwa [List.getElem?_append_right (Nat.le_add_right _ _), Nat.add_sub_cancel_left, List.getElem?_append_left hq]
  · rw [List.take_length_add_append, List.take_append_of_le_length (Nat.le_of_lt hq)]
    exact expectsOperand_append hs h

/-- In a matched text every `)` has a group to close. -/
theorem Matched.exists_unclosed {y : List Char} (h : Matched y) {q : Nat} (hq : y[q]? = some ')')
    (hbefore : ∀ p < q, ∀ f, ¬FaultAt y p f) : ∃ i, Unclosed (y.take q) i := by
  refine Classical.not_forall_not.1 fun hnone => ?_
  obtain ⟨hlt, hlast⟩ := List.getElem?_eq_some_iff.1 hq
  obtain ⟨r, -, hreflects⟩ := exists_reader_of_no_fault (Nat.le_of_lt hlt) hbefore
  have hopen := hreflects.openGroups
  rw [hopen.eq_nil_iff.2 hnone] at hopen
  cases hopen with
  | none hmatched =>
    have hcount := h.level (y.take (q + 1)) (List.take_prefix _ _)
    rw [List.take_succ_eq_append_getElem hlt, hlast, List.count_append, List.count_append, hmatched.count_eq] at hcount
    exact absurd hcount (by simp)

/-- **What is refused inside of a group is refused in the text.** -/
theorem exists_readInfix_inside {x y z : List Char} {ts : List Token} (hy : Matched y)
    (h : readInfix (x ++ '(' :: (y ++ ')' :: z)) = .ok ts) : ∃ v, readInfix y = .ok v := by
  obtain ⟨hfree, -⟩ := exists_readInfix_iff.1 ⟨ts, h⟩
  refine exists_readInfix_iff.2 ⟨Classical.byContradiction fun hnot => ?_, hy.not_unclosed⟩
  obtain ⟨q, fault, hfault, hbefore⟩ := exists_first_fault hnot
  cases hfault with
  | noGroup hc hnone =>
    obtain ⟨i, hi⟩ := hy.exists_unclosed hc hbefore
    exact hnone i hi
  | @noLeft op hop hc hexpects =>
    have hopened : ExpectsOperand (x ++ ['(']) := expectsOperand_append_singleton.2 (by simp)
    have hlift := FaultAt.noLeft_append (u := ')' :: z) hopened hop hc hexpects
    rw [List.append_assoc] at hlift
    exact hfree _ _ hlift

/-- **A group in parentheses is read independently of what is around it.**  Whatever is before and after the group, two
lists of tokens are fixed by it: if the whole text is accepted with some matched text inside, that text is accepted by
itself, and with any other text inside that is accepted by itself the whole text is read as its tokens between the two
lists. -/
theorem readInfix_group (x z : List Char) : ∃ before after : List Token, ∀ y ts, Matched y →
    readInfix (x ++ '(' :: (y ++ ')' :: z)) = .ok ts → (∃ v, readInfix y = .ok v) ∧
      ∀ y' v', readInfix y' = .ok v' → readInfix (x ++ '(' :: (y' ++ ')' :: z)) = .ok (before ++ v' ++ after) := by
  by_cases hsome : ∃ y ts, Matched y ∧ readInfix (x ++ '(' :: (y ++ ')' :: z)) = .ok ts
  · obtain ⟨y, ts, hy, hts⟩ := hsome
    obtain ⟨v, hv⟩ := exists_readInfix_inside hy hts
    obtain ⟨before, after, haround⟩ := exists_around_group hv hts
    exact ⟨before, after, fun y' ts' hy' hts' => ⟨exists_readInfix_inside hy' hts', haround⟩⟩
  · exact ⟨[], [], fun y ts hy hts => absurd ⟨y, ts, hy, hts⟩ hsome⟩

theorem readInfix_group_misplaced : ∃ before after : List Token,
    readInfix ['a', '|', '(', 'b', ')', '*', '.'] =
      .ok [.literal 'a', .literal 'b', .quantifier .star, .connective .concat, .connective .alternate] ∧
    readInfix ['(', 'c', ')', 'd', '|'] = .ok [.literal 'c', .literal 'd', .connective .alternate] ∧
      readInfix ['a', '|', '(', '(', 'c', ')', 'd', '|', ')', '*', '.'] =
        .ok (before ++ [.literal 'c', .literal 'd', .connective .alternate] ++ after) := by
  have hmatched : Matched ['b'] := .char .nil (by decide)
  have hb : readInfix (['a', '|'] ++ '(' :: (['b'] ++ ')' :: ['*', '.'])) =
      .ok [.literal 'a', .literal 'b', .quantifier .star, .connective .concat, .connective .alternate] := rfl
  have hc : readInfix ['(', 'c', ')', 'd', '|'] = .ok [.literal 'c', .literal 'd', .connective .alternate] := rfl
  obtain ⟨before, after, h⟩ := readInfix_group ['a', '|'] ['*', '.']
  exact ⟨before, after, hb, hc, (h _ _ hmatched hb).2 _ _ hc⟩

end Pattern
end Regular
