import Regular.Pattern.Infix
/-!
# Reader — what one character of infix text does

A character that the reader accepts is one of five things (`Reader.Step`): an open parenthesis, a closed one with a
partner, a literal, or an operator of either kind after its left operand.  One that it refuses is a closed parenthesis
without a partner or an operator without a left operand (`Reader.step_eq_error_iff`).

Emitting operators earlier or later never loses one: what is emitted and what waits are together the tokens read so far,
whichever of them are released, closed over or drained (`closeGroup_perm`, `release_perm`, `drain_perm`), and so the
tokens of the whole text come out in some order (`readInfix_perm`).  The groups that wait are opened and closed in
order, whatever operators wait between them (`groups_of_closeGroup`, `groups_release`).
-/
namespace Regular
namespace Pattern

/-! ## The tokens and the groups that wait -/

def operators : List Pending → List Token
  | [] => []
  | .group _ :: rest => operators rest
  | .operator op :: rest => op :: operators rest

def opened : List Pending → Nat
  | [] => 0
  | .group _ :: rest => opened rest + 1
  | .operator _ :: rest => opened rest

theorem closeGroup_perm : ∀ {pending pending' : List Pending} {emitted emitted' : List Token},
    closeGroup pending emitted = some (emitted', pending') →
      (emitted' ++ operators pending').Perm (emitted ++ operators pending) ∧ opened pending = opened pending' + 1
  | [], _, _, _, h => by cases h
  | .group _ :: rest, _, _, _, h => by
    cases h
    exact ⟨.refl _, rfl⟩
  | .operator op :: rest, pending', emitted, emitted', h => by
    unfold closeGroup at h
    obtain ⟨hperm, hopened⟩ := closeGroup_perm h
    exact ⟨hperm.trans List.perm_middle.symm, hopened⟩

theorem release_perm (arriving : Token) : ∀ (pending : List Pending) (emitted : List Token),
    ((release arriving pending emitted).1 ++ operators (release arriving pending emitted).2).Perm
        (emitted ++ operators pending) ∧
      opened (release arriving pending emitted).2 = opened pending
  | [], _ => ⟨.refl _, rfl⟩
  | .group _ :: _, _ => ⟨.refl _, rfl⟩
  | .operator op :: rest, emitted => by
    rw [release]
    split
    · exact ⟨.refl _, rfl⟩
    · obtain ⟨hperm, hopened⟩ := release_perm arriving rest (op :: emitted)
      exact ⟨hperm.trans List.perm_middle.symm, hopened⟩

theorem drain_perm : ∀ {pending : List Pending} {emitted out : List Token}, drain pending emitted = .ok out →
    out.Perm (emitted ++ operators pending) ∧ opened pending = 0
  | [], emitted, out, h => by
    cases h
    exact ⟨.of_eq (List.append_nil _).symm, rfl⟩
  | .group _ :: rest, _, _, h => by cases h
  | .operator op :: rest, emitted, out, h => by
    unfold drain at h
    obtain ⟨hperm, hopened⟩ := drain_perm h
    exact ⟨hperm.trans List.perm_middle.symm, hopened⟩

/-! ## What is emitted at once -/

theorem closeGroup_eq_some : ∀ {pending pending' : List Pending} {emitted emitted' : List Token},
    closeGroup pending emitted = some (emitted', pending') →
      ∃ (ops : List Token) (i : Nat), pending = ops.map .operator ++ .group i :: pending' ∧
        emitted' = ops.reverse ++ emitted
  | .group i :: _, _, _, _, h => by
    cases h
    exact ⟨[], i, rfl, rfl⟩
  | .operator op :: rest, pending', emitted, emitted', h => by
    have hrest : closeGroup rest (op :: emitted) = some (emitted', pending') := h
    obtain ⟨ops, i, rfl, rfl⟩ := closeGroup_eq_some hrest
    exact ⟨op :: ops, i, rfl, by simp⟩

theorem drain_eq_ok : ∀ {pending : List Pending} {emitted out : List Token}, drain pending emitted = .ok out →
    ∃ ops : List Token, pending = ops.map .operator ∧ out = ops.reverse ++ emitted
  | [], _, _, h => by
    cases h
    exact ⟨[], rfl, rfl⟩
  | .operator op :: rest, emitted, out, h => by
    have hrest : drain rest (op :: emitted) = .ok out := h
    obtain ⟨ops, rfl, rfl⟩ := drain_eq_ok hrest
    exact ⟨op :: ops, rfl, by simp⟩

/-! ## The groups that wait -/

/-- The positions of the open parentheses that wait, the latest first. -/
def groups : List Pending → List Nat
  | [] => []
  | .group position :: rest => position :: groups rest
  | .operator _ :: rest => groups rest

theorem groups_operators (ops : List Token) (pending : List Pending) :
    groups (ops.map .operator ++ pending) = groups pending := by
  induction ops with
  | nil => rfl
  | cons op ops ih => exact ih

theorem closeGroup_eq_none_iff : ∀ (pending : List Pending) (emitted : List Token),
    closeGroup pending emitted = none ↔ groups pending = []
  | [], _ => ⟨fun _ => rfl, fun _ => rfl⟩
  | .group _ :: _, _ => ⟨nofun, nofun⟩
  | .operator op :: rest, emitted => closeGroup_eq_none_iff rest (op :: emitted)

theorem groups_of_closeGroup : ∀ (pending : List Pending) {pending' : List Pending} {emitted emitted' : List Token},
    closeGroup pending emitted = some (emitted', pending') → ∃ i, groups pending = i :: groups pending'
  | .group i :: _, _, _, _, h => by
    cases h
    exact ⟨i, rfl⟩
  | .operator _ :: rest, _, _, _, h => groups_of_closeGroup rest h

theorem groups_release (arriving : Token) : ∀ (pending : List Pending) (emitted : List Token),
    groups (release arriving pending emitted).2 = groups pending
  | [], _ => rfl
  | .group _ :: _, _ => rfl
  | .operator op :: rest, emitted => by
    rw [release]
    split
    · rfl
    · exact groups_release arriving rest (op :: emitted)

theorem drain_of_groups_nil : ∀ (pending : List Pending) (emitted : List Token), groups pending = [] →
    ∃ out, drain pending emitted = .ok out
  | [], emitted, _ => ⟨emitted, rfl⟩
  | .operator op :: rest, emitted, h => drain_of_groups_nil rest (op :: emitted) h

theorem drain_of_groups_cons {i : Nat} {outer : List Nat} : ∀ (pending : List Pending) (emitted : List Token),
    groups pending = i :: outer → drain pending emitted = .error (.unmatchedParenthesis i)
  | .group _ :: _, _, h => by
    cases h
    rfl
  | .operator op :: rest, emitted, h => drain_of_groups_cons rest (op :: emitted) h

/-! ## One step -/

/-- The character of a token is no parenthesis, so it is read as that token. -/
theorem Reader.step_char {t : Token} (h : t.IsWritable) (r : Reader) (position : Nat) :
    r.step position t.char =
      if !t.isOperator then .ok ⟨t :: r.emitted, r.pending, false⟩
      else if r.expectsOperand then .error (.noLeftOperand t position)
      else .ok ⟨(release t r.pending r.emitted).1, .operator t :: (release t r.pending r.emitted).2, t.arity == 2⟩ := by
  have hread : Token.ofChar? t.char = some t := Token.ofChar?_char h
  have hopen : t.char ≠ '(' := fun heq => by rw [heq] at hread; cases hread
  have hclose : t.char ≠ ')' := fun heq => by rw [heq] at hread; cases hread
  rw [Reader.step, if_neg hopen, if_neg hclose, readToken_eq_ok_iff.2 hread]

inductive Reader.Step (r : Reader) (position : Nat) : Char → Reader → Prop where
  | opens : Step r position '(' ⟨r.emitted, .group position :: r.pending, true⟩
  | closes {emitted : List Token} {pending : List Pending}
      (h : closeGroup r.pending r.emitted = some (emitted, pending)) :
      Step r position ')' ⟨emitted, pending, false⟩
  | literal {c : Char} (hc : c ∉ Token.reserved) : Step r position c ⟨.literal c :: r.emitted, r.pending, false⟩
  | quantifier (q : Quantifier) (hleft : r.expectsOperand = false) :
      Step r position q.char ⟨(release (.quantifier q) r.pending r.emitted).1,
        .operator (.quantifier q) :: (release (.quantifier q) r.pending r.emitted).2, false⟩
  | connective (k : Connective) (hleft : r.expectsOperand = false) :
      Step r position k.char ⟨(release (.connective k) r.pending r.emitted).1,
        .operator (.connective k) :: (release (.connective k) r.pending r.emitted).2, true⟩

/-- **Every character that is accepted makes one of the five steps.** -/
theorem Reader.step_cases {r r' : Reader} {position : Nat} {c : Char} (h : r.step position c = .ok r') :
    Reader.Step r position c r' := by
  cases ht : Token.ofChar? c with
  | none =>
    rcases Token.ofChar?_eq_none_iff.1 ht with rfl | rfl
    · cases h
      exact .opens
    · rw [Reader.step, if_neg (by decide), if_pos rfl] at h
      split at h
      · cases h
      · rename_i heq
        cases h
        exact .closes heq
  | some t =>
    have hwritable : t.IsWritable := Token.isWritable_of_ofChar? ht
    rw [← Token.char_of_ofChar? ht, Reader.step_char hwritable] at h
    rw [← Token.char_of_ofChar? ht]
    cases t with
    | literal c =>
      cases h
      exact .literal hwritable
    | quantifier q =>
      obtain ⟨emitted, pending, expects⟩ := r
      cases expects <;> cases h
      exact .quantifier q rfl
    | connective k =>
      obtain ⟨emitted, pending, expects⟩ := r
      cases expects <;> cases h
      exact .connective k rfl

/-- **A character is refused for one of two reasons**: nothing is open that it could close, or it is an operator and an
operand is expected. -/
theorem Reader.step_eq_error_iff {r : Reader} {position : Nat} {c : Char} {fault : PatternError} :
    r.step position c = .error fault ↔ (c = ')' ∧ groups r.pending = [] ∧ fault = .unmatchedParenthesis position) ∨
      ∃ op, op.isOperator = true ∧ c = op.char ∧ r.expectsOperand = true ∧ fault = .noLeftOperand op position := by
  cases ht : Token.ofChar? c with
  | none =>
    have hno : ¬∃ op, op.isOperator = true ∧ c = op.char ∧ r.expectsOperand = true ∧
        fault = .noLeftOperand op position := by
      rintro ⟨op, hop, rfl, -⟩
      rw [Token.ofChar?_operator hop] at ht
      cases ht
    rw [or_iff_left hno]
    rcases Token.ofChar?_eq_none_iff.1 ht with rfl | rfl
    · exact ⟨nofun, nofun⟩
    · rw [Reader.step, if_neg (by decide), if_pos rfl, ← closeGroup_eq_none_iff r.pending r.emitted]
      cases closeGroup r.pending r.emitted with
      | none => exact ⟨fun h => ⟨rfl, rfl, (Except.error.inj h).symm⟩, fun h => by rw [h.2.2]⟩
      | some result => exact ⟨nofun, nofun⟩
  | some t =>
    have hwritable : t.IsWritable := Token.isWritable_of_ofChar? ht
    obtain rfl := Token.char_of_ofChar? ht
    have hclose : ¬(t.char = ')' ∧ groups r.pending = [] ∧ fault = .unmatchedParenthesis position) := by
      rintro ⟨hc, -⟩
      rw [hc] at ht
      cases ht
    rw [or_iff_right hclose, Reader.step_char hwritable]
    constructor
    · intro h
      cases hop : t.isOperator with
      | false => rw [hop] at h; cases h
      | true =>
        cases hexpects : r.expectsOperand with
        | false => rw [hop, hexpects] at h; cases h
        | true =>
          rw [hop, hexpects] at h
          exact ⟨t, hop, rfl, rfl, (Except.error.inj h).symm⟩
    · rintro ⟨op, hop, hc, hexpects, rfl⟩
      rw [hc, Token.ofChar?_operator hop] at ht
      cases ht
      rw [hop, hexpects]
      rfl

/-! ## Several steps -/

theorem Reader.run_cons_eq_ok_iff {r r' : Reader} {position : Nat} {c : Char} {cs : List Char} :
    r.run position (c :: cs) = .ok r' ↔ ∃ next, r.step position c = .ok next ∧ next.run (position + 1) cs = .ok r' := by
  rw [Reader.run]
  cases r.step position c with
  | error fault => simp
  | ok next => simp

theorem Reader.run_append_eq_ok_iff {r r' : Reader} {position : Nat} {xs ys : List Char} :
    r.run position (xs ++ ys) = .ok r' ↔
      ∃ mid, r.run position xs = .ok mid ∧ mid.run (position + xs.length) ys = .ok r' := by
  rw [Reader.run_append]
  cases r.run position xs with
  | error fault => simp [Except.bind]
  | ok mid => simp [Except.bind]

/-! ## No token is lost -/

theorem Reader.Step.perm {r r' : Reader} {position : Nat} {c : Char} (h : Reader.Step r position c r') :
    (r'.emitted ++ operators r'.pending).Perm ((Token.ofChar? c).toList ++ (r.emitted ++ operators r.pending)) := by
  cases h with
  | opens => exact .refl _
  | closes h => exact (closeGroup_perm h).1
  | @literal c hc =>
    rw [Token.ofChar?_literal hc]
    exact .refl _
  | quantifier q _ =>
    rw [show Token.ofChar? q.char = some (.quantifier q) from Token.ofChar?_char (t := .quantifier q) trivial]
    exact List.perm_middle.trans ((release_perm _ _ _).1.cons _)
  | connective k _ =>
    rw [show Token.ofChar? k.char = some (.connective k) from Token.ofChar?_char (t := .connective k) trivial]
    exact List.perm_middle.trans ((release_perm _ _ _).1.cons _)

theorem Reader.run_perm : ∀ {cs : List Char} {r r' : Reader} {position : Nat}, r.run position cs = .ok r' →
    (r'.emitted ++ operators r'.pending).Perm (cs.filterMap Token.ofChar? ++ (r.emitted ++ operators r.pending))
  | [], _, _, _, h => by
    cases h
    exact .refl _
  | c :: cs, r, r', position, h => by
    obtain ⟨next, hnext, hrun⟩ := Reader.run_cons_eq_ok_iff.1 h
    have hstep := (Reader.step_cases hnext).perm
    have hrest := (Reader.run_perm hrun).trans ((List.Perm.refl _).append hstep)
    have hcons : (c :: cs).filterMap Token.ofChar? = (Token.ofChar? c).toList ++ cs.filterMap Token.ofChar? := by
      cases ht : Token.ofChar? c <;> simp [ht]
    rw [hcons, List.append_assoc]
    exact hrest.trans (List.perm_append_comm_assoc _ _ _)

theorem readInfix_eq_ok_iff {s : List Char} {ts : List Token} :
    readInfix s = .ok ts ↔ ∃ r, Reader.start.run 0 s = .ok r ∧ drain r.pending r.emitted = .ok ts.reverse := by
  rw [readInfix]
  constructor
  · intro h
    split at h
    · cases h
    rename_i r hrun
    split at h
    · cases h
    rename_i emitted hdrain
    cases h
    exact ⟨r, hrun, by rw [List.reverse_reverse]; exact hdrain⟩
  · rintro ⟨r, hrun, hdrain⟩
    rw [hrun]
    simp only [hdrain, List.reverse_reverse]

/-- **The tokens that are read are those of the text**, in another order. -/
theorem readInfix_perm {s : List Char} {ts : List Token} (h : readInfix s = .ok ts) :
    ts.Perm (s.filterMap Token.ofChar?) := by
  obtain ⟨r, hrun, hdrain⟩ := readInfix_eq_ok_iff.1 h
  have hread := (drain_perm hdrain).1.trans (Reader.run_perm hrun)
  rw [show Reader.start.emitted ++ operators Reader.start.pending = [] from rfl, List.append_nil] at hread
  exact (List.reverse_perm ts).symm.trans hread

end Pattern
end Regular
