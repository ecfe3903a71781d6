import Regular.Proofs.Emission
import Regular.Proofs.Outcome
/-!
# Location — where faults of infix text are said to be

A fault that the reader finds is reported where it is in the text.  An operator that lacks operands is found later, when
the tokens are built: its position counts tokens in the order in which they were emitted (`located_of_compile`).  The
same operator stands in the text where its emission says, and that is another place as soon as a parenthesis stands
before it or the operator has been moved.
-/
namespace Regular

/-- The position that a fault names. -/
def PatternError.position? : PatternError → Option Nat
  | .tooFewOperands _ position _ _ | .noLeftOperand _ position | .strayParenthesis _ position
  | .unmatchedParenthesis position => some position
  | .unjoinedOperands _ | .emptyPattern | .tooManyStates _ => none

namespace Pattern

/-- If the fault names a position, what it is about stands there in the text. -/
def PointsInto (s : List Char) : PatternError → Prop
  | .tooFewOperands op position _ _ | .noLeftOperand op position => s[position]? = some op.char
  | .strayParenthesis c position => s[position]? = some c
  | .unmatchedParenthesis position => s[position]? = some '(' ∨ s[position]? = some ')'
  | .unjoinedOperands _ | .emptyPattern | .tooManyStates _ => True

theorem PointsInto.lt_length {s : List Char} : ∀ {fault : PatternError}, PointsInto s fault →
    ∀ p, fault.position? = some p → p < s.length
  | .tooFewOperands _ _ _ _, h, _, rfl | .noLeftOperand _ _, h, _, rfl | .strayParenthesis _ _, h, _, rfl =>
    (List.getElem?_eq_some_iff.1 h).1
  | .unmatchedParenthesis _, h, _, rfl => h.elim (fun h => (List.getElem?_eq_some_iff.1 h).1) fun h =>
    (List.getElem?_eq_some_iff.1 h).1

/-- **What the reader refuses is where it says.** -/
theorem HasInfixFault.pointsInto {s : List Char} {fault : PatternError} (h : HasInfixFault s fault) :
    PointsInto s fault := by
  cases h with
  | first h _ =>
    cases h with
    | noGroup hc _ => exact .inr hc
    | noLeft _ hc _ => exact hc
  | unclosed _ h _ => exact .inl h.1

/-- **An operator that lacks operands is counted among the emissions**: it is the token of the one whose place in their
order is named. -/
theorem exists_emission_of_firstShort {s : List Char} {ts : List Token} (hread : readInfix s = .ok ts) {p : Nat}
    {op : Token} (h : Construction.FirstShort ts p op) :
    p < s.length ∧ ∃ es x, InOrder s es ∧ es[p]? = some x ∧ x.token = op ∧ s[x.position]? = some op.char := by
  obtain ⟨es, hes, rfl, -⟩ := exists_inOrder_of_readInfix hread
  obtain ⟨x, hx, rfl⟩ := Option.map_eq_some_iff.1 (List.getElem?_map .. ▸ h.token)
  obtain ⟨c, hc, htoken⟩ := Option.bind_eq_some_iff.1 ((hes.mem_iff x).1 (List.mem_of_getElem? hx)).ofChar?
  refine ⟨?_, es, x, hes, hx, rfl, by rw [hc, Token.char_of_ofChar? htoken]⟩
  calc p < (es.map (·.token)).length := (List.getElem?_eq_some_iff.1 h.token).1
    _ = (s.filterMap Token.ofChar?).length := (readInfix_perm hread).length_eq
    _ ≤ s.length := List.length_filterMap_le ..

/-- What the construction reports of text that was read names no position, or is an operator that lacks operands. -/
theorem position?_of_build {limit : Option Nat} {ts : List Token} {fault : PatternError}
    (h : Construction.build limit ts = .error fault) :
    (fault.position? = none ∧ ∀ s, PointsInto s fault) ∨
      ∃ op p needed found, fault = .tooFewOperands op p needed found ∧ Construction.FirstShort ts p op := by
  rcases Construction.build_eq_or_tooManyStates limit ts with hbuild | ⟨most, -, hbuild⟩
  · rw [hbuild] at h
    have hfault := Construction.build_eq_error_iff.1 h
    cases fault with
    | tooFewOperands op p needed found => exact .inr ⟨op, p, needed, found, rfl, hfault.1⟩
    | unjoinedOperands | emptyPattern | tooManyStates => exact .inl ⟨rfl, fun _ => trivial⟩
    | noLeftOperand | strayParenthesis | unmatchedParenthesis => exact hfault.elim
  · rw [hbuild] at h
    cases h
    exact .inl ⟨rfl, fun _ => trivial⟩

/-- **Where faults of infix text are.**  Every position named is one of the text, and what the fault is about stands
there, unless it is an operator that lacks operands.  That one's position is its place in the order of the emissions,
so it is right for the text exactly if the same character happens to stand at both places. -/
theorem located_of_compile {limit : Option Nat} {s : List Char} {fault : PatternError}
    (h : (Pattern.inInfix s).compile limit = .error fault) :
    (∀ p, fault.position? = some p → p < s.length) ∧
      ((∀ op p needed found, fault ≠ .tooFewOperands op p needed found) → PointsInto s fault) ∧
      ∀ op p needed found, fault = .tooFewOperands op p needed found → ∃ es x, InOrder s es ∧ es[p]? = some x ∧
        x.token = op ∧ s[x.position]? = some op.char ∧ (PointsInto s fault ↔ s[p]? = s[x.position]?) := by
  rcases compile_inInfix_cases limit s with ⟨fault', hfault, hcompile⟩ | ⟨ts, hread, hcompile⟩
  · rw [hcompile] at h
    cases h
    refine ⟨hfault.pointsInto.lt_length, fun _ => hfault.pointsInto, ?_⟩
    rcases hfault.unmatched_or_noLeft with ⟨p, rfl⟩ | ⟨op, p, rfl⟩ <;> exact nofun
  · rw [hcompile] at h
    rcases position?_of_build h with ⟨hnone, hpoints⟩ | ⟨op, p, needed, found, rfl, hshort⟩
    · refine ⟨fun p hp => ?_, fun _ => hpoints s, fun op p needed found heq => ?_⟩
      · rw [hnone] at hp
        cases hp
      · rw [heq] at hnone
        cases hnone
    · obtain ⟨hlt, es, x, hes, hx, htoken, hc⟩ := exists_emission_of_firstShort hread hshort
      refine ⟨fun q hq => ?_, fun hne => absurd rfl (hne op p needed found), fun op' p' _ _ heq => ?_⟩
      · cases hq
        exact hlt
      · cases heq
        refine ⟨es, x, hes, hx, htoken, hc, ?_⟩
        rw [hc]
        rfl

/-- In `a.(b|)*` it is `.` that lacks an operand.  It is emitted last, and so it is named where the text has `|`. -/
theorem located_of_compile_moved :
    (Pattern.inInfix ['a', '.', '(', 'b', '|', ')', '*']).compile none =
        .error (.tooFewOperands (.connective .concat) 4 2 1) ∧
      (∀ p, (PatternError.tooFewOperands (.connective .concat) 4 2 1).position? = some p → p < 7) ∧
      ∃ es x, InOrder ['a', '.', '(', 'b', '|', ')', '*'] es ∧ es[4]? = some x ∧ x.token = .connective .concat ∧
        ['a', '.', '(', 'b', '|', ')', '*'][x.position]? = some '.' ∧
        (PointsInto ['a', '.', '(', 'b', '|', ')', '*'] (.tooFewOperands (.connective .concat) 4 2 1) ↔
          ['a', '.', '(', 'b', '|', ')', '*'][4]? = ['a', '.', '(', 'b', '|', ')', '*'][x.position]?) := by
  have h : (Pattern.inInfix ['a', '.', '(', 'b', '|', ')', '*']).compile none =
      .error (.tooFewOperands (.connective .concat) 4 2 1) := rfl
  obtain ⟨hlt, -, hrank⟩ := located_of_compile h
  exact ⟨h, hlt, hrank _ _ _ _ rfl⟩

/-- **A parenthesis before an operator shifts the position that is named**: what lacks its right operand in `(a|)`
stands at 2, and is said to be at 1. -/
theorem compile_group_without_right :
    (Pattern.inInfix ['(', 'a', '|', ')']).compile none = .error (.tooFewOperands (.connective .alternate) 1 2 1) ∧
      ['(', 'a', '|', ')'][1]? = some 'a' ∧ ['(', 'a', '|', ')'][2]? = some '|' ∧
      ¬PointsInto ['(', 'a', '|', ')'] (.tooFewOperands (.connective .alternate) 1 2 1) := by
  refine ⟨rfl, rfl, rfl, fun h : some 'a' = some '|' => absurd h (by decide)⟩

end Pattern
end Regular
