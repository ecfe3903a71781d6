import Regular.Pattern.Postfix
/-!
# Infix — pattern text with operators after or between their operands

The reader goes once from left to right and puts tokens into postfix order.  A literal is emitted at once; an operator
waits until one that binds no tighter, the end of its group, or the end of the text shows that its operands are
complete.  All operators are left associative.

An operator where an operand has to start (at the beginning, after `(` or after a connective) is refused here: moving
it behind what follows would make `*a` the pattern `a*`.  What survives the move, such as the missing right operand of
`a|`, is left to the construction of the automaton.
-/
namespace Regular
namespace Pattern

/-- What waits for its operands or its partner. -/
inductive Pending where
  /-- An open parenthesis, and where it stands. -/
  | group (position : Nat)
  | operator (op : Token)
  deriving DecidableEq, Repr

/-- The reader between two characters. -/
structure Reader where
  /-- The tokens emitted so far, the latest first. -/
  emitted : List Token
  /-- What waits, the latest first. -/
  pending : List Pending
  /-- Whether the next character has to start an operand. -/
  expectsOperand : Bool
  deriving DecidableEq, Repr

def Reader.start : Reader := ⟨[], [], true⟩

/-- Emits the operators that wait inside the innermost group and ends the group; none if no group is open. -/
def closeGroup : List Pending → List Token → Option (List Token × List Pending)
  | [], _ => none
  | .group _ :: rest, emitted => some (emitted, rest)
  | .operator op :: rest, emitted => closeGroup rest (op :: emitted)

/-- Emits the operators that wait in the innermost group and bind at least as tightly as the one that arrives. -/
def release (arriving : Token) : List Pending → List Token → List Token × List Pending
  | .operator op :: rest, emitted =>
    if op.precedence < arriving.precedence then (emitted, .operator op :: rest)
    else release arriving rest (op :: emitted)
  | pending, emitted => (emitted, pending)

def Reader.step (r : Reader) (position : Nat) (c : Char) : Except PatternError Reader :=
  if c = '(' then .ok ⟨r.emitted, .group position :: r.pending, true⟩
  else if c = ')' then
    match closeGroup r.pending r.emitted with
    | none => .error (.unmatchedParenthesis position)
    | some (emitted, pending) => .ok ⟨emitted, pending, false⟩
  else
    match readToken position c with
    | .error e => .error e
    | .ok t =>
      if !t.isOperator then .ok ⟨t :: r.emitted, r.pending, false⟩
      else if r.expectsOperand then .error (.noLeftOperand t position)
      else
        let (emitted, pending) := release t r.pending r.emitted
        .ok ⟨emitted, .operator t :: pending, t.arity == 2⟩

def Reader.run : Reader → Nat → List Char → Except PatternError Reader
  | r, _, [] => .ok r
  | r, position, c :: cs =>
    match r.step position c with
    | .error e => .error e
    | .ok r' => r'.run (position + 1) cs

/-- Emits all that still waits at the end of the text; an open group is refused, the innermost one first. -/
def drain : List Pending → List Token → Except PatternError (List Token)
  | [], emitted => .ok emitted
  | .group position :: _, _ => .error (.unmatchedParenthesis position)
  | .operator op :: rest, emitted => drain rest (op :: emitted)

def readInfix (cs : List Char) : Except PatternError (List Token) :=
  match Reader.start.run 0 cs with
  | .error e => .error e
  | .ok r =>
    match drain r.pending r.emitted with
    | .error e => .error e
    | .ok emitted => .ok emitted.reverse

/-! ## Running over a text in two parts -/

theorem Reader.run_append (r : Reader) (position : Nat) (xs ys : List Char) :
    r.run position (xs ++ ys) = (r.run position xs).bind (·.run (position + xs.length) ys) := by
  induction xs generalizing r position with
  | nil => rfl
  | cons x xs ih =>
    rw [List.cons_append, Reader.run, Reader.run]
    cases r.step position x with
    | error e => rfl
    | ok r' =>
      simp only [ih, List.length_cons]
      rw [show position + 1 + xs.length = position + (xs.length + 1) by omega]

theorem Reader.run_append_singleton {r r' : Reader} {position : Nat} {cs : List Char} (h : r.run position cs = .ok r')
    (c : Char) : r.run position (cs ++ [c]) = r'.step (position + cs.length) c := by
  rw [Reader.run_append, h]
  show Reader.run r' (position + cs.length) [c] = _
  rw [Reader.run]
  cases r'.step (position + cs.length) c <;> rfl

theorem closeGroup_operators (ops : List Token) (rest : List Pending) (emitted : List Token) :
    closeGroup (ops.map .operator ++ rest) emitted = closeGroup rest (ops.reverse ++ emitted) := by
  induction ops generalizing emitted with
  | nil => rfl
  | cons op ops ih => simp [closeGroup, ih]

theorem drain_operators (ops : List Token) (rest : List Pending) (emitted : List Token) :
    drain (ops.map .operator ++ rest) emitted = drain rest (ops.reverse ++ emitted) := by
  induction ops generalizing emitted with
  | nil => rfl
  | cons op ops ih => simp [drain, ih]

end Pattern
end Regular
