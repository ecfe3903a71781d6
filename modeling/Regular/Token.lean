/-!
# Token — what one character of a pattern stands for

A pattern is a sequence of tokens: a literal stands for itself, a quantifier says how often the operand before it
repeats, a connective joins two operands.  `.` writes concatenation out, so it is a connective like `|`.
Parentheses are no tokens: they only direct the reader of infix text.
-/
namespace Regular

inductive Quantifier where
  /-- Zero times or once, written `?`. -/
  | optional
  /-- Once or more, written `+`. -/
  | plus
  /-- Any number of times, written `*`. -/
  | star
  deriving DecidableEq, Repr

inductive Connective where
  /-- The left operand and then the right one, written `.`. -/
  | concat
  /-- Either operand, written `|`. -/
  | alternate
  deriving DecidableEq, Repr

inductive Token where
  /-- A character that matches itself, whichever character it is. -/
  | literal (c : Char)
  | quantifier (q : Quantifier)
  | connective (k : Connective)
  deriving DecidableEq, Repr

def Quantifier.char : Quantifier → Char
  | .optional => '?'
  | .plus => '+'
  | .star => '*'

def Connective.char : Connective → Char
  | .concat => '.'
  | .alternate => '|'

namespace Token

def char : Token → Char
  | .literal c => c
  | .quantifier q => q.char
  | .connective k => k.char

/-- The number of operands a token takes off the stack. -/
def arity : Token → Nat
  | .literal _ => 0
  | .quantifier _ => 1
  | .connective _ => 2

def isOperator : Token → Bool
  | .literal _ => false
  | .quantifier _ | .connective _ => true

/-- How tightly an operator binds: quantifiers before concatenation, concatenation before alternation.
A literal binds nothing. -/
def precedence : Token → Nat
  | .literal _ => 0
  | .quantifier _ => 50
  | .connective .concat => 40
  | .connective .alternate => 30

/-- The token a character stands for; a parenthesis stands for none. -/
def ofChar? : Char → Option Token
  | '.' => some (.connective .concat)
  | '|' => some (.connective .alternate)
  | '?' => some (.quantifier .optional)
  | '+' => some (.quantifier .plus)
  | '*' => some (.quantifier .star)
  | '(' | ')' => none
  | c => some (.literal c)

/-- The characters with a meaning of their own in pattern text. -/
def reserved : List Char := ['(', ')', '.', '|', '?', '+', '*']

/-- A token that its own character is read as: an operator, or a literal that is no reserved character. -/
def IsWritable : Token → Prop
  | .literal c => c ∉ reserved
  | .quantifier _ | .connective _ => True

instance : DecidablePred IsWritable
  | .literal c => inferInstanceAs (Decidable (c ∉ reserved))
  | .quantifier _ | .connective _ => inferInstanceAs (Decidable True)

theorem ofChar?_eq_none_iff {c : Char} : ofChar? c = none ↔ c = '(' ∨ c = ')' := by
  unfold ofChar?
  split <;> simp_all

theorem char_of_ofChar? {c : Char} {t : Token} (h : ofChar? c = some t) : t.char = c := by
  unfold ofChar? at h
  split at h <;> cases h <;> rfl

theorem isWritable_of_ofChar? {c : Char} {t : Token} (h : ofChar? c = some t) : t.IsWritable := by
  unfold ofChar? at h
  split at h <;> cases h <;> simp_all [IsWritable, reserved]

theorem isWritable_of_isOperator : ∀ {t : Token}, t.isOperator = true → t.IsWritable
  | .quantifier _, _ | .connective _, _ => trivial

theorem ofChar?_char : ∀ {t : Token}, t.IsWritable → ofChar? t.char = some t
  | .literal c, h => by
    simp only [IsWritable, reserved, List.mem_cons, List.not_mem_nil, or_false, not_or] at h
    simp only [char]
    unfold ofChar?
    split <;> simp_all
  | .quantifier q, _ => by cases q <;> rfl
  | .connective k, _ => by cases k <;> rfl

/-- **The operators are written with these five characters**, and with no others. -/
theorem exists_operator_iff {c : Char} :
    (∃ op : Token, op.isOperator = true ∧ op.char = c) ↔ c ∈ ['.', '|', '?', '+', '*'] := by
  constructor
  · rintro ⟨_ | q | k, hop, rfl⟩
    · cases hop
    · cases q <;> decide
    · cases k <;> decide
  · intro h
    simp only [List.mem_cons, List.not_mem_nil, or_false] at h
    rcases h with rfl | rfl | rfl | rfl | rfl
    · exact ⟨.connective .concat, rfl, rfl⟩
    · exact ⟨.connective .alternate, rfl, rfl⟩
    · exact ⟨.quantifier .optional, rfl, rfl⟩
    · exact ⟨.quantifier .plus, rfl, rfl⟩
    · exact ⟨.quantifier .star, rfl, rfl⟩

/-- The character of an operator stands for that operator. -/
theorem ofChar?_operator {op : Token} (h : op.isOperator = true) : ofChar? op.char = some op :=
  ofChar?_char (isWritable_of_isOperator h)

/-- A character without a meaning of its own stands for itself. -/
theorem ofChar?_literal {c : Char} (h : c ∉ reserved) : ofChar? c = some (.literal c) :=
  ofChar?_char (t := .literal c) h

example : reserved.map ofChar? = [none, none, some (.connective .concat), some (.connective .alternate),
    some (.quantifier .optional), some (.quantifier .plus), some (.quantifier .star)] := rfl

end Token
end Regular
