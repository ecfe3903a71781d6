import Regular.Pattern.Expr
/-!
# Grammar — which texts are infix expressions, and of what

The grammar has one nonterminal for each way to bind.  An expression is a term or ends in an alternative, a term is a
factor or ends in a further factor, a factor is an atom or ends in a quantifier, and an atom is an unreserved character
or an expression in parentheses.  So quantifiers bind tighter than `.`, `.` binds tighter than `|`, and connectives
group to the left.  The rules are given on their own, without reference to any way to read a text.
-/
namespace Regular
namespace Pattern

inductive Nonterminal where
  | expression
  | term
  | factor
  | atom
  deriving DecidableEq, Repr

/-- A text is derived from a nonterminal, and its derivation has this tree. -/
inductive Derives : Nonterminal → List Char → Expr → Prop where
  | expression {s : List Char} {e : Expr} (h : Derives .term s e) : Derives .expression s e
  | alternate {s t : List Char} {left right : Expr} (hl : Derives .expression s left) (hr : Derives .term t right) :
      Derives .expression (s ++ '|' :: t) (.connected left right .alternate)
  | term {s : List Char} {e : Expr} (h : Derives .factor s e) : Derives .term s e
  | concat {s t : List Char} {left right : Expr} (hl : Derives .term s left) (hr : Derives .factor t right) :
      Derives .term (s ++ '.' :: t) (.connected left right .concat)
  | factor {s : List Char} {e : Expr} (h : Derives .atom s e) : Derives .factor s e
  | quantified {s : List Char} {e : Expr} (h : Derives .factor s e) (q : Quantifier) :
      Derives .factor (s ++ [q.char]) (.quantified e q)
  | literal {c : Char} (h : c ∉ Token.reserved) : Derives .atom [c] (.literal c)
  | group {s : List Char} {e : Expr} (h : Derives .expression s e) : Derives .atom ('(' :: (s ++ [')'])) e

def IsExpression (s : List Char) : Prop := ∃ e, Derives .expression s e

end Pattern
end Regular
