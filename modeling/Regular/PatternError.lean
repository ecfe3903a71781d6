import Regular.Token
import Regular.Text.Decimal
/-!
# PatternError — why a pattern is refused

One constructor for each cause, with what the message has to name.  Positions count characters of the text, or tokens
of a token sequence, from zero.
-/
namespace Regular

inductive PatternError where
  /-- An operator came when the stack held fewer operands than it takes. -/
  | tooFewOperands (op : Token) (position needed found : Nat)
  /-- An operator stands where infix text has to start an operand. -/
  | noLeftOperand (op : Token) (position : Nat)
  /-- The tokens ran out with several operands left and nothing to join them. -/
  | unjoinedOperands (count : Nat)
  /-- There was no token at all. -/
  | emptyPattern
  /-- A parenthesis in postfix text, which has no use for one. -/
  | strayParenthesis (paren : Char) (position : Nat)
  /-- A parenthesis in infix text without its partner. -/
  | unmatchedParenthesis (position : Nat)
  /-- The automaton would have more states than allowed. -/
  | tooManyStates (limit : Nat)
  deriving DecidableEq, Repr

open Text in
/-- The sentence that tells the author of a pattern what is wrong with it. -/
def PatternError.message : PatternError → List Char
  | .tooFewOperands op position needed found =>
    "operator '".toList ++ op.char :: "' at position ".toList ++ decimal position ++ " needs ".toList ++ decimal needed ++
      " operand(s) but only ".toList ++ decimal found ++ " available".toList
  | .noLeftOperand op position =>
    "operator '".toList ++ op.char :: "' at position ".toList ++ decimal position ++ " has no left operand".toList
  | .unjoinedOperands count => decimal count ++ " fragments left after the last token, expected 1".toList
  | .emptyPattern => "empty expression".toList
  | .strayParenthesis paren position =>
    "unrecognized token '".toList ++ paren :: "' at position ".toList ++ decimal position
  | .unmatchedParenthesis position => "unbalanced parenthesis at position ".toList ++ decimal position
  | .tooManyStates limit => "regex pattern is too complex: exceeds ".toList ++ decimal limit ++ " states".toList

end Regular
