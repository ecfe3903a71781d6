import Regular.Pattern.Infix
import Regular.Automaton.Construction
/-!
# Compile — from a pattern to its automaton

A pattern is given as infix text, as postfix text, or as tokens already in postfix order.  The first two are read to
the end before anything is built, so a fault in the text is found before any fault in the order of operands.
-/
namespace Regular

/-- A pattern in one of the forms it can be written in. -/
inductive Pattern where
  | inInfix (text : List Char)
  | inPostfix (text : List Char)
  | ofTokens (ts : List Token)
  deriving DecidableEq, Repr

namespace Pattern

def tokens : Pattern → Except PatternError (List Token)
  | .inInfix text => readInfix text
  | .inPostfix text => readPostfix text
  | .ofTokens ts => .ok ts

/-- The automaton of a pattern, with no more states than allowed. -/
def compile (limit : Option Nat) (p : Pattern) : Except PatternError Automaton :=
  p.tokens.bind (Construction.build limit)

/-- The same, with what is noted on the way; reading the text is not noted. -/
def transcript (limit : Option Nat) (p : Pattern) : List Construction.Event × Except PatternError Automaton :=
  match p.tokens with
  | .error e => ([], .error e)
  | .ok ts => Construction.transcript limit ts

theorem transcript_snd (limit : Option Nat) (p : Pattern) : (p.transcript limit).2 = p.compile limit := by
  unfold transcript compile
  cases p.tokens <;> rfl

end Pattern
end Regular
