import Regular.Automaton.Basic
import Regular.Text.Decimal
import Regular.Text.Escape
/-!
# Graphviz — an automaton as a directed graph for drawing

The text names the two distinguished states by their shapes and then has one line for each edge, state by state and in
each state's order.  Labels keep to printable ASCII with quotes and backslashes escaped, so the one character outside
it, `ε`, marks the silent edges.
-/
namespace Regular
namespace Automaton

open Text

def edgeLabel : Option Char → List Char
  | some c => escapeAscii c
  | none => ['ε']

def edgeLine (source : Nat) (label : Option Char) (target : Nat) : List Char :=
  '\t' :: (decimal source ++ " -> ".toList ++ decimal target ++ " [label=\"".toList ++ edgeLabel label ++
    "\"];\n".toList)

def edgeLines (id : Nat) (s : State) : List Char := s.edges.flatMap (edgeLine id s.label)

/-- The line that gives a state a shape. -/
def shapeLine (id : Nat) (shape : List Char) : List Char :=
  '\t' :: (decimal id ++ " [shape=".toList ++ shape ++ "];\n".toList)

def graphviz (a : Automaton) : List Char :=
  "digraph nfa \x7b\n\trankdir=LR;\n".toList ++ shapeLine a.start "box".toList ++
    shapeLine a.accept "doublecircle".toList ++
    (a.states.toList.zipIdx.flatMap fun (s, id) => edgeLines id s) ++ "\x7d\n".toList

end Automaton
end Regular
