import Regular.Automaton.Basic
import Regular.Text.Decimal
import Regular.Text.Escape
import Regular.Text.Hidden
/-!
# Listing — an automaton as plain text

Three lines name the start, the accepting state and the list that follows; then comes one line for each state, in order.
A label stands in single quotes, a silent step is written `ε`, and the accepting state says so instead of naming its
edges, which a finished automaton has none of.
-/
namespace Regular
namespace Automaton

open Text

def describe (hidden : Char → Bool) (a : Automaton) (id : Nat) (s : State) : List Char :=
  match s.label with
  | some c => quoted hidden '\'' [c] ++ " -> ".toList ++ bracketed s.edges
  | none => if id = a.accept then "MATCH".toList else "ε -> ".toList ++ bracketed s.edges

def listingLine (hidden : Char → Bool) (a : Automaton) (id : Nat) (s : State) : List Char :=
  ' ' :: ' ' :: (decimal id ++ ':' :: ' ' :: (a.describe hidden id s ++ ['\n']))

/-- The listing in which labels that a reader would not see are written by number. -/
def listingWith (hidden : Char → Bool) (a : Automaton) : List Char :=
  "Start state: ".toList ++ decimal a.start ++ '\n' ::
    ("Accepting state: ".toList ++ decimal a.accept ++ '\n' ::
      ("States:\n".toList ++ a.states.toList.zipIdx.flatMap fun (s, id) => a.listingLine hidden id s))

def listing (a : Automaton) : List Char := a.listingWith isHidden

end Automaton
end Regular
