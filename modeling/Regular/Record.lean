import Regular.Automaton.Construction
import Regular.Automaton.Simulation
/-!
# Record — what is noted, as lines of text

Building an automaton and running it note what they do as values (`Construction.Event`, `Reading`).  Here those values
become records: how important a line is, which activity it comes from, and its text.
-/
namespace Regular

inductive Level where
  | debug
  | trace
  deriving DecidableEq, Repr

inductive Activity where
  | construction
  | simulation
  deriving DecidableEq, Repr

structure Record where
  level : Level
  activity : Activity
  message : List Char
  deriving DecidableEq, Repr

open Text

/-- The record of a step of the construction: the two ends matter more than the single tokens. -/
def Construction.Event.record : Construction.Event → Record
  | .begun count => ⟨.debug, .construction, "compiling ".toList ++ decimal count ++ " postfix tokens".toList⟩
  | .token position t fragments =>
    ⟨.trace, .construction,
      "token ".toList ++ decimal position ++ " '".toList ++ t.char :: "', ".toList ++ decimal fragments ++
        " fragment(s) on the stack".toList⟩
  | .finished size start accept =>
    ⟨.debug, .construction,
      "compiled NFA with ".toList ++ decimal size ++ " states, start ".toList ++ decimal start ++
        ", accept ".toList ++ decimal accept⟩

def Reading.record (r : Reading) : Record :=
  ⟨.trace, .simulation,
    "after '".toList ++ r.char :: "' at ".toList ++ decimal r.position ++ ": ".toList ++ decimal r.active ++
      " active state(s)".toList⟩

end Regular
