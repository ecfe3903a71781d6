import Regular.Automaton.Closure
/-!
# Simulation — running an automaton on a word

The run keeps the list of all states that the characters read so far can lead to, so it never goes back.  It stops as
soon as that list is empty, for then no continuation can be accepted.  Every function here answers none if the automaton
points to a state that it does not have.
-/
namespace Regular

/-- What a run notes after a character: which one, where, and how many states it can have led to. -/
structure Reading where
  char : Char
  position : Nat
  active : Nat
  deriving DecidableEq, Repr

/-- A stretch of text, from a position to just before another. -/
structure Span where
  start : Nat
  stop : Nat
  deriving DecidableEq, Repr

namespace Automaton

/-- Where a state is left to by a character. -/
def targets (a : Automaton) (c : Char) (id : Nat) : List Nat :=
  match a.state? id with
  | none => []
  | some s => if s.label = some c then s.edges else []

def initial (a : Automaton) : Option (List Nat) := a.closure [a.start]

def advance (a : Automaton) (active : List Nat) (c : Char) : Option (List Nat) :=
  a.closure (active.flatMap (a.targets c))

/-- What is noted of the characters from a position on, and whether the last one leaves the accepting state active. -/
def runFrom (a : Automaton) : List Nat → Nat → List Char → Option (List Reading × Bool)
  | active, _, [] => some ([], active.contains a.accept)
  | active, position, c :: cs =>
    match a.advance active c with
    | none => none
    | some next =>
      let reading : Reading := ⟨c, position, next.length⟩
      if next.isEmpty then some ([reading], false)
      else
        match a.runFrom next (position + 1) cs with
        | none => none
        | some (readings, verdict) => some (reading :: readings, verdict)

/-- What is noted of a word and whether it is accepted. -/
def run (a : Automaton) (w : List Char) : Option (List Reading × Bool) :=
  match a.initial with
  | none => none
  | some active => a.runFrom active 0 w

def accepts? (a : Automaton) (w : List Char) : Option Bool := (a.run w).map (·.2)

/-! ## Searching in a text -/

/-- The length of the shortest beginning of the text that makes the accepting state active, if there is one. -/
def shortest (a : Automaton) : List Nat → List Char → Option (Option Nat)
  | active, [] => some (if active.contains a.accept then some 0 else none)
  | active, c :: cs =>
    if active.contains a.accept then some (some 0)
    else if active.isEmpty then some none
    else
      match a.advance active c with
      | none => none
      | some next => (a.shortest next cs).map fun found => found.map (· + 1)

/-- The first stretch from a position on that is accepted: the leftmost start, and the nearest end from there. -/
def findFrom (a : Automaton) (active : List Nat) : Nat → List Char → Option (Option Span)
  | position, [] => (a.shortest active []).map fun found => found.map fun n => ⟨position, position + n⟩
  | position, c :: cs =>
    match a.shortest active (c :: cs) with
    | none => none
    | some (some n) => some (some ⟨position, position + n⟩)
    | some none => a.findFrom active (position + 1) cs

/-- The leftmost stretch of a text that is accepted, the shortest one of those that start there. -/
def find? (a : Automaton) (text : List Char) : Option (Option Span) :=
  match a.initial with
  | none => none
  | some active => a.findFrom active 0 text

/-! ## Listing the words of a language -/

/-- The words of one length over an alphabet, in the order of the alphabet, the first character counting most. -/
def words (alphabet : List Char) : Nat → List (List Char)
  | 0 => [[]]
  | n + 1 => alphabet.flatMap fun c => (words alphabet n).map (c :: ·)

/-- The accepted words up to a length, the shorter ones first. -/
def acceptedUpTo (a : Automaton) (alphabet : List Char) (length : Nat) : List (List Char) :=
  ((List.range (length + 1)).flatMap (words alphabet)).filter fun w => a.accepts? w == some true

end Automaton
end Regular
