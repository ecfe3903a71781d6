import Regular.PatternError
import Regular.Automaton.Basic
/-!
# Construction — an automaton from tokens in postfix order

Every token leaves one fragment on a stack: a part of the state array with a way in and an open way out.  A literal
brings a fragment of its own, an operator wires the fragments of its operands together.  All fragments share one array,
and apart from the open exits nothing in it is touched again.  When the tokens run out, the one fragment left is the
automaton.

Each token but a concatenation adds two states, first the exit and then the entry.
-/
namespace Regular

/-- A part of an automaton under construction, entered at one state and left at another that is still open. -/
structure Fragment where
  entry : Nat
  exit : Nat
  deriving DecidableEq, Repr

structure Construction where
  states : Array State
  /-- The fragments not yet used as operands, the latest first. -/
  stack : List Fragment
  deriving DecidableEq, Repr

namespace Construction

def empty : Construction := ⟨#[], []⟩

/-! ## Changing the state array -/

/-- The states with one more, refused if that makes more than allowed. -/
def addState (limit : Option Nat) (states : Array State) (s : State) : Except PatternError (Array State) :=
  match limit with
  | none => .ok (states.push s)
  | some most => if most ≤ states.size then .error (.tooManyStates most) else .ok (states.push s)

/-- Adds an open exit and then an entry, which may point to that exit. -/
def addPair (limit : Option Nat) (states : Array State) (entry : Nat → State) :
    Except PatternError (Fragment × Array State) :=
  let exit := states.size
  match addState limit states (.silent []) with
  | .error e => .error e
  | .ok states =>
    match addState limit states (entry exit) with
    | .error e => .error e
    | .ok states => .ok (⟨exit + 1, exit⟩, states)

def addEdges (states : Array State) (id : Nat) (targets : List Nat) : Array State :=
  states.modify id fun s => { s with edges := s.edges ++ targets }

def setEdges (states : Array State) (id : Nat) (targets : List Nat) : Array State :=
  states.modify id fun s => { s with edges := targets }

/-! ## One rule for each kind of token -/

/-- The entry consumes the character and leads to the exit. -/
def literal (limit : Option Nat) (c : Char) (states : Array State) : Except PatternError (Fragment × Array State) :=
  addPair limit states fun exit => .consuming c exit

/-- The entry leads into the operand and, if the operand may be left out, past it; the operand's exit leads back into
it, if it may be repeated, and out. -/
def quantify (limit : Option Nat) (q : Quantifier) (f : Fragment) (states : Array State) :
    Except PatternError (Fragment × Array State) :=
  match q with
  | .optional =>
    (addPair limit states fun exit => .silent [f.entry, exit]).map fun (g, states) =>
      (g, addEdges states f.exit [g.exit])
  | .plus =>
    (addPair limit states fun _ => .silent [f.entry]).map fun (g, states) =>
      (g, setEdges states f.exit [f.entry, g.exit])
  | .star =>
    (addPair limit states fun exit => .silent [f.entry, exit]).map fun (g, states) =>
      (g, addEdges states f.exit [f.entry, g.exit])

/-- A concatenation wires the left exit to the right entry and adds nothing.  In an alternation the entry leads into
the left operand and the right one, in this order, and both of their exits lead to the new one. -/
def connect (limit : Option Nat) (k : Connective) (left right : Fragment) (states : Array State) :
    Except PatternError (Fragment × Array State) :=
  match k with
  | .concat => .ok (⟨left.entry, right.exit⟩, addEdges states left.exit [right.entry])
  | .alternate =>
    (addPair limit states fun _ => .silent [left.entry, right.entry]).map fun (g, states) =>
      (g, addEdges (addEdges states left.exit [g.exit]) right.exit [g.exit])

def push (stack : List Fragment) : Except PatternError (Fragment × Array State) → Except PatternError Construction
  | .error e => .error e
  | .ok (f, states) => .ok ⟨states, f :: stack⟩

/-- The construction after one more token, which stands at the given position. -/
def step (limit : Option Nat) (position : Nat) (t : Token) : Construction → Except PatternError Construction
  | ⟨states, stack⟩ =>
    match t, stack with
    | .literal c, stack => push stack (literal limit c states)
    | .quantifier q, f :: stack => push stack (quantify limit q f states)
    | .connective k, right :: left :: stack => push stack (connect limit k left right states)
    | t, stack => .error (.tooFewOperands t position t.arity stack.length)

/-! ## The whole run and its record -/

/-- What is noted while an automaton is built. -/
inductive Event where
  /-- The number of tokens, before the first one. -/
  | begun (count : Nat)
  /-- A token about to be used, and how many fragments it finds. -/
  | token (position : Nat) (t : Token) (fragments : Nat)
  | finished (size start accept : Nat)
  deriving DecidableEq, Repr

/-- The construction after the tokens from a position on, with what is noted of each. -/
def run (limit : Option Nat) : Nat → List Token → Construction → List Event × Except PatternError Construction
  | _, [], k => ([], .ok k)
  | position, t :: ts, k =>
    let event := Event.token position t k.stack.length
    match step limit position t k with
    | .error e => ([event], .error e)
    | .ok k =>
      let (events, result) := run limit (position + 1) ts k
      (event :: events, result)

/-- The automaton that is left when the tokens have run out. -/
def finish : Construction → Except PatternError Automaton
  | ⟨_, []⟩ => .error .emptyPattern
  | ⟨states, [f]⟩ => .ok ⟨states, f.entry, f.exit⟩
  | ⟨_, stack⟩ => .error (.unjoinedOperands stack.length)

/-- All that is noted while the tokens are made an automaton, and the outcome. -/
def transcript (limit : Option Nat) (ts : List Token) : List Event × Except PatternError Automaton :=
  let (events, result) := run limit 0 ts empty
  match result.bind finish with
  | .error e => (.begun ts.length :: events, .error e)
  | .ok a => (.begun ts.length :: events ++ [.finished a.size a.start a.accept], .ok a)

def build (limit : Option Nat) (ts : List Token) : Except PatternError Automaton := (transcript limit ts).2

theorem build_eq (limit : Option Nat) (ts : List Token) : build limit ts = (run limit 0 ts empty).2.bind finish := by
  unfold build transcript
  simp only
  split
  · rename_i e h
    exact h.symm
  · rename_i a h
    exact h.symm

end Construction
end Regular
