import Regular.Automaton.Construction
/-!
# Guarded — the construction with its assertions

The rules of the construction rely on more than their types say.  A state that is changed has to be there; an edge is
added only to a state without a label, since a labeled one has its edge already; edges are replaced only where there are
none, so that none is lost; and the exit of a new fragment has to be open.  The rules given here check all this at the
moment they rely on it, and if a check fails there is no outcome at all, neither an automaton nor an error.  That no
check ever fails is what allows the construction to run without them.
-/
namespace Regular
namespace Construction

/-- Adds an edge to a state, which has to be there and to have no label. -/
def addEdge? (states : Array State) (id target : Nat) : Option (Array State) :=
  match states[id]? with
  | none => none
  | some s => if s.label.isNone then some (addEdges states id [target]) else none

/-- Gives a state its edges, which has to be there and to be open. -/
def setEdges? (states : Array State) (id : Nat) (targets : List Nat) : Option (Array State) :=
  match states[id]? with
  | none => none
  | some s => if s.isOpen then some (setEdges states id targets) else none

/-- The wiring that follows on the two states added, unless these are refused. -/
def wire? (added : Except PatternError (Fragment × Array State))
    (wiring : Fragment → Array State → Option (Array State)) : Option (Except PatternError (Fragment × Array State)) :=
  match added with
  | .error e => some (.error e)
  | .ok (g, states) => (wiring g states).map fun states => .ok (g, states)

/-- The rule of a quantifier, one edge after the other. -/
def quantify? (limit : Option Nat) (q : Quantifier) (f : Fragment) (states : Array State) :
    Option (Except PatternError (Fragment × Array State)) :=
  match q with
  | .optional =>
    wire? (addPair limit states fun exit => .silent [f.entry, exit]) fun g states => addEdge? states f.exit g.exit
  | .plus =>
    wire? (addPair limit states fun _ => .silent [f.entry]) fun g states =>
      setEdges? states f.exit [f.entry, g.exit]
  | .star =>
    wire? (addPair limit states fun exit => .silent [f.entry, exit]) fun g states =>
      (addEdge? states f.exit f.entry).bind fun states => addEdge? states f.exit g.exit

/-- The rule of a connective, one edge after the other. -/
def connect? (limit : Option Nat) (k : Connective) (left right : Fragment) (states : Array State) :
    Option (Except PatternError (Fragment × Array State)) :=
  match k with
  | .concat => (addEdge? states left.exit right.entry).map fun states => .ok (⟨left.entry, right.exit⟩, states)
  | .alternate =>
    wire? (addPair limit states fun _ => .silent [left.entry, right.entry]) fun g states =>
      (addEdge? states left.exit g.exit).bind fun states => addEdge? states right.exit g.exit

/-- Puts the new fragment on the stack; its exit has to be open. -/
def push? (stack : List Fragment) :
    Except PatternError (Fragment × Array State) → Option (Except PatternError Construction)
  | .error e => some (.error e)
  | .ok (f, states) =>
    match states[f.exit]? with
    | none => none
    | some s => if s.isOpen then some (.ok ⟨states, f :: stack⟩) else none

def step? (limit : Option Nat) (position : Nat) (t : Token) :
    Construction → Option (Except PatternError Construction)
  | ⟨states, stack⟩ =>
    match t, stack with
    | .literal c, stack => push? stack (literal limit c states)
    | .quantifier q, f :: stack => (quantify? limit q f states).bind (push? stack)
    | .connective k, right :: left :: stack => (connect? limit k left right states).bind (push? stack)
    | t, stack => some (.error (.tooFewOperands t position t.arity stack.length))

/-- The outcome of the tokens from a position on; none if a check fails. -/
def run? (limit : Option Nat) : Nat → List Token → Construction → Option (Except PatternError Construction)
  | _, [], k => some (.ok k)
  | position, t :: ts, k =>
    match step? limit position t k with
    | none => none
    | some (.error e) => some (.error e)
    | some (.ok k) => run? limit (position + 1) ts k

end Construction
end Regular
