/-!
# Automaton — states in one array, edges by number

A state is named by its place in the array, so that loops need no pointers.  A state with a label is left by consuming
that character, a state without one is left silently.  `State.isOpen` tells the states that are not left at all: in a
finished automaton that is the accepting one, in an unfinished one each of them is still to be wired.
-/
namespace Regular

structure State where
  /-- The character consumed on leaving, if any. -/
  label : Option Char
  /-- Where the state can be left to, in order of preference. -/
  edges : List Nat
  deriving DecidableEq, Repr

namespace State

def silent (edges : List Nat) : State := ⟨none, edges⟩

def consuming (c : Char) (target : Nat) : State := ⟨some c, [target]⟩

def isOpen (s : State) : Bool := s.edges.isEmpty

end State

structure Automaton where
  states : Array State
  start : Nat
  accept : Nat
  deriving DecidableEq, Repr

namespace Automaton

def size (a : Automaton) : Nat := a.states.size

def isEmpty (a : Automaton) : Bool := a.states.isEmpty

/-- The state of a number, if the automaton has it. -/
def state? (a : Automaton) (id : Nat) : Option State := a.states[id]?

/-- The numbers of the states without edges, in ascending order. -/
def openStates (a : Automaton) : List Nat :=
  (List.range a.size).filter fun id => (a.state? id).any State.isOpen

/-- There is an edge between two states that consumes the given label, or nothing. -/
def HasEdge (a : Automaton) (source : Nat) (label : Option Char) (target : Nat) : Prop :=
  ∃ s, a.state? source = some s ∧ s.label = label ∧ target ∈ s.edges

/-- The start, the accepting state and the target of every edge are states of the automaton. -/
structure IsClosed (a : Automaton) : Prop where
  start_lt : a.start < a.size
  accept_lt : a.accept < a.size
  target_lt : ∀ {source label target}, a.HasEdge source label target → target < a.size

theorem state?_eq_some {a : Automaton} {id : Nat} (h : id < a.size) : a.state? id = some (a.states[id]) :=
  Array.getElem?_eq_getElem h

theorem lt_size_of_state? {a : Automaton} {id : Nat} {s : State} (h : a.state? id = some s) : id < a.size :=
  (Array.getElem?_eq_some_iff.1 h).1

theorem HasEdge.lt_size {a : Automaton} {source : Nat} {label : Option Char} {target : Nat}
    (h : a.HasEdge source label target) : source < a.size := by
  obtain ⟨s, hs, _, _⟩ := h
  exact lt_size_of_state? hs

/-- **An automaton is given by its two distinguished states and what each number stands for.** -/
theorem ext_state? {a b : Automaton} (hstart : a.start = b.start) (haccept : a.accept = b.accept)
    (hstate : ∀ id, a.state? id = b.state? id) : a = b := by
  obtain ⟨states, start, accept⟩ := a
  obtain ⟨states', start', accept'⟩ := b
  obtain rfl : states = states' := Array.ext_getElem? hstate
  cases hstart
  cases haccept
  rfl

/-- Whether an automaton has dangling edges can be seen from its states one by one. -/
theorem isClosed_iff {a : Automaton} : a.IsClosed ↔
    a.start < a.size ∧ a.accept < a.size ∧ ∀ s ∈ a.states.toList, ∀ id ∈ s.edges, id < a.size := by
  constructor
  · intro h
    refine ⟨h.start_lt, h.accept_lt, fun s hs id hid => ?_⟩
    obtain ⟨source, hsource⟩ := List.mem_iff_getElem?.1 hs
    rw [Array.getElem?_toList] at hsource
    exact h.target_lt ⟨s, hsource, rfl, hid⟩
  · rintro ⟨hstart, haccept, htarget⟩
    refine ⟨hstart, haccept, fun {source _ _} hedge => ?_⟩
    obtain ⟨s, hs, -, hid⟩ := hedge
    rw [state?, ← Array.getElem?_toList] at hs
    exact htarget s (List.mem_of_getElem? hs) _ hid

instance (a : Automaton) : Decidable a.IsClosed := decidable_of_iff _ isClosed_iff.symm

end Automaton
end Regular
