import Regular.Automaton.Simulation
/-!
# Unordered — running an automaton on sets that come up in any order

`Automaton.run` lists its active states in ascending order.  A set that is kept by hashing has no order of its own: each
time it is gone through, its members may come up differently.  Here the same run is given with those orders left open.
Two sets are gone through at every character: the active states when they are left, and the states they lead to when
silent edges are followed from them.

Following silent edges is itself a search whose work list need not be kept in any order: `Round` leaves any one of the
states on it.
-/
namespace Regular

/-- The orders in which sets of states come up, one time after the other. -/
structure Orders where
  arrange : Nat → List Nat → List Nat
  perm : ∀ time ids, (arrange time ids).Perm ids

theorem Orders.mem_arrange (orders : Orders) {time : Nat} {ids : List Nat} {id : Nat} :
    id ∈ orders.arrange time ids ↔ id ∈ ids :=
  (orders.perm time ids).mem_iff

namespace Automaton

def advanceIn (orders : Orders) (a : Automaton) (active : List Nat) (position : Nat) (c : Char) : Option (List Nat) :=
  let left := (orders.arrange (2 * position) active).flatMap (a.targets c)
  a.closure (orders.arrange (2 * position + 1) left)

def runFromIn (orders : Orders) (a : Automaton) : List Nat → Nat → List Char → Option (List Reading × Bool)
  | active, _, [] => some ([], active.contains a.accept)
  | active, position, c :: cs =>
    match a.advanceIn orders active position c with
    | none => none
    | some next =>
      let reading : Reading := ⟨c, position, next.length⟩
      if next.isEmpty then some ([reading], false)
      else
        match a.runFromIn orders next (position + 1) cs with
        | none => none
        | some (readings, verdict) => some (reading :: readings, verdict)

/-- What is noted of a word and whether it is accepted; the one state that a run starts from has only one order. -/
def runIn (orders : Orders) (a : Automaton) (w : List Char) : Option (List Reading × Bool) :=
  match a.initial with
  | none => none
  | some active => a.runFromIn orders active 0 w

def acceptsIn? (orders : Orders) (a : Automaton) (w : List Char) : Option Bool := (a.runIn orders w).map (·.2)

/-! ## Following silent edges -/

/-- A search under way: what it has marked, and the states that it still has to leave. -/
structure Search where
  marks : Array Bool
  pending : List Nat

/-- One round of a search takes any one of the pending states off the list.  A state with a label is left by no silent
edge; from any other the targets are marked, and those that were not marked before are put on the list. -/
inductive Round (a : Automaton) : Search → Search → Prop where
  | stay {marks : Array Bool} {pending rest : List Nat} {id : Nat} {s : State} (take : pending.Perm (id :: rest))
      (state : a.state? id = some s) (labeled : s.label.isSome) : Round a ⟨marks, pending⟩ ⟨marks, rest⟩
  | leave {marks marks' : Array Bool} {pending pending' rest fresh : List Nat} {id : Nat} {s : State}
      (take : pending.Perm (id :: rest)) (state : a.state? id = some s) (silent : ¬s.label.isSome)
      (mark : markFresh marks s.edges = some (marks', fresh)) (put : (fresh ++ rest).Perm pending') :
      Round a ⟨marks, pending⟩ ⟨marks', pending'⟩

/-- What a search from the given states can have come to after a number of rounds.  At first the given states are marked
and pending, each once. -/
inductive SearchAfter (a : Automaton) (ids : List Nat) : Nat → Search → Prop where
  | begin {marks : Array Bool} {fresh pending : List Nat}
      (mark : markFresh (Array.replicate a.size false) ids = some (marks, fresh)) (put : fresh.Perm pending) :
      SearchAfter a ids 0 ⟨marks, pending⟩
  | round {n : Nat} {s t : Search} (before : SearchAfter a ids n s) (round : a.Round s t) : SearchAfter a ids (n + 1) t

end Automaton
end Regular
