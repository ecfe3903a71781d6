import Regular.Automaton.Basic
/-!
# Closure — the states that silent edges lead to

A work list holds the states still to be left; a state is marked when it is put on the list, so each comes up once.
Every round takes one state off the list, and every state put on it was unmarked before: the marks to come and the
list together shrink (`length_markFresh`), and the search ends on every graph, loops and all.

A number that no state has, given or met as the target of an edge, makes the whole search fail.
-/
namespace Regular
namespace Automaton

/-- Marks the numbers that are not marked yet and lists them; none if one of the numbers has no place to be marked. -/
def markFresh : Array Bool → List Nat → Option (Array Bool × List Nat)
  | marks, [] => some (marks, [])
  | marks, id :: ids =>
    if h : id < marks.size then
      if marks[id] then markFresh marks ids
      else
        match markFresh (marks.set id true h) ids with
        | none => none
        | some (marks', fresh) => some (marks', id :: fresh)
    else none

theorem length_markFresh : ∀ {ids : List Nat} {marks marks' : Array Bool} {fresh : List Nat},
    markFresh marks ids = some (marks', fresh) → marks'.count false + fresh.length = marks.count false
  | [], marks, marks', fresh, h => by
    cases h; rfl
  | id :: ids, marks, marks', fresh, h => by
    rw [markFresh] at h
    split at h
    · rename_i hlt
      split at h
      · exact length_markFresh h
      · rename_i hm
        split at h
        · cases h
        · rename_i marks'' fresh' hrest
          cases h
          have ih := length_markFresh hrest
          have hf : marks[id] = false := by simpa using hm
          have hpos : 0 < marks.count false := Array.count_pos_iff.2 (hf ▸ Array.getElem_mem hlt)
          rw [Array.count_set, hf] at ih
          simp only [beq_self_eq_true, if_true] at ih
          simp only [List.length_cons]
          have : ((true == false) = true) ↔ False := by decide
          simp only [this, if_false] at ih
          omega
    · cases h

/-- The marks after every state on the work list has been left by all its silent edges. -/
def explore (a : Automaton) (marks : Array Bool) (pending : List Nat) : Option (Array Bool) :=
  match pending with
  | [] => some marks
  | id :: rest =>
    match a.state? id with
    | none => none
    | some s =>
      if s.label.isSome then explore a marks rest
      else
        match _h : markFresh marks s.edges with
        | none => none
        | some (marks', fresh) => explore a marks' (fresh ++ rest)
termination_by marks.count false + pending.length
decreasing_by
  · simp only [List.length_cons]; omega
  · have := length_markFresh _h
    simp only [List.length_append, List.length_cons]; omega

def marked (marks : Array Bool) : List Nat :=
  (List.range marks.size).filter fun id => marks[id]? == some true

/-- The states that silent edges lead to from the given ones, themselves included, in ascending order; none if the
search meets a number that no state has. -/
def closure (a : Automaton) (ids : List Nat) : Option (List Nat) :=
  match markFresh (Array.replicate a.size false) ids with
  | none => none
  | some (marks, pending) => (explore a marks pending).map marked

end Automaton
end Regular
