import Regular.Automaton.Basic
/-!
# Path — what a word can lead to

The meaning of an automaton apart from any way to run it: a path takes one edge after the other, and the characters
its edges consume spell a word.  `Path.append` and `Path.split` join and cut paths along the word.
-/
namespace Regular
namespace Automaton

/-- A word can be read from one state to another. -/
inductive Path (a : Automaton) : Nat → List Char → Nat → Prop where
  | refl (p : Nat) : Path a p [] p
  | silent {p q r : Nat} {w : List Char} (edge : a.HasEdge p none q) (rest : Path a q w r) : Path a p w r
  | consume {p q r : Nat} {c : Char} {w : List Char} (edge : a.HasEdge p (some c) q) (rest : Path a q w r) :
      Path a p (c :: w) r

/-- A word leads from the start to the accepting state. -/
def Accepts (a : Automaton) (w : List Char) : Prop := a.Path a.start w a.accept

/-- One state leads to another by silent edges alone. -/
inductive Drift (a : Automaton) : Nat → Nat → Prop where
  | refl (p : Nat) : Drift a p p
  | silent {p q r : Nat} (edge : a.HasEdge p none q) (rest : Drift a q r) : Drift a p r

/-- One state leads to another, whatever is consumed. -/
inductive Reaches (a : Automaton) : Nat → Nat → Prop where
  | refl (p : Nat) : Reaches a p p
  | edge {p q r : Nat} {label : Option Char} (edge : a.HasEdge p label q) (rest : Reaches a q r) : Reaches a p r

theorem Path.append {a : Automaton} {p q r : Nat} {u v : List Char} (h : a.Path p u q) (h' : a.Path q v r) :
    a.Path p (u ++ v) r := by
  induction h with
  | refl => exact h'
  | silent edge _ ih => exact .silent edge (ih h')
  | consume edge _ ih => exact .consume edge (ih h')

theorem Drift.trans {a : Automaton} {p q r : Nat} (h : a.Drift p q) (h' : a.Drift q r) : a.Drift p r := by
  induction h with
  | refl => exact h'
  | silent edge _ ih => exact .silent edge (ih h')

theorem Reaches.trans {a : Automaton} {p q r : Nat} (h : a.Reaches p q) (h' : a.Reaches q r) : a.Reaches p r := by
  induction h with
  | refl => exact h'
  | edge edge _ ih => exact .edge edge (ih h')

theorem Drift.path {a : Automaton} {p q : Nat} (h : a.Drift p q) : a.Path p [] q := by
  induction h with
  | refl p => exact .refl p
  | silent edge _ ih => exact .silent edge ih

/-- **A path that reads nothing is a drift.** -/
theorem path_nil_iff {a : Automaton} {p q : Nat} : a.Path p [] q ↔ a.Drift p q := by
  constructor
  · intro h
    generalize hw : ([] : List Char) = w at h
    induction h with
    | refl p => exact .refl p
    | silent edge _ ih => exact .silent edge (ih hw)
    | consume edge _ _ => cases hw
  · exact Drift.path

/-- **A path that reads a word begins with a drift to an edge for its first character.** -/
theorem path_cons_iff {a : Automaton} {p r : Nat} {c : Char} {w : List Char} :
    a.Path p (c :: w) r ↔ ∃ q q', a.Drift p q ∧ a.HasEdge q (some c) q' ∧ a.Path q' w r := by
  constructor
  · intro h
    generalize hw : c :: w = v at h
    induction h with
    | refl p => cases hw
    | @silent p _ _ _ edge _ ih =>
      obtain ⟨q, q', hd, he, hp⟩ := ih hw
      exact ⟨q, q', .silent edge hd, he, hp⟩
    | @consume p q _ _ _ edge rest _ =>
      obtain ⟨rfl, rfl⟩ := List.cons.inj hw
      exact ⟨p, q, .refl p, edge, rest⟩
  · rintro ⟨q, q', hd, he, hp⟩
    exact Path.append hd.path (.consume he hp)

theorem Path.split {a : Automaton} {u v : List Char} {p r : Nat} (h : a.Path p (u ++ v) r) :
    ∃ q, a.Path p u q ∧ a.Path q v r := by
  induction u generalizing p with
  | nil => exact ⟨p, .refl p, h⟩
  | cons c u ih =>
    obtain ⟨q, q', hd, he, hp⟩ := path_cons_iff.1 h
    obtain ⟨m, hu, hv⟩ := ih hp
    exact ⟨m, path_cons_iff.2 ⟨q, q', hd, he, hu⟩, hv⟩

/-- **A path that reads a word ends with an edge for its last character and a drift.** -/
theorem path_snoc_iff {a : Automaton} {p r : Nat} {c : Char} {w : List Char} :
    a.Path p (w ++ [c]) r ↔ ∃ q q', a.Path p w q ∧ a.HasEdge q (some c) q' ∧ a.Drift q' r := by
  constructor
  · intro h
    obtain ⟨m, hw, hc⟩ := h.split
    obtain ⟨q, q', hd, he, hp⟩ := path_cons_iff.1 hc
    have hpath := hw.append hd.path
    rw [List.append_nil] at hpath
    exact ⟨q, q', hpath, he, path_nil_iff.1 hp⟩
  · rintro ⟨q, q', hw, he, hd⟩
    exact hw.append (.consume he hd.path)

end Automaton
end Regular
