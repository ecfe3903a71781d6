import Regular.Proofs.Recording
import Regular.Proofs.Shape
import Regular.Proofs.Simulation
/-!
# Stopping — a run reads on as long as the word can still be completed

A run stops when no state is active, which is when no path spells the characters read so far.  That these then begin
no accepted word is plain; that otherwise they do begin one is not, for a state could be active that leads nowhere.  A
built automaton has no such state, so there the two are the same (`viable_iff_readable`), and the run stops at exactly
the first character that rules out every accepted word (`notes_of_build`).  On record there is then one line for each
character up to that one.
-/
namespace Regular
open Text

namespace Automaton
variable {a : Automaton} {w : List Char}

/-- Some accepted word begins with the given one. -/
def Viable (a : Automaton) (u : List Char) : Prop := ∃ v, a.accepts? (u ++ v) = some true

/-- The last position that has to be read of a word: the first one up to which the word is not viable, or else its last
one. -/
def IsLastRead (a : Automaton) (w : List Char) (m : Nat) : Prop :=
  (m < w.length ∧ ¬a.Viable (w.take (m + 1)) ∧ ∀ i < m, a.Viable (w.take (i + 1))) ∨
    ((∀ i < w.length, a.Viable (w.take (i + 1))) ∧ m + 1 = w.length)

/-! ## What can be read and what can be completed -/

theorem exists_path_of_reaches {p q : Nat} (h : a.Reaches p q) : ∃ v, a.Path p v q := by
  induction h with
  | refl p => exact ⟨[], .refl p⟩
  | @edge _ _ _ label edge _ ih =>
    obtain ⟨v, hv⟩ := ih
    cases label with
    | none => exact ⟨v, .silent edge hv⟩
    | some c => exact ⟨c :: v, .consume edge hv⟩

theorem Path.lt_size (h : a.IsClosed) {p q : Nat} (hpath : a.Path p w q) (hp : p < a.size) : q < a.size := by
  induction hpath with
  | refl p => exact hp
  | silent edge _ ih | consume edge _ ih => exact ih (h.target_lt edge)

/-- **What can be read can be completed**, if every state leads to the accepting one. -/
theorem viable_iff_readable (h : a.IsClosed) (hreach : ∀ id < a.size, a.Reaches id a.accept) (u : List Char) :
    a.Viable u ↔ a.Readable u := by
  constructor
  · rintro ⟨v, hv⟩
    exact Classical.byContradiction fun hnot => not_accepts_of_not_readable hnot v ((accepts?_eq_true_iff h).1 hv)
  · rintro ⟨q, hq⟩
    obtain ⟨v, hv⟩ := exists_path_of_reaches (hreach q (hq.lt_size h h.start_lt))
    exact ⟨v, (accepts?_eq_true_iff h).2 (hq.append hv)⟩

/-! ## The readings of a run -/

theorem Notes.eq_nil {readings : List Reading} (h : a.Notes [] 0 readings) : readings = [] := by
  cases readings with
  | nil => rfl
  | cons r readings => cases (h.isReading 0 r rfl).char_eq

/-- The readings of a word that is not empty end at the last position that has to be read. -/
theorem Notes.isLastRead {readings : List Reading} (h : a.Notes w 0 readings)
    (hviable : ∀ u, a.Viable u ↔ a.Readable u) (hne : w ≠ []) : ∃ m, a.IsLastRead w m ∧ readings.length = m + 1 := by
  have hpos : 0 < readings.length := by
    rcases h.stops with hend | ⟨hpos, -⟩
    · rw [Nat.zero_add] at hend
      rw [hend]
      exact List.length_pos_iff.2 hne
    · exact hpos
  obtain ⟨m, hm⟩ : ∃ m, readings.length = m + 1 := ⟨_, (Nat.sub_add_cancel hpos).symm⟩
  obtain ⟨r, hr⟩ : ∃ r, readings[m]? = some r := ⟨_, List.getElem?_eq_getElem (by omega)⟩
  have hlt : m < w.length := by
    have := (List.getElem?_eq_some_iff.1 (h.isReading m r hr).char_eq).1
    omega
  have hbefore : ∀ i < m, a.Viable (w.take (i + 1)) := fun i hi => by
    have := h.readable i (by omega)
    rw [Nat.zero_add] at this
    exact (hviable _).2 this
  refine ⟨m, ?_, hm⟩
  by_cases hlast : a.Viable (w.take (m + 1))
  · -- the run has not stopped early, so the whole word has been read
    have hend : m + 1 = w.length := by
      rcases h.stops with hend | ⟨-, hnot⟩
      · omega
      · rw [Nat.zero_add, hm] at hnot
        exact absurd ((hviable _).1 hlast) hnot
    refine .inr ⟨fun i hi => ?_, hend⟩
    rcases Nat.lt_or_eq_of_le (Nat.le_of_lt_succ (hend ▸ hi)) with hi | rfl
    · exact hbefore i hi
    · exact hlast
  · exact .inl ⟨hlt, hlast, hbefore⟩

/-- A reading of a word is recorded in detail, with the character read, its position and the number of active states. -/
theorem IsReading.record_eq {i : Nat} {r : Reading} (h : a.IsReading w i r) :
    r.record = ⟨.trace, .simulation, "after '".toList ++ r.char :: "' at ".toList ++ decimal i ++ ": ".toList ++
      decimal r.active ++ " active state(s)".toList⟩ := by
  rw [← h.position_eq]
  rfl

/-- **A run on a built automaton reads a word up to the first character that rules out every accepted word**, or to its
end, and notes each character on the way, with the number of states that the word up to there can lead to.  What it
puts on record is one line for each of these readings, in order and in detail, which has the character, its position and
that number in its text; and the line tells the reading. -/
theorem notes_of_build {limit : Option Nat} {ts : List Token} (h : Construction.build limit ts = .ok a)
    (w : List Char) : ∃ readings verdict, a.run w = some (readings, verdict) ∧
      (∀ i r, readings[i]? = some r → a.IsReading w i r ∧
        (readings.map Reading.record)[i]? = some ⟨.trace, .simulation, "after '".toList ++ r.char :: "' at ".toList ++
          decimal i ++ ": ".toList ++ decimal r.active ++ " active state(s)".toList⟩) ∧
      (∀ r r' : Reading, r.record = r'.record → r = r') ∧ (w = [] → readings = []) ∧
        (w ≠ [] → ∃ m, a.IsLastRead w m ∧ readings.length = m + 1) := by
  obtain ⟨e, -, rfl⟩ := Construction.exists_expr_of_build h
  have hclosed := isClosed_automaton e
  have hviable := viable_iff_readable hclosed (hasShape_automaton e).reaches_accept
  obtain ⟨readings, verdict, hrun, -, hnotes⟩ := run_of_isClosed hclosed w
  refine ⟨readings, verdict, hrun, fun i r hr => ?_, fun _ _ => Reading.record_injective, fun hnil => ?_,
    hnotes.isLastRead hviable⟩
  · have hreading := hnotes.isReading i r hr
    rw [Nat.zero_add] at hreading
    exact ⟨hreading, by rw [List.getElem?_map, hr, Option.map_some, hreading.record_eq]⟩
  · rw [hnil] at hnotes
    exact hnotes.eq_nil

theorem notes_of_build_ruled_out : ∃ a,
    Construction.build none [.literal 'a', .literal 'b', .connective .concat] = .ok a ∧
    a.run ['a', 'x', 'b'] = some ([⟨'a', 0, 2⟩, ⟨'x', 1, 0⟩], false) ∧ a.IsReading ['a', 'x', 'b'] 0 ⟨'a', 0, 2⟩ ∧
      a.IsLastRead ['a', 'x', 'b'] 1 ∧
      ([⟨'a', 0, 2⟩, ⟨'x', 1, 0⟩] : List Reading).map Reading.record =
        [⟨.trace, .simulation, "after 'a' at 0: 2 active state(s)".toList⟩,
          ⟨.trace, .simulation, "after 'x' at 1: 0 active state(s)".toList⟩] := by
  have h : Construction.build none [.literal 'a', .literal 'b', .connective .concat] =
      .ok ⟨#[.silent [3], .consuming 'a' 0, .silent [], .consuming 'b' 2], 1, 2⟩ := rfl
  have hrun : run ⟨#[.silent [3], .consuming 'a' 0, .silent [], .consuming 'b' 2], 1, 2⟩ ['a', 'x', 'b'] =
      some ([⟨'a', 0, 2⟩, ⟨'x', 1, 0⟩], false) := by cbv
  obtain ⟨readings, verdict, hrun', hreadings, -, -, hlast⟩ := notes_of_build h ['a', 'x', 'b']
  rw [hrun] at hrun'
  cases hrun'
  obtain ⟨m, hm, hlength⟩ := hlast (List.cons_ne_nil _ _)
  cases hlength
  obtain ⟨hfirst, hline⟩ := hreadings 0 _ rfl
  obtain ⟨-, hline'⟩ := hreadings 1 _ rfl
  refine ⟨_, h, hrun, hfirst, hm, ?_⟩
  rw [List.map_cons, List.map_singleton, Option.some.inj hline, Option.some.inj hline']
  decide

end Automaton
end Regular
