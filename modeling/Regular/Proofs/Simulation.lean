import Regular.Automaton.Simulation
import Regular.Proofs.Closure
/-!
# Simulation — a run decides what paths say

After each character the active states are those that some path with the characters so far leads to (`Tracks`): they
are at the start (`initial_of_isClosed`), and every character keeps it so (`Tracks.advance`).  Hence the run's verdict
is whether a path spells the word (`accepts?_of_isClosed`), and what it notes of a character is how many states the word
up to there can lead to (`run_of_isClosed`).
-/
namespace Regular
namespace Automaton

variable {a : Automaton}

theorem mem_targets {c : Char} {p q : Nat} : q ∈ a.targets c p ↔ a.HasEdge p (some c) q := by
  unfold targets HasEdge
  cases a.state? p with
  | none => simp
  | some s => by_cases hs : s.label = some c <;> simp [hs]

theorem advance_of_isClosed (h : a.IsClosed) (active : List Nat) (c : Char) : ∃ next, a.advance active c = some next ∧
    ∀ q, q ∈ next ↔ ∃ p ∈ active, ∃ p', a.HasEdge p (some c) p' ∧ a.Drift p' q := by
  have hids : ∀ id ∈ active.flatMap (a.targets c), id < a.size := fun id hid => by
    obtain ⟨p, -, hp⟩ := List.mem_flatMap.1 hid
    exact h.target_lt (mem_targets.1 hp)
  obtain ⟨next, hnext, hmem⟩ := closure_of_lt h.target_lt hids
  refine ⟨next, hnext, fun q => ?_⟩
  rw [hmem]
  constructor
  · rintro ⟨p', hp', hd⟩
    obtain ⟨p, hp, hedge⟩ := List.mem_flatMap.1 hp'
    exact ⟨p, hp, p', mem_targets.1 hedge, hd⟩
  · rintro ⟨p, hp, p', hedge, hd⟩
    exact ⟨p', List.mem_flatMap.2 ⟨p, hp, mem_targets.2 hedge⟩, hd⟩

/-! ## The active states -/

/-- The states, each listed once, that the word can lead to from the start. -/
structure Tracks (a : Automaton) (u : List Char) (active : List Nat) : Prop where
  nodup : active.Nodup
  mem_iff : ∀ q, q ∈ active ↔ a.Path a.start u q

/-- Some path from the start spells the word. -/
def Readable (a : Automaton) (u : List Char) : Prop := ∃ q, a.Path a.start u q

theorem nodup_of_closure {ids out : List Nat} (h : a.closure ids = some out) : out.Nodup :=
  (pairwise_of_closure h).imp Nat.ne_of_lt

theorem initial_of_isClosed (h : a.IsClosed) : ∃ active, a.initial = some active ∧ a.Tracks [] active := by
  have hstart : ∀ id ∈ [a.start], id < a.size := fun id hid => by
    rw [List.mem_singleton.1 hid]
    exact h.start_lt
  obtain ⟨active, hactive, hmem⟩ := closure_of_lt h.target_lt hstart
  refine ⟨active, hactive, nodup_of_closure hactive, fun q => ?_⟩
  rw [hmem, path_nil_iff]
  simp only [List.mem_singleton, exists_eq_left]

namespace Tracks
variable {u : List Char} {active : List Nat}

/-- **One more character leads from the states of a word to those of the longer word.** -/
theorem advance (h : a.IsClosed) (ht : a.Tracks u active) (c : Char) :
    ∃ next, a.advance active c = some next ∧ a.Tracks (u ++ [c]) next := by
  obtain ⟨next, hnext, hmem⟩ := advance_of_isClosed h active c
  refine ⟨next, hnext, nodup_of_closure hnext, fun q => ?_⟩
  rw [hmem, path_snoc_iff]
  constructor
  · rintro ⟨p, hp, p', hedge, hd⟩
    exact ⟨p, p', (ht.mem_iff p).1 hp, hedge, hd⟩
  · rintro ⟨p, p', hp, hedge, hd⟩
    exact ⟨p, (ht.mem_iff p).2 hp, p', hedge, hd⟩

theorem contains_accept (ht : a.Tracks u active) : active.contains a.accept = true ↔ a.Accepts u := by
  rw [List.contains_iff_mem, ht.mem_iff]
  rfl

theorem eq_nil_iff (ht : a.Tracks u active) : active = [] ↔ ¬a.Readable u := by
  rw [List.eq_nil_iff_forall_not_mem, Readable, not_exists]
  exact forall_congr' fun q => not_congr (ht.mem_iff q)

end Tracks

/-- No word that begins with an unreadable one is accepted. -/
theorem not_accepts_of_not_readable {u : List Char} (h : ¬a.Readable u) (v : List Char) : ¬a.Accepts (u ++ v) := by
  intro hpath
  obtain ⟨q, hq, -⟩ := Path.split hpath
  exact h ⟨q, hq⟩

/-! ## The run -/

/-- The reading of a position of a word: the character there, and how many states the word up to there can lead to. -/
structure IsReading (a : Automaton) (w : List Char) (i : Nat) (r : Reading) : Prop where
  char_eq : w[i]? = some r.char
  position_eq : r.position = i
  active_eq : ∃ active, a.Tracks (w.take (i + 1)) active ∧ active.length = r.active

/-- What a run notes of a word from a position on: a reading of each character, up to the last one or to one after which
the word is no longer readable. -/
structure Notes (a : Automaton) (w : List Char) (first : Nat) (readings : List Reading) : Prop where
  isReading : ∀ i r, readings[i]? = some r → a.IsReading w (first + i) r
  readable : ∀ i, i + 1 < readings.length → a.Readable (w.take (first + i + 1))
  stops : first + readings.length = w.length ∨
    0 < readings.length ∧ ¬a.Readable (w.take (first + readings.length))

section Notes
variable {u cs : List Char} {c : Char} {next : List Nat}

theorem take_length_succ (u cs : List Char) (c : Char) : (u ++ c :: cs).take (u.length + 1) = u ++ [c] := by
  rw [List.take_length_add_append]
  rfl

theorem isReading_of_tracks (ht : a.Tracks (u ++ [c]) next) (cs : List Char) :
    a.IsReading (u ++ c :: cs) u.length ⟨c, u.length, next.length⟩ where
  char_eq := by simp
  position_eq := rfl
  active_eq := ⟨next, by rwa [take_length_succ], rfl⟩

theorem notes_of_stop (ht : a.Tracks (u ++ [c]) next) (hnext : next = []) (cs : List Char) :
    a.Notes (u ++ c :: cs) u.length [⟨c, u.length, next.length⟩] where
  isReading i r hr := by
    match i, hr with
    | 0, rfl => exact isReading_of_tracks ht cs
  readable i hi := absurd hi (by simp)
  stops := by
    refine .inr ⟨Nat.one_pos, ?_⟩
    rw [List.length_singleton, take_length_succ]
    exact ht.eq_nil_iff.1 hnext

theorem Notes.cons {readings : List Reading} (ht : a.Tracks (u ++ [c]) next) (hnext : next ≠ [])
    (h : a.Notes (u ++ c :: cs) (u.length + 1) readings) :
    a.Notes (u ++ c :: cs) u.length (⟨c, u.length, next.length⟩ :: readings) where
  isReading i r hr := by
    match i, hr with
    | 0, rfl => exact isReading_of_tracks ht cs
    | i + 1, hr =>
      rw [← Nat.add_assoc, Nat.add_right_comm]
      exact h.isReading i r hr
  readable i hi := by
    match i, hi with
    | 0, _ =>
      rw [Nat.add_zero, take_length_succ]
      exact Classical.not_not.1 (mt ht.eq_nil_iff.2 hnext)
    | i + 1, hi =>
      rw [← Nat.add_assoc, Nat.add_right_comm u.length i 1]
      exact h.readable i (Nat.lt_of_succ_lt_succ hi)
  stops := by
    rw [List.length_cons, ← Nat.add_assoc, Nat.add_right_comm]
    exact h.stops.imp_right fun hstop => ⟨Nat.succ_pos _, hstop.2⟩

end Notes

/-- **A run from the states of a word** ends with the verdict whether the word and the rest are accepted together, and
notes the rest. -/
theorem runFrom_of_tracks (h : a.IsClosed) : ∀ (cs : List Char) {u : List Char} {active : List Nat},
    a.Tracks u active → ∃ readings verdict, a.runFrom active u.length cs = some (readings, verdict) ∧
      (verdict = true ↔ a.Accepts (u ++ cs)) ∧ a.Notes (u ++ cs) u.length readings
  | [], u, active, ht => by
    rw [List.append_nil]
    exact ⟨[], _, rfl, ht.contains_accept, nofun, nofun, .inl rfl⟩
  | c :: cs, u, active, ht => by
    obtain ⟨next, hnext, ht'⟩ := ht.advance h c
    rw [runFrom, hnext]
    simp only
    split
    · rename_i hempty
      have hnil : next = [] := List.isEmpty_iff.1 hempty
      have hnot := not_accepts_of_not_readable (ht'.eq_nil_iff.1 hnil) cs
      rw [List.append_assoc] at hnot
      exact ⟨_, false, rfl, ⟨nofun, fun haccepts => absurd haccepts hnot⟩, notes_of_stop ht' hnil cs⟩
    · rename_i hempty
      obtain ⟨readings, verdict, hrun, hverdict, hnotes⟩ := runFrom_of_tracks h cs ht'
      rw [List.append_assoc, List.length_append] at hnotes
      rw [List.append_assoc] at hverdict
      rw [List.length_append] at hrun
      have hrun' : a.runFrom next (u.length + 1) cs = some (readings, verdict) := hrun
      rw [hrun']
      exact ⟨_, verdict, rfl, hverdict, hnotes.cons ht' fun hnil => hempty (List.isEmpty_iff.2 hnil)⟩

/-- **A run on an automaton without dangling edges** ends with the verdict whether the word is accepted, and notes the
word. -/
theorem run_of_isClosed (h : a.IsClosed) (w : List Char) : ∃ readings verdict, a.run w = some (readings, verdict) ∧
    (verdict = true ↔ a.Accepts w) ∧ a.Notes w 0 readings := by
  obtain ⟨active, hactive, ht⟩ := initial_of_isClosed h
  rw [run, hactive]
  exact runFrom_of_tracks h w ht

theorem accepts?_of_isClosed (h : a.IsClosed) (w : List Char) :
    ∃ verdict, a.accepts? w = some verdict ∧ (verdict = true ↔ a.Accepts w) := by
  obtain ⟨readings, verdict, hrun, hverdict, -⟩ := run_of_isClosed h w
  exact ⟨verdict, by rw [accepts?, hrun]; rfl, hverdict⟩

theorem accepts?_eq_true_iff (h : a.IsClosed) {w : List Char} : a.accepts? w = some true ↔ a.Accepts w := by
  obtain ⟨verdict, hverdict, hiff⟩ := accepts?_of_isClosed h w
  rw [hverdict, Option.some.injEq, hiff]

theorem accepts?_eq_false_iff (h : a.IsClosed) {w : List Char} : a.accepts? w = some false ↔ ¬a.Accepts w := by
  obtain ⟨verdict, hverdict, hiff⟩ := accepts?_of_isClosed h w
  rw [hverdict, Option.some.injEq, ← hiff, Bool.not_eq_true]

end Automaton
end Regular
