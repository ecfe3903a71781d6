import Regular.Proofs.Outcome
import Regular.Proofs.Recording
/-!
# Transcript — what is noted of a construction tells how it went

Every step either finds its operands and puts one fragment in their place, unless the states are too many, or finds too
few of them (`step_cases`).  So the number of fragments that a token finds is the count of the tokens before it, on
every run and as far as it gets (`recounts_run`).  A run gets to the first token that its step refuses, which is still
noted, or to the last one (`extent_run`).  What a step says of missing operands is what was noted just before it, so the
last note of a run that ends for want of operands has the position and the number that the error names.  On record all
this stands as text, one line for each note (`map_record_transcript`).
-/
namespace Regular

open Text

namespace Construction

variable {limit : Option Nat} {position : Nat} {t : Token} {k k' : Construction} {fault : PatternError}

/-! ## One step -/

/-- The error is that one more state would be over the limit. -/
def OverLimit (limit : Option Nat) (fault : PatternError) : Prop :=
  ∃ most, limit = some most ∧ fault = .tooManyStates most

theorem addState_eq_error {states : Array State} {s : State} (h : addState limit states s = .error fault) :
    OverLimit limit fault := by
  unfold addState at h
  split at h
  · cases h
  · rename_i most
    split at h
    · cases h
      exact ⟨most, rfl, rfl⟩
    · cases h

theorem addPair_eq_error {states : Array State} {entry : Nat → State} (h : addPair limit states entry = .error fault) :
    OverLimit limit fault := by
  unfold addPair at h
  simp only at h
  split at h
  · rename_i e he
    cases h
    exact addState_eq_error he
  · split at h
    · rename_i e he
      cases h
      exact addState_eq_error he
    · cases h

theorem addPair_map_eq_error {α : Type} {states : Array State} {entry : Nat → State} {f : Fragment × Array State → α}
    (h : (addPair limit states entry).map f = .error fault) : OverLimit limit fault := by
  cases hpair : addPair limit states entry with
  | error e =>
    rw [hpair] at h
    cases h
    exact addPair_eq_error hpair
  | ok p =>
    rw [hpair] at h
    cases h

theorem quantify_eq_error {q : Quantifier} {f : Fragment} {states : Array State}
    (h : quantify limit q f states = .error fault) : OverLimit limit fault := by
  cases q <;> exact addPair_map_eq_error h

theorem connect_eq_error {c : Connective} {left right : Fragment} {states : Array State}
    (h : connect limit c left right states = .error fault) : OverLimit limit fault := by
  cases c with
  | concat => cases h
  | alternate => exact addPair_map_eq_error h

/-- **What a step can do**: with its operands on the stack it puts the outcome of a rule in their place, and that rule
fails for want of states only; with fewer it says how many it takes and how many there are. -/
theorem step_cases (limit : Option Nat) (position : Nat) (t : Token) (k : Construction) :
    (∃ rest result, k.stack.length = rest.length + t.arity ∧ step limit position t k = push rest result ∧
      ∀ fault, result = .error fault → OverLimit limit fault) ∨
    (k.stack.length < t.arity ∧
      step limit position t k = .error (.tooFewOperands t position t.arity k.stack.length)) := by
  obtain ⟨states, stack⟩ := k
  rcases t with c | q | c
  · exact .inl ⟨stack, _, rfl, rfl, fun _ => addPair_eq_error⟩
  · rcases stack with _ | ⟨f, rest⟩
    · exact .inr ⟨Nat.one_pos, rfl⟩
    · exact .inl ⟨rest, _, rfl, rfl, fun _ => quantify_eq_error⟩
  · rcases stack with _ | ⟨right, _ | ⟨left, rest⟩⟩
    · exact .inr ⟨Nat.two_pos, rfl⟩
    · exact .inr ⟨Nat.one_lt_two, rfl⟩
    · exact .inl ⟨rest, _, rfl, rfl, fun _ => connect_eq_error⟩

/-- **A step takes as many fragments as its token's arity says and leaves one.** -/
theorem length_stack_of_step (h : step limit position t k = .ok k') :
    (k'.stack.length : Int) = k.stack.length + (1 - t.arity) := by
  rcases step_cases limit position t k with ⟨rest, result, hlen, hpush, -⟩ | ⟨-, herror⟩
  · rw [hpush] at h
    rcases result with e | ⟨f, states⟩
    · cases h
    · cases h
      simp only [List.length_cons]
      omega
  · rw [herror] at h
    cases h

/-- **A step fails for want of operands**, of which it names as many as it found, **or for want of states.** -/
theorem step_eq_error (h : step limit position t k = .error fault) :
    fault = .tooFewOperands t position t.arity k.stack.length ∨ OverLimit limit fault := by
  rcases step_cases limit position t k with ⟨rest, result, -, hpush, hresult⟩ | ⟨-, herror⟩
  · rw [hpush] at h
    rcases result with e | ⟨f, states⟩
    · cases h
      exact .inr (hresult _ rfl)
    · cases h
  · rw [herror] at h
    cases h
    exact .inl rfl

/-! ## The whole run -/

/-- The token at an index is refused by its step, when all the tokens before it have been used. -/
def RefusedAt (limit : Option Nat) (position : Nat) (ts : List Token) (k : Construction) (i : Nat)
    (fault : PatternError) : Prop :=
  ∃ t k', ts[i]? = some t ∧ (run limit position (ts.take i) k).2 = .ok k' ∧ step limit (position + i) t k' = .error fault

/-- How many of the tokens are noted: those up to the one that is refused, or all of them if none is. -/
inductive Extent (limit : Option Nat) (position : Nat) (ts : List Token) (k : Construction) : Nat → Prop where
  | all (h : ∀ i fault, ¬RefusedAt limit position ts k i fault) : Extent limit position ts k ts.length
  | upTo {i : Nat} {fault : PatternError} (h : RefusedAt limit position ts k i fault) : Extent limit position ts k (i + 1)

/-- The notes are of the first tokens in order, each with its position, and with the number of fragments that those
before it leave in addition to the given number. -/
def Recounts (position : Nat) (ts : List Token) (height : Int) (notes : List Event) : Prop :=
  ∀ i event, notes[i]? = some event → ∃ (t : Token) (fragments : Nat), ts[i]? = some t ∧
    event = .token (position + i) t fragments ∧ (fragments : Int) = height + depth ts i

section Run
variable {ts : List Token} {i n : Nat}

theorem run_snd_cons (hstep : step limit position t k = .ok k') (us : List Token) :
    (run limit position (t :: us) k).2 = (run limit (position + 1) us k').2 := by
  rw [run, hstep]

theorem refusedAt_zero : RefusedAt limit position (t :: ts) k 0 fault ↔ step limit position t k = .error fault := by
  constructor
  · rintro ⟨_, _, ht, hrun, herror⟩
    cases ht
    cases hrun
    exact herror
  · exact fun herror => ⟨t, k, rfl, rfl, herror⟩

theorem refusedAt_succ (hstep : step limit position t k = .ok k') :
    RefusedAt limit position (t :: ts) k (i + 1) fault ↔ RefusedAt limit (position + 1) ts k' i fault := by
  unfold RefusedAt
  rw [List.take_succ_cons, run_snd_cons hstep, List.getElem?_cons_succ, Nat.add_right_comm position 1 i, Nat.add_assoc]

theorem Extent.cons (hstep : step limit position t k = .ok k') (h : Extent limit (position + 1) ts k' n) :
    Extent limit position (t :: ts) k (n + 1) := by
  cases h with
  | all h =>
    refine .all fun i fault hrefused => ?_
    cases i with
    | zero => cases hstep.symm.trans (refusedAt_zero.1 hrefused)
    | succ i => exact h i fault ((refusedAt_succ hstep).1 hrefused)
  | upTo h => exact .upTo ((refusedAt_succ hstep).2 h)

/-- **A run notes the tokens up to the one that is refused**, or all of them. -/
theorem extent_run (limit : Option Nat) : ∀ (ts : List Token) (position : Nat) (k : Construction),
    Extent limit position ts k (run limit position ts k).1.length
  | [], _, _ => .all fun _ _ ⟨_, _, ht, _⟩ => by cases ht
  | t :: ts, position, k => by
    rw [run]
    cases hstep : step limit position t k with
    | error fault => exact .upTo (refusedAt_zero.2 hstep)
    | ok k' => exact .cons hstep (extent_run limit ts (position + 1) k')

theorem recounts_nil (position : Nat) (ts : List Token) (height : Int) : Recounts position ts height [] :=
  fun _ _ hevent => by cases hevent

theorem Recounts.cons {fragments : Nat} {notes : List Event}
    (h : Recounts (position + 1) ts (fragments + (1 - t.arity)) notes) :
    Recounts position (t :: ts) fragments (.token position t fragments :: notes) := by
  intro i event hevent
  cases i with
  | zero =>
    cases hevent
    exact ⟨t, fragments, rfl, rfl, (Int.add_zero _).symm⟩
  | succ i =>
    obtain ⟨u, found, hu, hev, hfound⟩ := h i event hevent
    refine ⟨u, found, hu, by rw [hev, Nat.add_right_comm, Nat.add_assoc], ?_⟩
    rw [hfound, Int.add_assoc]
    rfl

/-- **A run notes of each token the fragments that it finds**, whose number is the count of the tokens before it. -/
theorem recounts_run (limit : Option Nat) : ∀ (ts : List Token) (position : Nat) (k : Construction),
    Recounts position ts k.stack.length (run limit position ts k).1
  | [], position, k => recounts_nil position [] k.stack.length
  | t :: ts, position, k => by
    rw [run]
    cases hstep : step limit position t k with
    | error fault => exact .cons (recounts_nil _ _ _)
    | ok k' =>
      have hnotes := recounts_run limit ts (position + 1) k'
      rw [length_stack_of_step hstep] at hnotes
      exact hnotes.cons

/-- **The stack grows by the balance of the tokens used.** -/
theorem length_stack_of_run : ∀ {ts : List Token} {position : Nat} {k : Construction},
    (run limit position ts k).2 = .ok k' → (k'.stack.length : Int) = k.stack.length + Pattern.balance ts
  | [], _, _, h => by
    cases h
    exact (Int.add_zero _).symm
  | t :: ts, position, k, h => by
    cases hstep : step limit position t k with
    | error fault =>
      rw [run, hstep] at h
      cases h
    | ok k₁ =>
      rw [run_snd_cons hstep] at h
      rw [length_stack_of_run h, length_stack_of_step hstep, Int.add_assoc]
      rfl

/-- **A run fails exactly where a token is refused**, and with the same error. -/
theorem run_eq_error_iff : ∀ {ts : List Token} {position : Nat} {k : Construction},
    (run limit position ts k).2 = .error fault ↔ ∃ i, RefusedAt limit position ts k i fault
  | [], _, _ => ⟨nofun, fun ⟨_, _, _, ht, _⟩ => by cases ht⟩
  | t :: ts, position, k => by
    cases hstep : step limit position t k with
    | error e =>
      rw [run, hstep]
      constructor
      · rintro ⟨⟩
        exact ⟨0, refusedAt_zero.2 hstep⟩
      · rintro ⟨i, h⟩
        cases i with
        | zero => exact hstep.symm.trans (refusedAt_zero.1 h)
        | succ i =>
          obtain ⟨_, _, -, hrun, -⟩ := h
          rw [List.take_succ_cons, run, hstep] at hrun
          cases hrun
    | ok k' =>
      rw [run_snd_cons hstep, run_eq_error_iff]
      constructor
      · rintro ⟨i, h⟩
        exact ⟨i + 1, (refusedAt_succ hstep).2 h⟩
      · rintro ⟨i, h⟩
        cases i with
        | zero => cases hstep.symm.trans (refusedAt_zero.1 h)
        | succ i => exact ⟨i, (refusedAt_succ hstep).1 h⟩

/-- A token that is refused for want of operands is named with its position and with the fragments that it finds. -/
theorem RefusedAt.eq_of_tooFewOperands {op : Token} {at' needed found : Nat}
    (h : RefusedAt limit position ts k i (.tooFewOperands op at' needed found)) :
    ts[i]? = some op ∧ at' = position + i ∧ (found : Int) = k.stack.length + depth ts i := by
  obtain ⟨t, k', ht, hrun, hstep⟩ := h
  rcases step_eq_error hstep with heq | ⟨_, _, hmost⟩
  · cases heq
    exact ⟨ht, rfl, length_stack_of_run hrun⟩
  · cases hmost

end Run

/-! ## The whole transcript -/

/-- What is noted after the last token: the automaton, if there is one. -/
def closing : Except PatternError Automaton → List Event
  | .error _ => []
  | .ok a => [.finished a.size a.start a.accept]

theorem transcript_fst (limit : Option Nat) (ts : List Token) :
    (transcript limit ts).1 = .begun ts.length :: ((run limit 0 ts empty).1 ++ closing (build limit ts)) := by
  rw [build_eq]
  unfold transcript
  simp only
  cases (run limit 0 ts empty).2.bind finish with
  | error fault => exact congrArg _ (List.append_nil _).symm
  | ok a => rfl

/-- The errors that one token is refused with; the others are about all the tokens together. -/
def RefusesToken : PatternError → Prop
  | .tooFewOperands _ _ _ _ | .tooManyStates _ => True
  | _ => False

theorem not_refusesToken_of_finish (h : finish k = .error fault) : ¬RefusesToken fault := by
  obtain ⟨states, stack⟩ := k
  rcases stack with _ | ⟨f, _ | ⟨g, rest⟩⟩
  · cases h
    exact id
  · cases h
  · cases h
    exact id

theorem refusesToken_of_step (h : step limit position t k = .error fault) : RefusesToken fault := by
  rcases step_eq_error h with rfl | ⟨most, -, rfl⟩
  · trivial
  · trivial

/-- **A token is refused exactly if the tokens are not built for want of operands or of states.** -/
theorem exists_refusedAt_iff {ts : List Token} :
    (∃ i, RefusedAt limit 0 ts empty i fault) ↔ build limit ts = .error fault ∧ RefusesToken fault := by
  rw [← run_eq_error_iff, build_eq]
  constructor
  · intro hrun
    obtain ⟨i, t, k', -, -, hstep⟩ := run_eq_error_iff.1 hrun
    rw [hrun]
    exact ⟨rfl, refusesToken_of_step hstep⟩
  · rintro ⟨hbuild, hrefuses⟩
    cases hrun : (run limit 0 ts empty).2 with
    | error e =>
      rw [hrun] at hbuild
      cases hbuild
      rfl
    | ok k =>
      rw [hrun] at hbuild
      exact absurd hrefuses (not_refusesToken_of_finish hbuild)

/-! ## The records -/

/-- The record of a token: in detail, its position, its character and the number of fragments that it finds. -/
def tokenRecord (position : Nat) (c : Char) (fragments : Nat) : Record :=
  ⟨.trace, .construction, "token ".toList ++ decimal position ++ " '".toList ++ c :: "', ".toList ++
    decimal fragments ++ " fragment(s) on the stack".toList⟩

/-- What is recorded after the last token: the automaton, if there is one. -/
def closingRecords : Except PatternError Automaton → List Record
  | .error _ => []
  | .ok a =>
    [⟨.debug, .construction, "compiled NFA with ".toList ++ decimal a.size ++ " states, start ".toList ++
      decimal a.start ++ ", accept ".toList ++ decimal a.accept⟩]

theorem map_record_closing : ∀ result : Except PatternError Automaton,
    (closing result).map Event.record = closingRecords result
  | .error _ => rfl
  | .ok _ => rfl

/-- **The records of a transcript** are a line with the number of tokens, those of the tokens, and one of the automaton
if there is one. -/
theorem map_record_transcript (limit : Option Nat) (ts : List Token) :
    (transcript limit ts).1.map Event.record =
      ⟨.debug, .construction, "compiling ".toList ++ decimal ts.length ++ " postfix tokens".toList⟩ ::
        ((run limit 0 ts empty).1.map Event.record ++ closingRecords (build limit ts)) := by
  rw [transcript_fst, List.map_cons, List.map_append, map_record_closing]
  rfl

/-- **The last note of a run that ends for want of operands** is of the token that lacks them, with the position and the
number of fragments that the error names. -/
theorem getLast?_run_of_tooFewOperands {ts : List Token} {op : Token} {needed found : Nat}
    (h : build limit ts = .error (.tooFewOperands op position needed found)) :
    (run limit 0 ts empty).1.getLast? = some (.token position op found) := by
  have hextent := extent_run limit ts 0 empty
  generalize hlen : (run limit 0 ts empty).1.length = n at hextent
  cases hextent with
  | all hall =>
    obtain ⟨i, hrefused⟩ := exists_refusedAt_iff.2 ⟨h, trivial⟩
    exact absurd hrefused (hall i _)
  | @upTo i _ hrefused =>
    cases h.symm.trans (exists_refusedAt_iff.1 ⟨i, hrefused⟩).1
    obtain ⟨hop, hposition, hfound⟩ := hrefused.eq_of_tooFewOperands
    have hlast := List.getElem?_eq_getElem (l := (run limit 0 ts empty).1) (i := i) (by omega)
    obtain ⟨t, fragments, ht, hevent, hfragments⟩ := recounts_run limit ts 0 empty i _ hlast
    cases hop.symm.trans ht
    obtain rfl : fragments = found := by omega
    rw [List.getLast?_eq_getElem?, hlen, Nat.add_sub_cancel, hlast, hevent, hposition]

/-- **The transcript of a construction tells how it went.**  After the number of tokens it notes the tokens in order,
each with the count of those before it as the number of fragments found, and goes on up to the token that is refused or
to the last one; a token is refused exactly if the tokens are not built for want of operands or of states.  Then it notes
the automaton, if there is one.  If operands are wanting, the last note has the position and the number of operands
found that the error names.  Each note has its line on record, the two ends at a higher level than the tokens, and the
line tells the note but for what a token is besides a character. -/
theorem transcript_recounts (limit : Option Nat) (ts : List Token) : ∃ (notes : List Event) (records : List Record),
    (transcript limit ts).1 = .begun ts.length :: (notes ++ closing (build limit ts)) ∧
    (transcript limit ts).1.map Event.record =
      ⟨.debug, .construction, "compiling ".toList ++ decimal ts.length ++ " postfix tokens".toList⟩ ::
        (records ++ closingRecords (build limit ts)) ∧
    records.length = notes.length ∧
    (∀ i < notes.length, ∃ (t : Token) (fragments : Nat), ts[i]? = some t ∧ (fragments : Int) = depth ts i ∧
      notes[i]? = some (.token i t fragments) ∧ records[i]? = some (tokenRecord i t.char fragments)) ∧
    Extent limit 0 ts empty notes.length ∧
    (∀ fault, (∃ i, RefusedAt limit 0 ts empty i fault) ↔ build limit ts = .error fault ∧ RefusesToken fault) ∧
    (∀ op position needed found, build limit ts = .error (.tooFewOperands op position needed found) →
      notes.getLast? = some (.token position op found) ∧
        records.getLast? = some (tokenRecord position op.char found)) ∧
    ∀ e e' : Event, e.record = e'.record → e.shown = e'.shown := by
  refine ⟨(run limit 0 ts empty).1, (run limit 0 ts empty).1.map Event.record, transcript_fst limit ts,
    map_record_transcript limit ts, List.length_map _, fun i hi => ?_, extent_run limit ts 0 empty,
    fun fault => exists_refusedAt_iff, fun op position needed found hbuild => ?_, fun _ _ => Event.shown_eq_of_record_eq⟩
  · have hevent := List.getElem?_eq_getElem hi
    obtain ⟨t, fragments, ht, heq, hfragments⟩ := recounts_run limit ts 0 empty i _ hevent
    rw [heq, Nat.zero_add] at hevent
    refine ⟨t, fragments, ht, hfragments.trans (Int.zero_add _), hevent, ?_⟩
    rw [List.getElem?_map, hevent]
    rfl
  · have hlast := getLast?_run_of_tooFewOperands hbuild
    refine ⟨hlast, ?_⟩
    rw [List.getLast?_map, hlast]
    rfl

theorem transcript_recounts_short : ∃ records : List Record,
    (transcript (some 4) [.literal 'a', .literal 'b', .connective .concat, .connective .alternate,
      .literal 'c']).1.map Event.record =
        ⟨.debug, .construction, "compiling 5 postfix tokens".toList⟩ :: records ∧ records.length = 4 ∧
      records[1]? = some ⟨.trace, .construction, "token 1 'b', 1 fragment(s) on the stack".toList⟩ ∧
      records.getLast? = some ⟨.trace, .construction, "token 3 '|', 1 fragment(s) on the stack".toList⟩ := by
  have hbuild : build (some 4) [.literal 'a', .literal 'b', .connective .concat, .connective .alternate, .literal 'c'] =
      .error (.tooFewOperands (.connective .alternate) 3 2 1) := rfl
  obtain ⟨notes, records, -, hrecords, hlength, htokens, -, -, hlast, -⟩ := transcript_recounts (some 4)
    [.literal 'a', .literal 'b', .connective .concat, .connective .alternate, .literal 'c']
  rw [hbuild, closingRecords, List.append_nil] at hrecords
  have hfour : records.length = 4 := congrArg (fun l => l.tail.length) hrecords.symm
  obtain ⟨t, fragments, ht, hfragments, -, hrecord⟩ := htokens 1 (by omega)
  cases ht
  obtain rfl : fragments = 1 := Int.ofNat.inj hfragments
  exact ⟨records, hrecords, hfour, hrecord, (hlast _ _ _ _ hbuild).2⟩

end Construction
end Regular
