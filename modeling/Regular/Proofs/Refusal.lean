import Mathlib.Data.Nat.Find
import Regular.Pattern.Parentheses
import Regular.Proofs.Outcome
import Regular.Proofs.Reader
/-!
# Refusal — which infix texts are refused, and where

Whether a character is refused depends on the text before it alone: on its last character, which tells if an operand has
to start, and on its unclosed parentheses, which are the groups that wait in the reader whatever operators wait between
them (`Reader.Reflects`).  So the first position with a fault is where the reader stops (`readInfix_of_faultAt`), and if
there is none the last unclosed parenthesis is reported (`readInfix_of_faultFree`).
-/
namespace Regular
namespace Pattern

/-! ## Faults of a text -/

/-- After the text an operand has to start: it is empty, or its last character is `(`, `.` or `|`. -/
def ExpectsOperand (before : List Char) : Prop := ∀ c ∈ before.getLast?, c ∈ ['(', '.', '|']

/-- What is wrong with the character at a position, as far as the text before it tells: it is a `)` and no group is
open, or it is the sign of an operator, one of `.`, `|`, `?`, `+` and `*` (`Token.exists_operator_iff`), and an operand
has to start. -/
inductive FaultAt (s : List Char) (p : Nat) : PatternError → Prop where
  | noGroup (hc : s[p]? = some ')') (h : ∀ i, ¬Unclosed (s.take p) i) : FaultAt s p (.unmatchedParenthesis p)
  | noLeft {op : Token} (hop : op.isOperator = true) (hc : s[p]? = some op.char) (h : ExpectsOperand (s.take p)) :
      FaultAt s p (.noLeftOperand op p)

/-- No character of the text is wrong where it stands. -/
def FaultFree (s : List Char) : Prop := ∀ p fault, ¬FaultAt s p fault

/-- What infix text is refused for: the first character that is wrong where it stands or, if there is none, the last
parenthesis that is not closed. -/
inductive HasInfixFault (s : List Char) : PatternError → Prop where
  | first {p : Nat} {fault : PatternError} (h : FaultAt s p fault) (before : ∀ q < p, ∀ f, ¬FaultAt s q f) :
      HasInfixFault s fault
  | unclosed {i : Nat} (free : FaultFree s) (h : Unclosed s i) (last : ∀ j, Unclosed s j → j ≤ i) :
      HasInfixFault s (.unmatchedParenthesis i)

/-- Infix text is refused for nothing but a parenthesis and an operator without a left operand. -/
theorem HasInfixFault.unmatched_or_noLeft {s : List Char} {fault : PatternError} (h : HasInfixFault s fault) :
    (∃ p, fault = .unmatchedParenthesis p) ∨ ∃ op p, fault = .noLeftOperand op p := by
  cases h with
  | first hfault _ =>
    cases hfault with
    | noGroup _ _ => exact .inl ⟨_, rfl⟩
    | noLeft _ _ _ => exact .inr ⟨_, _, rfl⟩
  | unclosed _ _ _ => exact .inl ⟨_, rfl⟩

/-! ## What the reader knows of the text -/

/-- The reader after a text: whether it expects an operand, and which groups are open in it. -/
structure Reader.Reflects (r : Reader) (s : List Char) : Prop where
  expects : r.expectsOperand = true ↔ ExpectsOperand s
  openGroups : OpenGroups (groups r.pending) s

theorem expectsOperand_append_singleton {s : List Char} {c : Char} :
    ExpectsOperand (s ++ [c]) ↔ c ∈ ['(', '.', '|'] := by
  simp [ExpectsOperand]

namespace Reader.Reflects
variable {r r' : Reader} {s : List Char}

theorem start : Reader.start.Reflects [] where
  expects := iff_of_true rfl (by simp [ExpectsOperand])
  openGroups := .none .nil

/-- A character between two groups leaves them as they are. -/
theorem of_groups {c : Char} (h : r.Reflects s) (hgroups : groups r'.pending = groups r.pending)
    (hc : c ≠ '(' ∧ c ≠ ')') (hexpects : r'.expectsOperand = true ↔ c ∈ ['(', '.', '|']) : r'.Reflects (s ++ [c]) where
  expects := by rw [hexpects, expectsOperand_append_singleton]
  openGroups := by
    rw [hgroups]
    exact h.openGroups.char hc

/-- **Every character that is accepted keeps what the reader knows of the text up to date.** -/
theorem step {c : Char} (h : r.Reflects s) (hstep : Reader.Step r s.length c r') : r'.Reflects (s ++ [c]) := by
  cases hstep with
  | opens => exact ⟨by simp [expectsOperand_append_singleton], h.openGroups.opens⟩
  | closes hclose =>
    obtain ⟨i, hi⟩ := groups_of_closeGroup _ hclose
    have hopen := h.openGroups
    rw [hi] at hopen
    exact ⟨by simp [expectsOperand_append_singleton], hopen.closes⟩
  | literal hc =>
    simp only [Token.reserved, List.mem_cons, List.not_mem_nil, or_false, not_or] at hc
    exact h.of_groups rfl ⟨hc.1, hc.2.1⟩ (by simp [hc])
  | quantifier q _ =>
    exact h.of_groups (groups_release _ _ _) (by cases q <;> decide) (by cases q <;> simp [Quantifier.char])
  | connective k _ =>
    exact h.of_groups (groups_release _ _ _) (by cases k <;> decide) (by cases k <;> simp [Connective.char])

/-- **The reader refuses a character exactly for the faults that it has where it stands.** -/
theorem step_eq_error_iff {p : Nat} {c : Char} (h : r.Reflects (s.take p)) (hc : s[p]? = some c)
    {fault : PatternError} : r.step p c = .error fault ↔ FaultAt s p fault := by
  rw [Reader.step_eq_error_iff]
  constructor
  · rintro (⟨rfl, hnil, rfl⟩ | ⟨op, hop, rfl, hexpects, rfl⟩)
    · exact .noGroup hc (h.openGroups.eq_nil_iff.1 hnil)
    · exact .noLeft hop hc (h.expects.1 hexpects)
  · rintro (⟨hc', hnone⟩ | ⟨hop, hc', hexpects⟩)
    · rw [hc] at hc'
      exact .inl ⟨Option.some.inj hc', h.openGroups.eq_nil_iff.2 hnone, rfl⟩
    · rw [hc] at hc'
      exact .inr ⟨_, hop, Option.some.inj hc', h.expects.2 hexpects, rfl⟩

end Reader.Reflects

/-! ## The whole text -/

/-- **Up to a position before which nothing is wrong the reader gets**, and knows the text up to there. -/
theorem exists_reader_of_no_fault {s : List Char} : ∀ {p : Nat}, p ≤ s.length → (∀ q < p, ∀ f, ¬FaultAt s q f) →
    ∃ r, Reader.start.run 0 (s.take p) = .ok r ∧ r.Reflects (s.take p)
  | 0, _, _ => ⟨Reader.start, rfl, .start⟩
  | p + 1, hp, hfree => by
    obtain ⟨r, hrun, hreflects⟩ :=
      exists_reader_of_no_fault (Nat.le_of_lt hp) fun q hq => hfree q (Nat.lt_succ_of_lt hq)
    have hc : s[p]? = some s[p] := List.getElem?_eq_getElem hp
    have hlength : (s.take p).length = p := List.length_take_of_le (Nat.le_of_lt hp)
    have hnext := Reader.run_append_singleton hrun s[p]
    rw [hlength, Nat.zero_add, ← List.take_succ_eq_append_getElem hp] at hnext
    cases hstep : r.step p s[p] with
    | error f => exact absurd ((hreflects.step_eq_error_iff hc).1 hstep) (hfree p (Nat.lt_succ_self p) f)
    | ok r' =>
      have hreflects' : r'.Reflects (s.take p ++ [s[p]]) :=
        hreflects.step (by rw [hlength]; exact Reader.step_cases hstep)
      rw [← List.take_succ_eq_append_getElem hp] at hreflects'
      exact ⟨r', hnext.trans hstep, hreflects'⟩

theorem FaultAt.lt_length {s : List Char} {p : Nat} {fault : PatternError} (h : FaultAt s p fault) : p < s.length := by
  cases h with
  | noGroup hc => exact (List.getElem?_eq_some_iff.1 hc).1
  | noLeft _ hc => exact (List.getElem?_eq_some_iff.1 hc).1

/-- **The first character that is wrong where it stands is what the text is refused for.** -/
theorem readInfix_of_faultAt {s : List Char} {p : Nat} {fault : PatternError} (h : FaultAt s p fault)
    (hfree : ∀ q < p, ∀ f, ¬FaultAt s q f) : readInfix s = .error fault := by
  have hp := h.lt_length
  obtain ⟨r, hrun, hreflects⟩ := exists_reader_of_no_fault (Nat.le_of_lt hp) hfree
  have hstep := (hreflects.step_eq_error_iff (List.getElem?_eq_getElem hp)).2 h
  have hnext := Reader.run_append_singleton hrun s[p]
  rw [List.length_take_of_le (Nat.le_of_lt hp), Nat.zero_add, ← List.take_succ_eq_append_getElem hp, hstep] at hnext
  have hall := Reader.run_append Reader.start 0 (s.take (p + 1)) (s.drop (p + 1))
  rw [hnext, List.take_append_drop] at hall
  rw [readInfix, hall]
  rfl

theorem exists_reader_of_faultFree {s : List Char} (h : FaultFree s) :
    ∃ r, Reader.start.run 0 s = .ok r ∧ r.Reflects s := by
  have hall := exists_reader_of_no_fault (Nat.le_refl s.length) fun q _ => h q
  rwa [List.take_length] at hall

/-- **A text in which no character is wrong where it stands** is refused for its last unclosed parenthesis, or not at
all. -/
theorem readInfix_of_faultFree {s : List Char} (h : FaultFree s) : ((∀ i, ¬Unclosed s i) ∧ ∃ ts, readInfix s = .ok ts) ∨
    ∃ i, Unclosed s i ∧ (∀ j, Unclosed s j → j ≤ i) ∧ readInfix s = .error (.unmatchedParenthesis i) := by
  obtain ⟨r, hrun, -, hopen⟩ := exists_reader_of_faultFree h
  rw [readInfix, hrun]
  simp only
  cases hgroups : groups r.pending with
  | nil =>
    obtain ⟨out, hout⟩ := drain_of_groups_nil r.pending r.emitted hgroups
    rw [hgroups] at hopen
    rw [hout]
    exact .inl ⟨hopen.eq_nil_iff.1 rfl, _, rfl⟩
  | cons i outer =>
    rw [hgroups] at hopen
    rw [drain_of_groups_cons r.pending r.emitted hgroups]
    exact .inr ⟨i, hopen.last.1, hopen.last.2, rfl⟩

theorem readInfix_of_hasInfixFault {s : List Char} {fault : PatternError} (h : HasInfixFault s fault) :
    readInfix s = .error fault := by
  cases h with
  | first hfault hbefore => exact readInfix_of_faultAt hfault hbefore
  | unclosed hfree hi hlast =>
    rcases readInfix_of_faultFree hfree with ⟨hnone, -⟩ | ⟨j, hj, hlast', hread⟩
    · exact absurd hi (hnone _)
    · rw [hread, Nat.le_antisymm (hlast _ hj) (hlast' _ hi)]

theorem exists_first_fault {s : List Char} (h : ¬FaultFree s) :
    ∃ p fault, FaultAt s p fault ∧ ∀ q < p, ∀ f, ¬FaultAt s q f := by
  classical
  have hsome : ∃ p fault, FaultAt s p fault := by
    simpa only [FaultFree, not_forall, Classical.not_not] using h
  obtain ⟨fault, hfault⟩ := Nat.find_spec hsome
  exact ⟨Nat.find hsome, fault, hfault, fun q hq f hf => Nat.find_min hsome hq ⟨f, hf⟩⟩

/-- **A text has a fault or is read**; it is never both. -/
theorem readInfix_cases (s : List Char) : (∃ fault, HasInfixFault s fault) ∨
    FaultFree s ∧ (∀ i, ¬Unclosed s i) ∧ ∃ ts, readInfix s = .ok ts := by
  by_cases hfree : FaultFree s
  · rcases readInfix_of_faultFree hfree with hread | ⟨i, hi, hlast, -⟩
    · exact .inr ⟨hfree, hread⟩
    · exact .inl ⟨_, .unclosed hfree hi hlast⟩
  · obtain ⟨p, fault, hfault, hbefore⟩ := exists_first_fault hfree
    exact .inl ⟨fault, .first hfault hbefore⟩

theorem readInfix_eq_error_iff {s : List Char} {fault : PatternError} :
    readInfix s = .error fault ↔ HasInfixFault s fault := by
  refine ⟨fun h => ?_, readInfix_of_hasInfixFault⟩
  rcases readInfix_cases s with ⟨f, hf⟩ | ⟨-, -, ts, hts⟩
  · rw [readInfix_of_hasInfixFault hf] at h
    cases h
    exact hf
  · rw [hts] at h
    cases h

theorem exists_readInfix_iff {s : List Char} :
    (∃ ts, readInfix s = .ok ts) ↔ FaultFree s ∧ ∀ i, ¬Unclosed s i := by
  constructor
  · rintro ⟨ts, hts⟩
    rcases readInfix_cases s with ⟨f, hf⟩ | ⟨hfree, hnone, -⟩
    · rw [readInfix_of_hasInfixFault hf] at hts
      cases hts
    · exact ⟨hfree, hnone⟩
  · rintro ⟨hfree, hnone⟩
    rcases readInfix_of_faultFree hfree with ⟨-, hread⟩ | ⟨i, hi, -⟩
    · exact hread
    · exact absurd hi (hnone i)

/-! ## Texts without any token -/

/-- Matched parentheses alone change nothing but whether an operand is expected. -/
theorem Reader.run_of_matched {s : List Char} (h : Matched s) : (∀ c ∈ s, c = '(' ∨ c = ')') →
    ∀ (emitted : List Token) (pending : List Pending) (b : Bool) (position : Nat),
      ∃ b', Reader.run ⟨emitted, pending, b⟩ position s = .ok ⟨emitted, pending, b'⟩ := by
  induction h with
  | nil => exact fun _ emitted pending b position => ⟨b, rfl⟩
  | @char s c _ hc _ =>
    intro hall
    rcases hall c (by simp) with rfl | rfl
    · exact absurd rfl hc.1
    · exact absurd rfl hc.2
  | @group s t _ _ ih ih' =>
    intro hall emitted pending b position
    obtain ⟨b₁, h₁⟩ := ih (fun c hc => hall c (by simp [hc])) emitted pending b position
    obtain ⟨b₂, h₂⟩ := ih' (fun c hc => hall c (by simp [hc])) emitted (.group (position + s.length) :: pending) true
      (position + s.length + 1)
    -- what is inside the group leaves it on top of what waits, so the `)` finds it there and takes just it off
    refine ⟨false, ?_⟩
    rw [Reader.run_append, h₁]
    show Reader.run _ _ ('(' :: (t ++ [')'])) = _
    rw [Reader.run]
    show Reader.run ⟨emitted, .group (position + s.length) :: pending, true⟩ _ (t ++ [')']) = _
    rw [Reader.run_append_singleton h₂]
    rfl

/-- **A text without tokens is read exactly when its parentheses are matched.** -/
theorem readInfix_eq_nil_iff {s : List Char} :
    readInfix s = .ok [] ↔ Matched s ∧ ∀ c ∈ s, c = '(' ∨ c = ')' := by
  constructor
  · intro h
    obtain ⟨hfree, hnone⟩ := exists_readInfix_iff.1 ⟨[], h⟩
    refine ⟨?_, fun c hc => Token.ofChar?_eq_none_iff.1 ?_⟩
    · obtain ⟨r, -, -, hopen⟩ := exists_reader_of_faultFree hfree
      rw [hopen.eq_nil_iff.2 hnone] at hopen
      cases hopen with
      | none h => exact h
    · exact List.filterMap_eq_nil_iff.1 (readInfix_perm h).symm.eq_nil c hc
  · rintro ⟨hmatched, hall⟩
    obtain ⟨b, hrun⟩ := Reader.run_of_matched hmatched hall [] [] true 0
    rw [readInfix, Reader.start, hrun]
    rfl

/-- What is said of infix text is a fault of the text, or what is said of its tokens. -/
theorem compile_inInfix_cases (limit : Option Nat) (s : List Char) :
    (∃ fault, HasInfixFault s fault ∧ (Pattern.inInfix s).compile limit = .error fault) ∨
      ∃ ts, readInfix s = .ok ts ∧ (Pattern.inInfix s).compile limit = Construction.build limit ts := by
  rw [compile, tokens]
  cases hread : readInfix s with
  | error fault => exact .inl ⟨fault, readInfix_eq_error_iff.1 hread, rfl⟩
  | ok ts => exact .inr ⟨ts, rfl, rfl⟩

theorem compile_eq_emptyPattern_iff {s : List Char} :
    (Pattern.inInfix s).compile none = .error .emptyPattern ↔ readInfix s = .ok [] := by
  rcases compile_inInfix_cases none s with ⟨fault, hfault, h⟩ | ⟨ts, hts, h⟩
  · rw [h, readInfix_of_hasInfixFault hfault]
    refine ⟨fun heq => ?_, nofun⟩
    rcases hfault.unmatched_or_noLeft with ⟨p, rfl⟩ | ⟨op, p, rfl⟩ <;> cases heq
  · rw [h, hts, Construction.build_eq_error_iff, Except.ok.injEq]
    rfl

theorem compile_ne_strayParenthesis (limit : Option Nat) (s : List Char) (c : Char) (p : Nat) :
    (Pattern.inInfix s).compile limit ≠ .error (.strayParenthesis c p) := by
  rcases compile_inInfix_cases limit s with ⟨fault, hfault, h⟩ | ⟨ts, -, h⟩
  · rw [h]
    rcases hfault.unmatched_or_noLeft with ⟨p, rfl⟩ | ⟨op, p, rfl⟩ <;> exact nofun
  · rw [h]
    rcases Construction.build_eq_or_tooManyStates limit ts with h | ⟨most, -, h⟩
    · rw [h]
      exact fun hfault => Construction.build_eq_error_iff.1 hfault
    · rw [h]
      nofun

/-- **What comes of infix text.**  It is refused exactly for the faults given here: the first character that is wrong
where it stands, a `)` with no group open or an operator where an operand has to start, or else the last parenthesis
that is not closed; and it is read if there is no fault.  So no parenthesis of it is ever taken for a token, and it has
nothing to compile exactly if it consists of matched parentheses alone. -/
theorem outcome_of_readInfix (s : List Char) :
    (∀ fault, readInfix s = .error fault ↔ HasInfixFault s fault) ∧
      ((∃ ts, readInfix s = .ok ts) ↔ FaultFree s ∧ ∀ i, ¬Unclosed s i) ∧
        (∀ c p, readInfix s ≠ .error (.strayParenthesis c p)) ∧
          (∀ limit c p, (Pattern.inInfix s).compile limit ≠ .error (.strayParenthesis c p)) ∧
            ((Pattern.inInfix s).compile none = .error .emptyPattern ↔
              Matched s ∧ ∀ c ∈ s, c = '(' ∨ c = ')') := by
  refine ⟨fun fault => readInfix_eq_error_iff, exists_readInfix_iff, fun c p h => ?_,
    fun limit => compile_ne_strayParenthesis limit s, compile_eq_emptyPattern_iff.trans readInfix_eq_nil_iff⟩
  rcases (readInfix_eq_error_iff.1 h).unmatched_or_noLeft with ⟨q, hq⟩ | ⟨op, q, hq⟩ <;> cases hq

/-- A group that stays open is reported only if nothing else is wrong. -/
example : readInfix ['(', 'a', '|', '?', ')', ')'] = .error (.noLeftOperand (.quantifier .optional) 3) ∧
    readInfix ['(', '(', 'a', ')', '(', 'b'] = .error (.unmatchedParenthesis 4) := ⟨rfl, rfl⟩

end Pattern
end Regular
