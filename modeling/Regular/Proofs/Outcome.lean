import Mathlib.Data.List.Induction
import Mathlib.Data.Nat.Find
import Regular.Pattern.Compile
import Regular.Proofs.Balance
import Regular.Proofs.Layout
/-!
# Outcome — what comes of postfix tokens and text

Whether tokens are built, and what is said of them if not, is decided by a count: the operands that the tokens before
each position leave (`depth`).  The first token that takes more is reported with the count it found; if there is none,
the count at the end tells the rest (`build_eq_error_iff`, `exists_build_iff`).  Postfix text is read to the end first,
so a parenthesis anywhere in it comes before all of this.
-/
namespace Regular
namespace Construction

/-- How many operands the tokens before a position leave: each leaves one and takes as many as its arity says. -/
def depth (ts : List Token) (i : Nat) : Int := Pattern.balance (ts.take i)

/-- No token takes more operands than those before it leave. -/
def Supplied (ts : List Token) : Prop := ∀ i t, ts[i]? = some t → (t.arity : Int) ≤ depth ts i

/-- The token at a position takes more operands than those before it leave, and it is the first one that does. -/
structure FirstShort (ts : List Token) (i : Nat) (t : Token) : Prop where
  token : ts[i]? = some t
  short : depth ts i < t.arity
  before : ∀ j u, j < i → ts[j]? = some u → (u.arity : Int) ≤ depth ts j

/-- What is wrong with tokens that no limit on states refuses. -/
def HasFault (ts : List Token) : PatternError → Prop
  | .tooFewOperands op position needed found =>
    FirstShort ts position op ∧ needed = op.arity ∧ (found : Int) = depth ts position
  | .emptyPattern => ts = []
  | .unjoinedOperands count => Supplied ts ∧ 2 ≤ count ∧ (count : Int) = depth ts ts.length
  | .noLeftOperand _ _ | .strayParenthesis _ _ | .unmatchedParenthesis _ | .tooManyStates _ => False

theorem supplied_or_firstShort (ts : List Token) : Supplied ts ∨ ∃ i t, FirstShort ts i t := by
  classical
  by_cases h : ∃ i t, ts[i]? = some t ∧ depth ts i < t.arity
  · obtain ⟨t, ht, hshort⟩ := Nat.find_spec h
    refine .inr ⟨Nat.find h, t, ht, hshort, fun j u hj hu => ?_⟩
    exact Int.not_lt.1 fun hlt => Nat.find_min h hj ⟨u, hu, hlt⟩
  · exact .inl fun i t ht => Int.not_lt.1 fun hlt => h ⟨i, t, ht, hlt⟩

/-! ## The count and the stack -/

theorem depth_append_of_le (ts us : List Token) {i : Nat} (h : i ≤ ts.length) : depth (ts ++ us) i = depth ts i := by
  rw [depth, depth, List.take_append_of_le_length h]

theorem depth_length (ts : List Token) : depth ts ts.length = Pattern.balance ts := by
  rw [depth, List.take_length]

theorem supplied_append_singleton {ts : List Token} {t : Token} :
    Supplied (ts ++ [t]) ↔ Supplied ts ∧ (t.arity : Int) ≤ Pattern.balance ts := by
  constructor
  · intro h
    constructor
    · intro i u hu
      have hi := (List.getElem?_eq_some_iff.1 hu).1
      have := h i u (by rwa [List.getElem?_append_left hi])
      rwa [depth_append_of_le ts [t] (Nat.le_of_lt hi)] at this
    · have := h ts.length t (by simp)
      rwa [depth_append_of_le ts [t] (Nat.le_refl _), depth_length] at this
  · rintro ⟨hts, ht⟩ i u hu
    by_cases hi : i < ts.length
    · rw [List.getElem?_append_left hi] at hu
      rw [depth_append_of_le ts [t] (Nat.le_of_lt hi)]
      exact hts i u hu
    · obtain ⟨hlast, rfl⟩ : i = ts.length ∧ t = u := by
        have hlt := (List.getElem?_eq_some_iff.1 hu).1
        rw [List.length_append, List.length_singleton] at hlt
        have hlast : i = ts.length := by omega
        rw [hlast] at hu
        exact ⟨hlast, by simpa using hu⟩
      rwa [hlast, depth_append_of_le ts [t] (Nat.le_refl _), depth_length]

theorem exists_rebuild_singleton_iff {es : List Expr} {t : Token} :
    (∃ out, Expr.rebuild es [t] = some out) ↔ t.arity ≤ es.length := by
  rcases t with c | q | k
  · exact ⟨fun _ => Nat.zero_le _, fun _ => ⟨.literal c :: es, by cases es <;> rfl⟩⟩
  · rcases es with _ | ⟨e, es⟩
    · exact ⟨fun ⟨_, h⟩ => (by cases h), fun h => absurd h (by simp [Token.arity])⟩
    · exact ⟨fun _ => by simp [Token.arity], fun _ => ⟨_, Expr.rebuild_nil _⟩⟩
  · rcases es with _ | ⟨right, _ | ⟨left, es⟩⟩
    · exact ⟨fun ⟨_, h⟩ => (by cases h), fun h => absurd h (by simp [Token.arity])⟩
    · exact ⟨fun ⟨_, h⟩ => (by cases h), fun h => absurd h (by simp [Token.arity])⟩
    · exact ⟨fun _ => by simp [Token.arity], fun _ => ⟨_, Expr.rebuild_nil _⟩⟩

/-- **Tokens can be read onto the stack exactly when none of them takes more than there is.** -/
theorem exists_rebuild_iff_supplied (ts : List Token) : (∃ es, Expr.rebuild [] ts = some es) ↔ Supplied ts := by
  induction ts using List.reverseRecOn with
  | nil => exact ⟨fun _ i t ht => (by cases ht), fun _ => ⟨[], rfl⟩⟩
  | append_singleton ts t ih =>
    rw [supplied_append_singleton, ← ih, Expr.rebuild_append]
    constructor
    · rintro ⟨out, hout⟩
      obtain ⟨es, hes, hlast⟩ := Option.bind_eq_some_iff.1 hout
      have hlen := Pattern.length_of_rebuild hes
      have harity := exists_rebuild_singleton_iff.1 ⟨out, hlast⟩
      rw [List.length_nil] at hlen
      exact ⟨⟨es, hes⟩, by omega⟩
    · rintro ⟨⟨es, hes⟩, harity⟩
      have hlen := Pattern.length_of_rebuild hes
      rw [List.length_nil] at hlen
      rw [hes]
      exact exists_rebuild_singleton_iff.2 (by omega)

/-! ## Tokens -/

theorem FirstShort.split {ts : List Token} {i : Nat} {t : Token} (h : FirstShort ts i t) :
    ts = ts.take i ++ t :: ts.drop (i + 1) ∧ (ts.take i).length = i ∧ Supplied (ts.take i) := by
  obtain ⟨hi, ht⟩ := List.getElem?_eq_some_iff.1 h.token
  have hlen : (ts.take i).length = i := List.length_take_of_le (Nat.le_of_lt hi)
  refine ⟨?_, hlen, fun j u hu => ?_⟩
  · rw [← ht, List.getElem_cons_drop, List.take_append_drop]
  · have hj := (List.getElem?_eq_some_iff.1 hu).1
    rw [hlen] at hj
    rw [List.getElem?_take_of_lt hj] at hu
    rw [depth, List.take_take, Nat.min_eq_left (Nat.le_of_lt hj)]
    exact h.before j u hj hu

/-- **The first token that takes more than there is ends the run**, with the count that it finds, unless the tokens before
it already need too many states. -/
theorem build_of_firstShort {ts : List Token} {i : Nat} {t : Token} (h : FirstShort ts i t) :
    ∃ es : List Expr, Expr.rebuild [] (ts.take i) = some es ∧ (es.length : Int) = depth ts i ∧ ∀ limit,
      build limit ts =
        (within limit (arena es).length ()).bind fun _ => .error (.tooFewOperands t i t.arity es.length) := by
  obtain ⟨hsplit, hlen, hsupplied⟩ := h.split
  obtain ⟨es, hes⟩ := (exists_rebuild_iff_supplied _).2 hsupplied
  have hfound : (es.length : Int) = depth ts i := by
    rw [Pattern.length_of_rebuild hes, List.length_nil]
    exact Int.zero_add _
  have hnone : Expr.rebuild es [t] = none := by
    have hshort := h.short
    refine Option.eq_none_iff_forall_ne_some.2 fun out hout => ?_
    have := exists_rebuild_singleton_iff.1 ⟨out, hout⟩
    omega
  refine ⟨es, hes, hfound, fun limit => ?_⟩
  conv => lhs; rw [build_eq, show empty = laid [] from rfl, hsplit, run_append, run_of_rebuild (fits_nil limit) hes]
  rcases within_cases limit (arena es).length (laid es) with ⟨hfits, hok⟩ | ⟨most, -, herror⟩
  · rw [hok, within_of_fits hfits]
    show (run limit (0 + (ts.take i).length) (t :: ts.drop (i + 1)) (laid es)).2.bind finish = _
    rw [run, step_laid hfits, hnone, hlen, Nat.zero_add]
    rfl
  · rw [herror, within_error_of_le herror (Nat.le_refl _) ()]
    rfl

/-- **If no token takes more than there is, the count at the end decides**, unless the tokens need too many states. -/
theorem build_of_supplied {ts : List Token} (h : Supplied ts) :
    ∃ es : List Expr, Expr.rebuild [] ts = some es ∧ (es.length : Int) = depth ts ts.length ∧ ∀ limit,
      build limit ts = (within limit (arena es).length ()).bind fun _ => finish (laid es) := by
  obtain ⟨es, hes⟩ := (exists_rebuild_iff_supplied ts).2 h
  refine ⟨es, hes, ?_, fun limit => ?_⟩
  · rw [depth_length, Pattern.length_of_rebuild hes, List.length_nil]
    exact Int.zero_add _
  · rw [build_eq, show empty = laid [] from rfl, run_of_rebuild (fits_nil limit) hes]
    rcases within_ok_or_error limit (arena es).length with hok | ⟨fault, herror⟩
    · rw [hok, hok]
      rfl
    · rw [herror, herror]
      rfl

theorem finish_laid_many (e e' : Expr) (es : List Expr) :
    finish (laid (e :: e' :: es)) = .error (.unjoinedOperands (e :: e' :: es).length) := by
  rw [← length_fragments (e :: e' :: es)]
  rfl

/-- **A limit on states refuses what has too many, and decides nothing else.** -/
theorem build_eq_or_tooManyStates (limit : Option Nat) (ts : List Token) : build limit ts = build none ts ∨
    ∃ most, limit = some most ∧ build limit ts = .error (.tooManyStates most) := by
  obtain ⟨needed, outcome, hbuild⟩ : ∃ needed outcome, ∀ limit,
      build limit ts = (within limit needed ()).bind fun _ => outcome := by
    rcases supplied_or_firstShort ts with hsupplied | ⟨i, t, hshort⟩
    · obtain ⟨_, -, -, hbuild⟩ := build_of_supplied hsupplied
      exact ⟨_, _, hbuild⟩
    · obtain ⟨_, -, -, hbuild⟩ := build_of_firstShort hshort
      exact ⟨_, _, hbuild⟩
  rw [hbuild, hbuild none]
  rcases within_cases limit needed () with ⟨-, hok⟩ | ⟨most, hlimit, herror⟩
  · rw [hok]
    exact .inl rfl
  · rw [herror]
    exact .inr ⟨most, hlimit, rfl⟩

theorem hasFault_of_build {ts : List Token} {fault : PatternError} (h : build none ts = .error fault) :
    HasFault ts fault := by
  rcases supplied_or_firstShort ts with hsupplied | ⟨i, t, hshort⟩
  · obtain ⟨es, hes, hlen, hbuild⟩ := build_of_supplied hsupplied
    have hfinish : finish (laid es) = .error fault := (hbuild none).symm.trans h
    rcases es with _ | ⟨e, _ | ⟨e', es⟩⟩
    · cases hfinish
      exact (Expr.postorders_of_rebuild hes).symm
    · rw [finish_laid_singleton] at hfinish
      cases hfinish
    · rw [finish_laid_many] at hfinish
      cases hfinish
      exact ⟨hsupplied, by simp, hlen⟩
  · obtain ⟨es, -, hfound, hbuild⟩ := build_of_firstShort hshort
    cases (hbuild none).symm.trans h
    exact ⟨hshort, rfl, hfound⟩

theorem build_of_hasFault {ts : List Token} : ∀ {fault : PatternError}, HasFault ts fault →
    build none ts = .error fault
  | .tooFewOperands op position needed found, ⟨hshort, hneeded, hfound⟩ => by
    obtain ⟨es, -, hdepth, hbuild⟩ := build_of_firstShort hshort
    obtain rfl : found = es.length := by omega
    rw [hneeded]
    exact hbuild none
  | .emptyPattern, hnil => by rw [show ts = [] from hnil]; rfl
  | .unjoinedOperands count, ⟨hsupplied, htwo, hcount⟩ => by
    obtain ⟨es, -, hlen, hbuild⟩ := build_of_supplied hsupplied
    obtain rfl : count = es.length := by omega
    rcases es with _ | ⟨e, _ | ⟨e', es⟩⟩
    · exact absurd htwo (by simp)
    · exact absurd htwo (by simp)
    · exact (hbuild none).trans (finish_laid_many e e' es)

/-- **Tokens are refused exactly for the faults they have.** -/
theorem build_eq_error_iff {ts : List Token} {fault : PatternError} :
    build none ts = .error fault ↔ HasFault ts fault :=
  ⟨hasFault_of_build, build_of_hasFault⟩

/-- **Tokens are built exactly when each finds its operands and one operand is left.** -/
theorem exists_build_iff {ts : List Token} :
    (∃ a, build none ts = .ok a) ↔ Supplied ts ∧ depth ts ts.length = 1 := by
  constructor
  · rintro ⟨a, ha⟩
    rcases supplied_or_firstShort ts with hsupplied | ⟨i, t, hshort⟩
    · obtain ⟨es, -, hlen, hbuild⟩ := build_of_supplied hsupplied
      obtain ⟨e, rfl, -⟩ := finish_laid_eq_ok ((hbuild none).symm.trans ha)
      exact ⟨hsupplied, hlen.symm⟩
    · obtain ⟨es, -, -, hbuild⟩ := build_of_firstShort hshort
      cases (hbuild none).symm.trans ha
  · rintro ⟨hsupplied, hone⟩
    obtain ⟨es, -, hlen, hbuild⟩ := build_of_supplied hsupplied
    obtain ⟨e, rfl⟩ : ∃ e, es = [e] := List.length_eq_one_iff.1 (by omega)
    exact ⟨e.automaton, (hbuild none).trans (finish_laid_singleton e)⟩

end Construction

/-! ## Text -/

namespace Pattern

/-- The character at a position is a parenthesis, and it is the first one. -/
structure FirstParenthesis (cs : List Char) (i : Nat) (c : Char) : Prop where
  char : cs[i]? = some c
  parenthesis : c = '(' ∨ c = ')'
  before : ∀ j d, j < i → cs[j]? = some d → d ≠ '(' ∧ d ≠ ')'

/-- What is wrong with postfix text that no limit on states refuses: a parenthesis, or else a fault of its tokens.  A
text without parentheses has one token for each character: the operator whose sign it is (`Token.ofChar?_operator`), or
else a literal (`Token.ofChar?_literal`). -/
def HasTextFault (cs : List Char) : PatternError → Prop
  | .strayParenthesis c i => FirstParenthesis cs i c
  | .emptyPattern => cs = []
  | fault => ('(' ∉ cs ∧ ')' ∉ cs) ∧ Construction.HasFault (cs.filterMap Token.ofChar?) fault

theorem FirstParenthesis.cons {cs : List Char} {i : Nat} {c d : Char} (h : FirstParenthesis cs i c)
    (hd : d ≠ '(' ∧ d ≠ ')') : FirstParenthesis (d :: cs) (i + 1) c where
  char := h.char
  parenthesis := h.parenthesis
  before j x hj hx := by
    cases j with
    | zero => cases hx; exact hd
    | succ j => exact h.before j x (Nat.lt_of_succ_lt_succ hj) hx

theorem exists_firstParenthesis : ∀ cs : List Char, ('(' ∉ cs ∧ ')' ∉ cs) ∨ ∃ i c, FirstParenthesis cs i c
  | [] => .inl ⟨List.not_mem_nil, List.not_mem_nil⟩
  | d :: cs => by
    by_cases hd : d = '(' ∨ d = ')'
    · exact .inr ⟨0, d, rfl, hd, nofun⟩
    · rw [not_or] at hd
      rcases exists_firstParenthesis cs with ⟨hopen, hclose⟩ | ⟨i, c, hfirst⟩
      · exact .inl ⟨List.not_mem_cons_of_ne_of_not_mem (Ne.symm hd.1) hopen,
          List.not_mem_cons_of_ne_of_not_mem (Ne.symm hd.2) hclose⟩
      · exact .inr ⟨i + 1, c, hfirst.cons hd⟩

theorem FirstParenthesis.not_clean {cs : List Char} {i : Nat} {c : Char} (h : FirstParenthesis cs i c) :
    ¬('(' ∉ cs ∧ ')' ∉ cs) := by
  rintro ⟨hopen, hclose⟩
  have hmem := List.mem_of_getElem? h.char
  rcases h.parenthesis with rfl | rfl
  · exact hopen hmem
  · exact hclose hmem

theorem readPostfixFrom_of_firstParenthesis {cs : List Char} {i : Nat} {c : Char} (h : FirstParenthesis cs i c)
    (position : Nat) : readPostfixFrom position cs = .error (.strayParenthesis c (position + i)) := by
  induction cs generalizing i position with
  | nil => cases h.char
  | cons d cs ih =>
    cases i with
    | zero =>
      cases h.char
      rw [readPostfixFrom, readToken, Token.ofChar?_eq_none_iff.2 h.parenthesis]
      rfl
    | succ i =>
      have hd := h.before 0 d (Nat.succ_pos i) rfl
      obtain ⟨t, ht⟩ : ∃ t, Token.ofChar? d = some t :=
        Option.ne_none_iff_exists'.1 fun hnone => (Token.ofChar?_eq_none_iff.1 hnone).elim hd.1 hd.2
      have hrest : FirstParenthesis cs i c :=
        ⟨h.char, h.parenthesis, fun j x hj hx => h.before (j + 1) x (Nat.succ_lt_succ hj) hx⟩
      rw [readPostfixFrom, readToken, ht]
      simp only
      rw [ih hrest, Nat.add_right_comm]
      rfl

theorem readPostfixFrom_of_clean {cs : List Char} (hopen : '(' ∉ cs) (hclose : ')' ∉ cs) (position : Nat) :
    readPostfixFrom position cs = .ok (cs.filterMap Token.ofChar?) := by
  induction cs generalizing position with
  | nil => rfl
  | cons d cs ih =>
    rw [List.mem_cons, not_or] at hopen hclose
    obtain ⟨t, ht⟩ : ∃ t, Token.ofChar? d = some t :=
      Option.ne_none_iff_exists'.1 fun hnone =>
        (Token.ofChar?_eq_none_iff.1 hnone).elim (Ne.symm hopen.1) (Ne.symm hclose.1)
    rw [readPostfixFrom, readToken, ht, List.filterMap_cons_some ht]
    simp only
    rw [ih hopen.2 hclose.2]

theorem compile_of_firstParenthesis {cs : List Char} {i : Nat} {c : Char} (h : FirstParenthesis cs i c) :
    (Pattern.inPostfix cs).compile none = .error (.strayParenthesis c i) := by
  rw [compile, tokens, readPostfix, readPostfixFrom_of_firstParenthesis h, Nat.zero_add]
  rfl

theorem compile_of_clean {cs : List Char} (h : '(' ∉ cs ∧ ')' ∉ cs) :
    (Pattern.inPostfix cs).compile none = Construction.build none (cs.filterMap Token.ofChar?) := by
  rw [compile, tokens, readPostfix, readPostfixFrom_of_clean h.1 h.2]
  rfl

theorem filterMap_ofChar?_eq_nil_iff {cs : List Char} (h : '(' ∉ cs ∧ ')' ∉ cs) :
    cs.filterMap Token.ofChar? = [] ↔ cs = [] := by
  refine ⟨fun hnil => List.eq_nil_iff_forall_not_mem.2 fun c hc => ?_, fun hnil => by rw [hnil]; rfl⟩
  rcases Token.ofChar?_eq_none_iff.1 (List.filterMap_eq_nil_iff.1 hnil c hc) with rfl | rfl
  · exact h.1 hc
  · exact h.2 hc

theorem hasTextFault_of_clean {cs : List Char} (h : '(' ∉ cs ∧ ')' ∉ cs) : ∀ fault : PatternError,
    HasTextFault cs fault ↔ Construction.HasFault (cs.filterMap Token.ofChar?) fault
  | .strayParenthesis _ _ => ⟨fun hfirst => absurd h hfirst.not_clean, False.elim⟩
  | .emptyPattern => (filterMap_ofChar?_eq_nil_iff h).symm
  | .tooFewOperands _ _ _ _ | .unjoinedOperands _ | .noLeftOperand _ _ | .unmatchedParenthesis _
  | .tooManyStates _ => and_iff_right h

theorem hasTextFault_of_firstParenthesis {cs : List Char} {i : Nat} {c : Char} (h : FirstParenthesis cs i c) :
    ∀ fault : PatternError, HasTextFault cs fault ↔ fault = .strayParenthesis c i
  | .strayParenthesis c' i' => by
    refine ⟨fun h' => ?_, fun heq => by cases heq; exact h⟩
    -- a text has one outcome, so it has one first parenthesis
    have hsame := (compile_of_firstParenthesis h').symm.trans (compile_of_firstParenthesis h)
    exact Except.error.inj hsame
  | .emptyPattern => ⟨fun hnil => (by rw [show cs = [] from hnil] at h; cases h.char), nofun⟩
  | .tooFewOperands _ _ _ _ | .unjoinedOperands _ | .noLeftOperand _ _ | .unmatchedParenthesis _
  | .tooManyStates _ => ⟨fun hfault => absurd hfault.1 h.not_clean, nofun⟩

/-- **What comes of postfix text and of tokens**, if the number of states is not limited.  Text with a parenthesis is
refused for the first one.  Any other text is refused exactly for the faults of its tokens: the first operator that
takes more operands than those before it leave, with their number; no tokens at all; several operands left.  It is
compiled exactly when each operator finds its operands and one is left.  Tokens are refused and compiled likewise. -/
theorem outcome_of_compile :
    (∀ cs : List Char, (∀ fault, (Pattern.inPostfix cs).compile none = .error fault ↔ HasTextFault cs fault) ∧
      ((∃ a, (Pattern.inPostfix cs).compile none = .ok a) ↔ ('(' ∉ cs ∧ ')' ∉ cs) ∧
        Construction.Supplied (cs.filterMap Token.ofChar?) ∧
          Construction.depth (cs.filterMap Token.ofChar?) (cs.filterMap Token.ofChar?).length = 1)) ∧
    ∀ ts : List Token,
      (∀ fault, (Pattern.ofTokens ts).compile none = .error fault ↔ Construction.HasFault ts fault) ∧
        ((∃ a, (Pattern.ofTokens ts).compile none = .ok a) ↔
          Construction.Supplied ts ∧ Construction.depth ts ts.length = 1) := by
  refine ⟨fun cs => ?_, fun ts => ⟨fun fault => Construction.build_eq_error_iff, Construction.exists_build_iff⟩⟩
  rcases exists_firstParenthesis cs with hclean | ⟨i, c, hfirst⟩
  · rw [compile_of_clean hclean]
    refine ⟨fun fault => ?_, by rw [Construction.exists_build_iff, and_iff_right hclean]⟩
    rw [Construction.build_eq_error_iff, hasTextFault_of_clean hclean]
  · rw [compile_of_firstParenthesis hfirst]
    refine ⟨fun fault => ?_, ⟨fun ⟨_, ha⟩ => (by cases ha), fun h => absurd h.1 hfirst.not_clean⟩⟩
    rw [hasTextFault_of_firstParenthesis hfirst, Except.error.injEq, eq_comm]

end Pattern
end Regular
