import Regular.Proofs.Juxtaposition
import Regular.Proofs.Refusal
/-!
# Operands — what is compiled if no operands stand side by side

In an expression an operand starts wherever one has to: at the beginning and after each character that ends none
(`Filled`).  The reader looks for operators in these places only, and leaves a connective without its right operand and
a group without content to the count of operands.  As long as no two operands stand side by side the count finds them
all, for then a text that compiles is an expression.
-/
namespace Regular
namespace Pattern

/-- Wherever an operand has to start there is one, and the last one has an end. -/
structure Filled (s : List Char) : Prop where
  first : ∃ c ∈ s.head?, StartsOperand c
  next : s.IsChain fun x y => ¬EndsOperand x → StartsOperand y
  last : ∃ c ∈ s.getLast?, EndsOperand c

namespace Filled
variable {s t : List Char}

theorem snoc (h : Filled s) {c : Char} (hc : EndsOperand c) : Filled (s ++ [c]) := by
  obtain ⟨x, hx, hstarts⟩ := h.first
  obtain ⟨y, hy, hends⟩ := h.last
  refine ⟨⟨x, by rw [List.head?_append, Option.mem_def.1 hx]; rfl, hstarts⟩, ?_, ⟨c, by simp, hc⟩⟩
  refine List.isChain_append.2 ⟨h.next, .singleton _, fun z hz _ _ hnot => absurd ?_ hnot⟩
  rwa [Option.some.inj (hz.symm.trans hy)]

theorem cons (h : Filled s) {c : Char} (hc : StartsOperand c) : Filled (c :: s) := by
  obtain ⟨x, hx, hstarts⟩ := h.first
  obtain ⟨y, hy, hends⟩ := h.last
  refine ⟨⟨c, rfl, hc⟩, List.isChain_cons.2 ⟨fun z hz _ => ?_, h.next⟩, ⟨y, ?_, hends⟩⟩
  · rwa [Option.some.inj (hz.symm.trans hx)]
  · rw [List.getLast?_cons, Option.mem_def.1 hy]
    rfl

theorem connective (hs : Filled s) (ht : Filled t) (k : Connective) : Filled (s ++ k.char :: t) := by
  obtain ⟨x, hx, hstarts⟩ := hs.first
  obtain ⟨y, hy, hends⟩ := ht.last
  obtain ⟨first, hfirst, hfirst'⟩ := ht.first
  obtain ⟨last, hlast, hlast'⟩ := hs.last
  refine ⟨⟨x, ?_, hstarts⟩, List.isChain_append.2 ⟨hs.next, ?_, fun z hz _ _ hnot => absurd ?_ hnot⟩, ⟨y, ?_, hends⟩⟩
  · rw [List.head?_append, Option.mem_def.1 hx]
    rfl
  · refine List.isChain_cons.2 ⟨fun z hz _ => ?_, ht.next⟩
    rwa [Option.some.inj (hz.symm.trans hfirst)]
  · rwa [Option.some.inj (hz.symm.trans hlast)]
  · rw [List.getLast?_append, List.getLast?_cons, Option.mem_def.1 hy]
    rfl

/-- After a character that ends no operand an operand starts. -/
theorem starts_of_append {c : Char} (h : Filled (s ++ c :: t)) (hc : ¬EndsOperand c) :
    ∃ d ∈ t.head?, StartsOperand d := by
  cases t with
  | nil =>
    obtain ⟨d, hd, hends⟩ := h.last
    rw [List.getLast?_concat] at hd
    cases hd
    exact absurd hends hc
  | cons d u => exact ⟨d, rfl, (List.isChain_append_cons_cons.1 h.next).2.1 hc⟩

end Filled

/-- **In a derived text no operand is missing.** -/
theorem filled_of_derives {n : Nonterminal} {s : List Char} {e : Expr} (h : Derives n s e) : Filled s := by
  induction h with
  | expression _ ih | term _ ih | factor _ ih => exact ih
  | alternate _ _ ihl ihr => exact ihl.connective ihr .alternate
  | concat _ _ ihl ihr => exact ihl.connective ihr .concat
  | quantified _ q ih => exact ih.snoc (endsOperand_char q)
  | @literal c hc => exact ⟨⟨c, rfl, .inl hc⟩, .singleton _, ⟨c, rfl, .inl hc⟩⟩
  | group _ ih => exact (ih.snoc (c := ')') (by decide)).cons (by decide)

/-- **Every expression is compiled.** -/
theorem exists_compile_of_isExpression {s : List Char} (h : IsExpression s) :
    ∃ a, (Pattern.inInfix s).compile none = .ok a := by
  obtain ⟨e, he⟩ := h
  refine ⟨e.automaton, ?_⟩
  rw [compile, tokens, (readsAs_of_derives he).readInfix]
  exact Construction.build_postorder e

theorem isExpression_of_compile {s : List Char} (hsep : Separated s) {a : Automaton}
    (h : (Pattern.inInfix s).compile none = .ok a) : IsExpression s := by
  rcases compile_inInfix_cases none s with ⟨fault, -, hrefused⟩ | ⟨ts, hts, hbuild⟩
  · rw [hrefused] at h
    cases h
  · rw [hbuild] at h
    obtain ⟨e, rfl, -⟩ := Construction.exists_expr_of_build h
    exact isExpression_of_separated hsep hts

/-- **A place without an operand is found**, whatever follows it and wherever the operators are moved. -/
theorem exists_fault_of_not_filled {s : List Char} (hsep : Separated s) (h : ¬Filled s) :
    ∃ fault, (Pattern.inInfix s).compile none = .error fault := by
  cases hcompile : (Pattern.inInfix s).compile none with
  | error fault => exact ⟨fault, rfl⟩
  | ok a =>
    obtain ⟨e, he⟩ := isExpression_of_compile hsep hcompile
    exact absurd (filled_of_derives he) h

theorem not_filled_of_close {t u : List Char} {c : Char} (hc : ¬EndsOperand c) (hu : ∀ d ∈ u.head?, d = ')') :
    ¬Filled (t ++ c :: u) := by
  intro h
  obtain ⟨d, hd, hstarts⟩ := h.starts_of_append hc
  rw [hu d hd] at hstarts
  exact absurd hstarts (by decide)

/-- **Without operands side by side exactly the expressions are compiled.**  So each missing operand is found: a
connective at the end or before a `)`, and a group without content. -/
theorem exists_compile_iff_of_separated {s : List Char} (hsep : Separated s) :
    ((∃ a, (Pattern.inInfix s).compile none = .ok a) ↔ IsExpression s) ∧
      (∀ t u (k : Connective), s = t ++ k.char :: u → (∀ d ∈ u.head?, d = ')') →
        ∃ fault, (Pattern.inInfix s).compile none = .error fault) ∧
      ∀ t u, s = t ++ '(' :: ')' :: u → ∃ fault, (Pattern.inInfix s).compile none = .error fault := by
  refine ⟨⟨fun ⟨a, ha⟩ => isExpression_of_compile hsep ha, exists_compile_of_isExpression⟩, fun t u k hs hu => ?_,
    fun t u hs => ?_⟩
  · have hnot : ¬EndsOperand k.char := by cases k <;> decide
    exact exists_fault_of_not_filled hsep (hs ▸ not_filled_of_close hnot hu)
  · have hnot : ¬EndsOperand '(' := by decide
    refine exists_fault_of_not_filled hsep (hs ▸ not_filled_of_close hnot fun d hd => ?_)
    exact (Option.some.inj hd).symm

theorem exists_compile_iff_of_separated_group :
    Separated ['a', '.', '(', 'b', '|', ')', '*'] ∧
    ((∃ a, (Pattern.inInfix ['a', '.', '(', 'b', '|', ')', '*']).compile none = .ok a) ↔
      IsExpression ['a', '.', '(', 'b', '|', ')', '*']) ∧
    ∃ fault, (Pattern.inInfix ['a', '.', '(', 'b', '|', ')', '*']).compile none = .error fault := by
  have hsep : Separated ['a', '.', '(', 'b', '|', ')', '*'] := by decide
  obtain ⟨hiff, hmissing, -⟩ := exists_compile_iff_of_separated hsep
  exact ⟨hsep, hiff, hmissing ['a', '.', '(', 'b'] [')', '*'] .alternate rfl (by simp)⟩

end Pattern
end Regular
