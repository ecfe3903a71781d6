import Regular.Pattern.Compile
import Regular.Proofs.Reader
/-!
# Rendering — infix text and the postfix text that says the same

The tokens of infix text are those its characters stand for, in another order, so none of them is a literal that would
be read as an operator or a parenthesis (`isWritable_of_readInfix`).  Written down in their order they are postfix text,
and what is compiled from that text is what is compiled from the infix text.
-/
namespace Regular
namespace Pattern

/-- **No token of infix text is read as anything else** when it is written down. -/
theorem isWritable_of_readInfix {s : List Char} {ts : List Token} (h : readInfix s = .ok ts) :
    ∀ t ∈ ts, t.IsWritable := by
  intro t ht
  obtain ⟨c, -, hc⟩ := List.mem_filterMap.1 ((readInfix_perm h).mem_iff.1 ht)
  exact Token.isWritable_of_ofChar? hc

theorem isWritable_iff_of_mem {ts : List Token} :
    (∀ t ∈ ts, t.IsWritable) ↔ ∀ c, Token.literal c ∈ ts → c ∉ Token.reserved := by
  refine ⟨fun h c hc => h _ hc, fun h t ht => ?_⟩
  cases t with
  | literal c => exact h c ht
  | quantifier | connective => trivial

theorem readPostfix_writePostfix {ts : List Token} (h : ∀ t ∈ ts, t.IsWritable) :
    readPostfix (writePostfix ts) = .ok ts :=
  readPostfix_eq_ok_iff.2 ⟨rfl, h⟩

/-- **Infix text and the postfix text of its tokens are compiled alike**, under every limit: to the same automaton, or
refused with the same error.  Tokens whose literals are no reserved characters are read back from the text they are
written as, and postfix text is written back from the tokens it is read as. -/
theorem compile_inInfix_eq_inPostfix :
    (∀ s ts, readInfix s = .ok ts →
      ∀ limit, (Pattern.inInfix s).compile limit = (Pattern.inPostfix (writePostfix ts)).compile limit) ∧
    (∀ ts, (∀ c, Token.literal c ∈ ts → c ∉ Token.reserved) → readPostfix (writePostfix ts) = .ok ts) ∧
    ∀ p ts, readPostfix p = .ok ts → writePostfix ts = p := by
  refine ⟨fun s ts h limit => ?_, fun ts h => readPostfix_writePostfix (isWritable_iff_of_mem.2 h),
    fun p ts h => (readPostfix_eq_ok_iff.1 h).1⟩
  rw [compile, compile, tokens, tokens, h, readPostfix_writePostfix (isWritable_of_readInfix h)]

theorem compile_inInfix_eq_inPostfix_group :
    readInfix "(a|b).c|".toList = .ok [.literal 'a', .literal 'b', .connective .alternate, .literal 'c',
      .connective .concat, .connective .alternate] ∧
    (Pattern.inInfix "(a|b).c|".toList).compile (some 8) = (Pattern.inPostfix "ab|c.|".toList).compile (some 8) ∧
    (∀ c, Token.literal c ∈ [Token.literal 'x', .quantifier .star] → c ∉ Token.reserved) ∧
    readPostfix (writePostfix [.literal 'x', .quantifier .star]) = .ok [.literal 'x', .quantifier .star] ∧
    writePostfix [.literal 'x', .quantifier .star] = "x*".toList := by
  have hread : readInfix "(a|b).c|".toList = .ok [.literal 'a', .literal 'b', .connective .alternate, .literal 'c',
      .connective .concat, .connective .alternate] := rfl
  have hwritable : ∀ c, Token.literal c ∈ [Token.literal 'x', .quantifier .star] → c ∉ Token.reserved := by
    intro c hc
    simp only [List.mem_cons, Token.literal.injEq, List.not_mem_nil, or_false, reduceCtorEq] at hc
    rw [hc]
    decide
  have htokens := compile_inInfix_eq_inPostfix.2.1 _ hwritable
  exact ⟨hread, compile_inInfix_eq_inPostfix.1 _ _ hread _, hwritable, htokens,
    compile_inInfix_eq_inPostfix.2.2 _ _ htokens⟩

end Pattern
end Regular
