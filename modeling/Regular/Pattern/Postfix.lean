import Regular.PatternError
/-!
# Postfix — pattern text with every operator after its operands

Postfix text needs no parentheses: each character is one token, in order.  Reading and writing are each other's
inverses on the texts and tokens they accept (`readPostfix_eq_ok_iff`).
-/
namespace Regular
namespace Pattern

def readToken (position : Nat) (c : Char) : Except PatternError Token :=
  match Token.ofChar? c with
  | some t => .ok t
  | none => .error (.strayParenthesis c position)

/-- The tokens of postfix text whose first character stands at the given position. -/
def readPostfixFrom : Nat → List Char → Except PatternError (List Token)
  | _, [] => .ok []
  | position, c :: cs =>
    match readToken position c with
    | .error e => .error e
    | .ok t =>
      match readPostfixFrom (position + 1) cs with
      | .error e => .error e
      | .ok ts => .ok (t :: ts)

/-- The tokens of postfix text, one for each character; the first parenthesis is refused. -/
def readPostfix (cs : List Char) : Except PatternError (List Token) := readPostfixFrom 0 cs

def writePostfix (ts : List Token) : List Char := ts.map Token.char

/-! ## Reading undoes writing, and writing undoes reading -/

theorem readToken_eq_ok_iff {position : Nat} {c : Char} {t : Token} :
    readToken position c = .ok t ↔ Token.ofChar? c = some t := by
  unfold readToken
  split
  · rename_i u hu
    simp [hu]
  · rename_i hn
    simp [hn]

theorem readPostfixFrom_cons_eq_ok_iff {position : Nat} {c : Char} {cs : List Char} {out : List Token} :
    readPostfixFrom position (c :: cs) = .ok out ↔
      ∃ t ts, Token.ofChar? c = some t ∧ readPostfixFrom (position + 1) cs = .ok ts ∧ out = t :: ts := by
  rw [readPostfixFrom]
  constructor
  · intro h
    split at h
    · cases h
    rename_i t ht
    split at h
    · cases h
    rename_i ts hts
    cases h
    exact ⟨t, ts, readToken_eq_ok_iff.1 ht, hts, rfl⟩
  · rintro ⟨t, ts, ht, hts, rfl⟩
    rw [readToken_eq_ok_iff.2 ht, hts]

/-- **Reading accepts exactly what writing produces** from tokens that can be written, at any position. -/
theorem readPostfixFrom_eq_ok_iff {position : Nat} {cs : List Char} {ts : List Token} :
    readPostfixFrom position cs = .ok ts ↔ writePostfix ts = cs ∧ ∀ t ∈ ts, t.IsWritable := by
  induction cs generalizing position ts with
  | nil => cases ts <;> simp [readPostfixFrom, writePostfix]
  | cons c cs ih =>
    rw [readPostfixFrom_cons_eq_ok_iff]
    constructor
    · rintro ⟨t, us, ht, hus, rfl⟩
      obtain ⟨hw, hall⟩ := ih.1 hus
      refine ⟨by rw [← hw]; simp [writePostfix, Token.char_of_ofChar? ht], fun x hx => ?_⟩
      rcases List.mem_cons.1 hx with rfl | hx
      · exact Token.isWritable_of_ofChar? ht
      · exact hall x hx
    · rintro ⟨hw, hall⟩
      cases ts with
      | nil => cases hw
      | cons t us =>
        obtain ⟨rfl, hcs⟩ := List.cons.inj hw
        exact ⟨t, us, Token.ofChar?_char (hall t List.mem_cons_self),
          ih.2 ⟨hcs, fun x hx => hall x (List.mem_cons_of_mem t hx)⟩, rfl⟩

theorem readPostfix_eq_ok_iff {cs : List Char} {ts : List Token} :
    readPostfix cs = .ok ts ↔ writePostfix ts = cs ∧ ∀ t ∈ ts, t.IsWritable :=
  readPostfixFrom_eq_ok_iff

end Pattern
end Regular
