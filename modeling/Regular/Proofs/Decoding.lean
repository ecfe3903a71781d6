import Mathlib.Tactic.SplitIfs
import Regular.Text.Decimal
import Regular.Text.Escape
/-!
# Decoding — where a written value ends

What is written for a value is recovered together with the text behind it, as long as that text cannot be taken for
more of the value (`Recoverable`).  A number ends at the first character that is no digit, an escaped character at the
first place it can, a quoted text at the first quote that no backslash stands before.  Nothing is used of which
characters are hidden: an escaped character is written in one of three forms (`Escape`), and the first two characters
tell which one it is.
-/
namespace Regular
namespace Text

/-- A value and the text behind it are recovered from the whole, if that text is of the given kind. -/
def Recoverable {α : Type} (write : α → List Char) (Rest : List Char → Prop) : Prop :=
  ∀ {x y : α} {r s : List Char}, Rest r → Rest s → write x ++ r = write y ++ s → x = y ∧ r = s

theorem Recoverable.injective {α : Type} {write : α → List Char} {Rest : List Char → Prop} (h : Recoverable write Rest)
    (hnil : Rest []) {x y : α} (heq : write x = write y) : x = y :=
  (h hnil hnil (by rw [heq])).1

/-- Texts of one class of characters end where another character follows. -/
theorem append_cancel_of_class {p : Char → Prop} : ∀ {xs ys r s : List Char}, (∀ c ∈ xs, p c) → (∀ c ∈ ys, p c) →
    (∀ c ∈ r.head?, ¬p c) → (∀ c ∈ s.head?, ¬p c) → xs ++ r = ys ++ s → xs = ys ∧ r = s
  | [], [], _, _, _, _, _, _, h => ⟨rfl, h⟩
  | [], y :: ys, r, s, _, hy, hr, _, h => by
    rw [show r = y :: (ys ++ s) from h] at hr
    exact absurd (hy y List.mem_cons_self) (hr y rfl)
  | x :: xs, [], r, s, hx, _, _, hs, h => by
    rw [show s = x :: (xs ++ r) from h.symm] at hs
    exact absurd (hx x List.mem_cons_self) (hs x rfl)
  | x :: xs, y :: ys, _, _, hx, hy, hr, hs, h => by
    obtain ⟨rfl, htail⟩ := List.cons.inj h
    obtain ⟨rfl, rfl⟩ := append_cancel_of_class (fun c hc => hx c (List.mem_cons_of_mem _ hc))
      (fun c hc => hy c (List.mem_cons_of_mem _ hc)) hr hs htail
    exact ⟨rfl, rfl⟩

/-! ## Digits -/

theorem digitChar_injective : ∀ n < 16, ∀ m < 16, Nat.digitChar n = Nat.digitChar m → n = m := by decide

/-- The digits that numbers are written with. -/
def digitSigns (b : Nat) : List Char := (List.range b).map Nat.digitChar

theorem mem_digitSigns {b : Nat} (hb : 1 < b) {c : Char} (n : Nat) (h : c ∈ Nat.toDigits b n) : c ∈ digitSigns b := by
  induction n using Nat.strongRecOn with
  | ind n ih =>
    rcases Nat.lt_or_ge n b with hlt | hge
    · rw [Nat.toDigits_of_lt_base hlt] at h
      rw [List.mem_singleton.1 h]
      exact List.mem_map_of_mem (List.mem_range.2 hlt)
    · rw [Nat.toDigits_of_base_le hb hge] at h
      rcases List.mem_append.1 h with h | h
      · exact ih (n / b) (Nat.div_lt_self (by omega) hb) h
      · rw [List.mem_singleton.1 h]
        exact List.mem_map_of_mem (List.mem_range.2 (Nat.mod_lt n (by omega)))

/-- **Digits determine the number**, in every base that has a sign of its own for each digit. -/
theorem toDigits_injective {b : Nat} (hb : 1 < b) (hb' : b ≤ 16) (n m : Nat) (h : Nat.toDigits b n = Nat.toDigits b m) :
    n = m := by
  induction n using Nat.strongRecOn generalizing m with
  | ind n ih =>
    rcases Nat.lt_or_ge n b with hn | hn <;> rcases Nat.lt_or_ge m b with hm | hm
    · rw [Nat.toDigits_of_lt_base hn, Nat.toDigits_of_lt_base hm] at h
      exact digitChar_injective n (by omega) m (by omega) (List.singleton_inj.1 h)
    · rw [Nat.toDigits_of_lt_base hn, Nat.toDigits_of_base_le hb hm] at h
      exact absurd (List.append_eq_singleton_iff.1 h.symm) (by simp [Nat.toDigits_ne_nil])
    · rw [Nat.toDigits_of_base_le hb hn, Nat.toDigits_of_lt_base hm] at h
      exact absurd (List.append_eq_singleton_iff.1 h) (by simp [Nat.toDigits_ne_nil])
    · rw [Nat.toDigits_of_base_le hb hn, Nat.toDigits_of_base_le hb hm] at h
      obtain ⟨hdiv, hmod⟩ := List.append_inj' h rfl
      have hlt := Nat.mod_lt n (show 0 < b by omega)
      have hlt' := Nat.mod_lt m (show 0 < b by omega)
      have hquot := ih (n / b) (Nat.div_lt_self (by omega) hb) (m / b) hdiv
      have hrem := digitChar_injective (n % b) (by omega) (m % b) (by omega) (List.singleton_inj.1 hmod)
      rw [← Nat.div_add_mod n b, ← Nat.div_add_mod m b, hquot, hrem]

/-- The text does not begin with a decimal digit. -/
def NoDigit (r : List Char) : Prop := ∀ c ∈ r.head?, ¬c.isDigit

/-- What begins with a fixed text that begins with no digit does not begin with a digit. -/
theorem noDigit_append {xs : List Char} (h : xs.head?.any (fun c => !c.isDigit) = true) (r : List Char) :
    NoDigit (xs ++ r) := by
  cases xs with
  | nil => cases h
  | cons x xs =>
    intro c hc
    cases hc
    simpa using h

theorem isDigit_of_mem_decimal {n : Nat} {c : Char} (h : c ∈ decimal n) : c.isDigit :=
  Nat.isDigit_of_mem_toDigits (by decide) (by decide) h

theorem recoverable_decimal : Recoverable decimal NoDigit := by
  intro n m r s hr hs h
  obtain ⟨hdigits, hrest⟩ := append_cancel_of_class (fun c => isDigit_of_mem_decimal) (fun c => isDigit_of_mem_decimal)
    hr hs h
  exact ⟨toDigits_injective (by decide) (by decide) n m hdigits, hrest⟩

theorem decimal_injective {n m : Nat} (h : decimal n = decimal m) : n = m := recoverable_decimal.injective nofun h

/-- **A number is recovered from before a fixed text**, if that begins with no digit, and so is what comes behind it. -/
theorem recover_decimal_append {xs : List Char} (hxs : xs.head?.any (fun c => !c.isDigit) = true) {n m : Nat}
    {r s : List Char} (h : decimal n ++ (xs ++ r) = decimal m ++ (xs ++ s)) : n = m ∧ r = s := by
  obtain ⟨rfl, hrest⟩ := recoverable_decimal (noDigit_append hxs r) (noDigit_append hxs s) h
  exact ⟨rfl, List.append_cancel_left hrest⟩

/-! ## Lists of numbers -/

/-- The numbers after the first one, each behind a comma. -/
def furtherNumbers (ns : List Nat) : List Char := ns.flatMap fun m => ',' :: ' ' :: decimal m

theorem furtherNumbers_cons (n : Nat) (ns : List Nat) :
    furtherNumbers (n :: ns) = ',' :: ' ' :: (decimal n ++ furtherNumbers ns) := rfl

theorem decimals_cons (n : Nat) (ns : List Nat) :
    decimals (n :: ns) = decimal n ++ furtherNumbers ns := by
  induction ns generalizing n with
  | nil => exact (List.append_nil _).symm
  | cons m ns ih => rw [decimals, ih, furtherNumbers_cons]

theorem noDigit_append_bracket (ns : List Nat) (r : List Char) :
    NoDigit (furtherNumbers ns ++ ']' :: r) := by
  intro c hc
  cases ns <;> (cases hc; decide)

theorem recover_numbers : ∀ {ns ms : List Nat} {r s : List Char},
    furtherNumbers ns ++ ']' :: r = furtherNumbers ms ++ ']' :: s → ns = ms ∧ r = s
  | [], [], _, _, h => ⟨rfl, (List.cons.inj h).2⟩
  | [], _ :: _, _, _, h => by cases (List.cons.inj h).1
  | _ :: _, [], _, _, h => by cases (List.cons.inj h).1
  | n :: ns, m :: ms, r, s, h => by
    simp only [furtherNumbers_cons, List.cons_append, List.append_assoc, List.cons.injEq, true_and] at h
    obtain ⟨rfl, htail⟩ := recoverable_decimal (noDigit_append_bracket ns r) (noDigit_append_bracket ms s) h
    obtain ⟨rfl, hrest⟩ := recover_numbers htail
    exact ⟨rfl, hrest⟩

/-- A number does not begin with a closing bracket. -/
theorem bracket_ne_decimals (n : Nat) (ns : List Nat) (r s : List Char) : ']' :: r ≠ decimals (n :: ns) ++ s := by
  intro h
  have hne : decimal n ≠ [] := Nat.toDigits_ne_nil
  obtain ⟨c, cs, hc⟩ := List.exists_cons_of_ne_nil hne
  have hdigit : c.isDigit := isDigit_of_mem_decimal (hc ▸ List.mem_cons_self)
  rw [decimals_cons, hc] at h
  cases (List.cons.inj h).1
  exact absurd hdigit (by decide)

/-- **A list of numbers is recovered with what follows**, the empty one by its second bracket. -/
theorem recoverable_bracketed : Recoverable bracketed fun _ => True := by
  intro ns ms r s _ _ h
  simp only [bracketed, List.cons_append, List.append_assoc, List.nil_append, List.cons.injEq, true_and] at h
  rcases ns with _ | ⟨n, ns⟩ <;> rcases ms with _ | ⟨m, ms⟩
  · exact ⟨rfl, (List.cons.inj h).2⟩
  · exact absurd h (bracket_ne_decimals m ms r _)
  · exact absurd h.symm (bracket_ne_decimals n ns s _)
  · rw [decimals_cons, decimals_cons, List.append_assoc, List.append_assoc] at h
    obtain ⟨rfl, htail⟩ := recoverable_decimal (noDigit_append_bracket ns r) (noDigit_append_bracket ms s) h
    obtain ⟨rfl, hrest⟩ := recover_numbers htail
    exact ⟨rfl, hrest⟩

/-- What a list of numbers is made of. -/
def bracketedSigns : List Char := ['[', ',', ' ', ']'] ++ digitSigns 10

theorem mem_bracketedSigns {ns : List Nat} {c : Char} (h : c ∈ bracketed ns) : c ∈ bracketedSigns := by
  have hdigit : ∀ n, c ∈ decimal n → c ∈ bracketedSigns := fun n hmem =>
    List.mem_append_right _ (mem_digitSigns (by decide) n hmem)
  rcases ns with _ | ⟨n, ns⟩
  · exact (by decide : bracketed [] ⊆ bracketedSigns) h
  · rw [bracketed, decimals_cons, furtherNumbers] at h
    simp only [List.mem_cons, List.mem_append, List.mem_flatMap, List.not_mem_nil, or_false] at h
    rcases h with rfl | (h | ⟨m, -, rfl | rfl | h⟩) | rfl
    · decide
    · exact hdigit n h
    · decide
    · decide
    · exact hdigit m h
    · decide

/-! ## Escaped characters -/

/-- The signs that stand for a character after a backslash. -/
def shorthands : List (Char × Char) :=
  [('\'', '\''), ('"', '"'), ('\\', '\\'), ('\x00', '0'), ('\t', 't'), ('\r', 'r'), ('\n', 'n')]

/-- The forms in which a character is written: as it is, by a sign after a backslash, or by its number.  Neither the
quotes nor a backslash nor a line break is written as it is. -/
inductive Escape (quotes : List Char) : Char → List Char → Prop where
  | plain {c : Char} (hquote : c ∉ quotes) (hbackslash : c ≠ '\\') (hbreak : c ≠ '\n') : Escape quotes c [c]
  | short {c sign : Char} (h : (c, sign) ∈ shorthands) : Escape quotes c (backslashed sign)
  | number (c : Char) : Escape quotes c (byNumber c)

/-- Either kind of quote is escaped by itself, and is no backslash. -/
theorem shorthand_of_quote {quote : Char} (h : quote ∈ ['\'', '"']) :
    (quote, quote) ∈ shorthands ∧ quote ≠ '\\' := by
  simp only [List.mem_cons, List.not_mem_nil, or_false] at h
  rcases h with rfl | rfl <;> decide

theorem escape_escapeQuoted (hidden : Char → Bool) {quote : Char} (hquote : quote ∈ ['\'', '"']) (c : Char) :
    Escape [quote] c (escapeQuoted hidden quote c) := by
  unfold escapeQuoted
  split_ifs with hself hnul htab hreturn hbreak
  · rcases hself with rfl | rfl
    · exact .short (shorthand_of_quote hquote).1
    · exact .short (by decide)
  · exact hnul ▸ .short (by decide)
  · exact htab ▸ .short (by decide)
  · exact hreturn ▸ .short (by decide)
  · exact hbreak ▸ .short (by decide)
  · exact .number c
  · rw [not_or] at hself
    exact .plain (fun hmem => hself.1 (List.mem_singleton.1 hmem)) hself.2 hbreak

theorem escape_escapeAscii (c : Char) : Escape ['\'', '"'] c (escapeAscii c) := by
  unfold escapeAscii
  split_ifs with hself htab hreturn hbreak
  · rcases hself with rfl | rfl | rfl <;> exact .short (by decide)
  · exact htab ▸ .short (by decide)
  · exact hreturn ▸ .short (by decide)
  · exact hbreak ▸ .short (by decide)
  · rw [not_or, not_or] at hself
    exact .plain (by simp [hself.1, hself.2.1]) hself.2.2 hbreak
  · exact .number c

/-- What an escape is made of, where it is not the character itself. -/
def escapeSigns : List Char := ['\'', '"', '\\', '0', 't', 'r', 'n', 'u', '\x7b', '\x7d'] ++ digitSigns 16

theorem recover_number {c d : Char} {r s : List Char} (h : byNumber c ++ r = byNumber d ++ s) : c = d ∧ r = s := by
  simp only [byNumber, List.cons_append, List.append_assoc, List.nil_append, List.cons.injEq, true_and] at h
  obtain ⟨hdigits, hrest⟩ := append_cancel_of_class (fun _ => mem_digitSigns (by decide) c.toNat)
    (fun _ => mem_digitSigns (by decide) d.toNat) (fun _ hd => by cases hd; decide) (fun _ hd => by cases hd; decide) h
  exact ⟨Char.toNat_inj.1 (toDigits_injective (by decide) (by decide) _ _ hdigits), (List.cons.inj hrest).2⟩

theorem shorthands_injective : ∀ p ∈ shorthands, ∀ q ∈ shorthands, p.2 = q.2 → p.1 = q.1 := by decide

theorem short_ne_number {c sign d : Char} (h : (c, sign) ∈ shorthands) (r s : List Char) :
    backslashed sign ++ r ≠ byNumber d ++ s := by
  have hsigns : ∀ p ∈ shorthands, p.2 ≠ 'u' := by decide
  exact fun heq => hsigns _ h (List.cons.inj (List.cons.inj heq).2).1

section Escape
variable {quotes : List Char} {c d : Char} {v w r s : List Char}

/-- **An escaped character and what follows are recovered from the whole**, whatever its form is. -/
theorem Escape.recover (hc : Escape quotes c v) (hd : Escape quotes d w) (h : v ++ r = w ++ s) : c = d ∧ r = s := by
  cases hc with
  | plain _ hc =>
    cases hd with
    | plain => exact List.cons.inj h
    | short => exact absurd (List.cons.inj h).1 hc
    | number => exact absurd (List.cons.inj h).1 hc
  | short hc =>
    cases hd with
    | plain _ hd => exact absurd (List.cons.inj h).1.symm hd
    | short hd =>
      obtain ⟨hsign, hrest⟩ := List.cons.inj (List.cons.inj h).2
      exact ⟨shorthands_injective _ hc _ hd hsign, hrest⟩
    | number => exact absurd h (short_ne_number hc r s)
  | number =>
    cases hd with
    | plain _ hd => exact absurd (List.cons.inj h).1.symm hd
    | short hd => exact absurd h.symm (short_ne_number hd s r)
    | number => exact recover_number h

/-- An escaped character does not begin with a quote. -/
theorem Escape.ne_quote (h : Escape quotes c w) {quote : Char} (hquote : quote ∈ quotes) (hne : quote ≠ '\\') :
    w ++ r ≠ quote :: s := by
  intro heq
  cases h with
  | plain hmem => exact hmem ((List.cons.inj heq).1 ▸ hquote)
  | short | number => exact hne (List.cons.inj heq).1.symm

/-- **Besides the character itself an escape brings signs only**, and a line break not even then. -/
theorem Escape.eq_or_mem_signs (h : Escape quotes c w) {x : Char} (hx : x ∈ w) :
    (x = c ∧ x ≠ '\n') ∨ x ∈ escapeSigns := by
  cases h with
  | plain _ _ hbreak =>
    rw [List.mem_singleton.1 hx]
    exact .inl ⟨rfl, hbreak⟩
  | short h =>
    have hsigns : ∀ p ∈ shorthands, p.2 ∈ escapeSigns := by decide
    simp only [backslashed, List.mem_cons, List.not_mem_nil, or_false] at hx
    rcases hx with rfl | rfl
    · exact .inr (by decide)
    · exact .inr (hsigns _ h)
  | number =>
    simp only [byNumber, List.mem_cons, List.mem_append, List.not_mem_nil, or_false] at hx
    rcases hx with rfl | rfl | rfl | hx | rfl
    · exact .inr (by decide)
    · exact .inr (by decide)
    · exact .inr (by decide)
    · exact .inr (List.mem_append_right _ (mem_digitSigns (by decide) c.toNat hx))
    · exact .inr (by decide)

theorem Escape.newline_not_mem (h : Escape quotes c w) : '\n' ∉ w := by
  intro hmem
  rcases h.eq_or_mem_signs hmem with ⟨-, hne⟩ | hsign
  · exact hne rfl
  · exact absurd hsign (by decide)

end Escape

/-! ## Quoted text -/

section Quoted
variable (hidden : Char → Bool) {quote : Char}

theorem recover_quoted (hquote : quote ∈ ['\'', '"']) : ∀ {cs ds r s : List Char},
    cs.flatMap (escapeQuoted hidden quote) ++ quote :: r = ds.flatMap (escapeQuoted hidden quote) ++ quote :: s →
      cs = ds ∧ r = s
  | [], [], _, _, h => ⟨rfl, (List.cons.inj h).2⟩
  | [], d :: ds, _, _, h => by
    rw [List.flatMap_cons, List.append_assoc] at h
    exact absurd h.symm ((escape_escapeQuoted hidden hquote d).ne_quote List.mem_cons_self
      (shorthand_of_quote hquote).2)
  | c :: cs, [], _, _, h => by
    rw [List.flatMap_cons, List.append_assoc] at h
    exact absurd h ((escape_escapeQuoted hidden hquote c).ne_quote List.mem_cons_self (shorthand_of_quote hquote).2)
  | c :: cs, d :: ds, _, _, h => by
    rw [List.flatMap_cons, List.flatMap_cons, List.append_assoc, List.append_assoc] at h
    obtain ⟨rfl, htail⟩ := (escape_escapeQuoted hidden hquote c).recover (escape_escapeQuoted hidden hquote d) h
    obtain ⟨rfl, hrest⟩ := recover_quoted hquote htail
    exact ⟨rfl, hrest⟩

/-- **Quoted text is recovered with what follows**, whichever characters are hidden. -/
theorem recoverable_quoted (hquote : quote ∈ ['\'', '"']) : Recoverable (quoted hidden quote) fun _ => True := by
  intro cs ds r s _ _ h
  simp only [quoted, List.cons_append, List.append_assoc, List.nil_append, List.cons.injEq, true_and] at h
  exact recover_quoted hidden hquote h

end Quoted

/-! ## Lines -/

theorem newline_not_mem_decimal (n : Nat) : '\n' ∉ decimal n :=
  fun h => absurd (isDigit_of_mem_decimal h) (by decide)

theorem newline_not_mem_bracketed (ns : List Nat) : '\n' ∉ bracketed ns :=
  fun h => absurd (mem_bracketedSigns h) (by decide)

theorem newline_not_mem_quoted (hidden : Char → Bool) {quote : Char} (hquote : quote ∈ ['\'', '"']) (cs : List Char) :
    '\n' ∉ quoted hidden quote cs := by
  have hne : '\n' ≠ quote := by
    rintro rfl
    exact absurd hquote (by decide)
  simp only [quoted, List.mem_cons, List.mem_append, List.mem_flatMap, List.not_mem_nil, or_false, not_or]
  exact ⟨hne, fun ⟨c, _, hc⟩ => (escape_escapeQuoted hidden hquote c).newline_not_mem hc, hne⟩

/-- **Lines that are ended one by one come out again where the text is cut at the line breaks.** -/
theorem splitOn_lines : ∀ {lines : List (List Char)}, (∀ line ∈ lines, '\n' ∉ line) →
    (lines.flatMap fun line => line ++ ['\n']).splitOn '\n' = lines ++ [[]]
  | [], _ => List.splitOn_nil _
  | line :: lines, h => by
    rw [List.flatMap_cons, List.append_assoc, List.singleton_append,
      List.splitOn_append_cons_self_of_not_mem (h line List.mem_cons_self),
      splitOn_lines fun line hline => h line (List.mem_cons_of_mem _ hline)]
    rfl

end Text
end Regular
