import Mathlib.Data.List.Infix
import Mathlib.Data.List.Nodup
import Regular.Automaton.Listing
import Regular.Proofs.Decoding
import Regular.Proofs.Shape
/-!
# Listing — the text determines the automaton

The listing is one line after another (`listingWith_eq_lines`) and no label brings a line break of its own
(`newline_not_mem_of_mem_listingLines`), so the lines come out again.  In a line the label, if any, is recovered first
and then the edges (`eq_of_describe_eq`); the accepting state says neither, but a finished automaton leaves nothing open
there.  No other line says `MATCH`: of a label there is at most one capital letter in a line
(`isUpper_of_mem_describe`).  All this holds whichever characters are hidden.
-/
namespace Regular
namespace Text

theorem not_isUpper_of_mem {signs : List Char} (hsigns : signs.all (fun y => !y.isUpper) = true) {x : Char}
    (h : x ∈ signs) : ¬x.isUpper := by
  simpa using List.all_eq_true.1 hsigns x h

/-- **An escape brings no capital letter** but the character itself. -/
theorem Escape.eq_of_isUpper {quotes w : List Char} {c x : Char} (h : Escape quotes c w) (hx : x ∈ w)
    (hupper : x.isUpper) : x = c := by
  rcases h.eq_or_mem_signs hx with ⟨heq, -⟩ | hsign
  · exact heq
  · exact absurd hupper (not_isUpper_of_mem (by decide) hsign)

end Text

open Text

namespace Automaton
variable {hidden : Char → Bool} {a b : Automaton}

/-! ## Lines -/

/-- The line of a state, without its end. -/
def stateLine (hidden : Char → Bool) (a : Automaton) (id : Nat) (s : State) : List Char :=
  ' ' :: ' ' :: (decimal id ++ ':' :: ' ' :: a.describe hidden id s)

def listingLines (hidden : Char → Bool) (a : Automaton) : List (List Char) :=
  ("Start state: ".toList ++ decimal a.start) :: ("Accepting state: ".toList ++ decimal a.accept) ::
    "States:".toList :: a.states.toList.zipIdx.map fun (s, id) => a.stateLine hidden id s

/-- Whether a line says `MATCH`, anywhere in it. -/
def saysMatch (line : List Char) : Bool := decide ("MATCH".toList <:+: line)

theorem listingWith_eq_lines (hidden : Char → Bool) (a : Automaton) :
    a.listingWith hidden = (a.listingLines hidden).flatMap fun line => line ++ ['\n'] := by
  have hheader : "States:\n".toList = "States:".toList ++ ['\n'] := by decide
  unfold listingWith
  simp only [listingLines, hheader, List.flatMap_cons, List.flatMap_map, List.append_assoc, List.nil_append,
    listingLine, stateLine, List.cons_append]

theorem newline_not_mem_describe (id : Nat) (s : State) : '\n' ∉ a.describe hidden id s := by
  unfold describe
  split
  · simp only [List.mem_append, not_or]
    exact ⟨⟨newline_not_mem_quoted hidden (by decide) _, by decide⟩, newline_not_mem_bracketed _⟩
  · split
    · decide
    · rw [List.mem_append, not_or]
      exact ⟨by decide, newline_not_mem_bracketed _⟩

theorem newline_not_mem_of_mem_listingLines {line : List Char} (h : line ∈ a.listingLines hidden) : '\n' ∉ line := by
  simp only [listingLines, List.mem_cons, List.mem_map, Prod.exists] at h
  rcases h with rfl | rfl | rfl | ⟨s, id, -, rfl⟩
  · rw [List.mem_append, not_or]
    exact ⟨by decide, newline_not_mem_decimal _⟩
  · rw [List.mem_append, not_or]
    exact ⟨by decide, newline_not_mem_decimal _⟩
  · decide
  · simp only [stateLine, List.mem_cons, List.mem_append, not_or]
    exact ⟨by decide, by decide, newline_not_mem_decimal id, by decide, by decide, newline_not_mem_describe id s⟩

/-- **The lines of a listing are where its line breaks are.** -/
theorem splitOn_listingWith (hidden : Char → Bool) (a : Automaton) :
    (a.listingWith hidden).splitOn '\n' = a.listingLines hidden ++ [[]] := by
  rw [listingWith_eq_lines, splitOn_lines fun _ => newline_not_mem_of_mem_listingLines]

/-! ## States -/

/-- **What is said of a state determines it**, if the accepting state is the one that says nothing. -/
theorem eq_of_describe_eq {id : Nat} {s t : State} (haccept : a.accept = b.accept)
    (hs : s.edges = [] ↔ id = a.accept) (ht : t.edges = [] ↔ id = b.accept)
    (h : a.describe hidden id s = b.describe hidden id t) : s = t := by
  obtain ⟨label, edges⟩ := s
  obtain ⟨label', edges'⟩ := t
  rcases label with _ | c <;> rcases label' with _ | d
  · by_cases hid : id = a.accept
    · rw [show edges = [] from hs.2 hid, show edges' = [] from ht.2 (hid.trans haccept)]
    · simp only [describe, if_neg hid, if_neg (haccept ▸ hid)] at h
      rw [recoverable_bracketed.injective trivial (List.append_cancel_left h)]
  · simp only [describe, quoted] at h
    split at h <;> cases (List.cons.inj h).1
  · simp only [describe, quoted] at h
    split at h <;> cases (List.cons.inj h).1
  · simp only [describe, List.append_assoc] at h
    obtain ⟨hlabel, hrest⟩ := recoverable_quoted hidden (by decide) trivial trivial h
    rw [List.singleton_inj.1 hlabel, recoverable_bracketed.injective trivial (List.append_cancel_left hrest)]

theorem eq_of_stateLine_eq {id : Nat} {s t : State} (haccept : a.accept = b.accept)
    (hs : s.edges = [] ↔ id = a.accept) (ht : t.edges = [] ↔ id = b.accept)
    (h : a.stateLine hidden id s = b.stateLine hidden id t) : s = t := by
  simp only [stateLine, List.cons.injEq, true_and, List.append_cancel_left_eq] at h
  exact eq_of_describe_eq haccept hs ht h

theorem getElem?_stateLines (hidden : Char → Bool) (a : Automaton) (id : Nat) :
    (a.states.toList.zipIdx.map fun (s, id) => a.stateLine hidden id s)[id]? =
      (a.state? id).map (a.stateLine hidden id) := by
  rw [List.getElem?_map, List.getElem?_zipIdx, Array.getElem?_toList, Option.map_map, Nat.zero_add]
  rfl

/-- **The listings of two automata of which only the accepting states are open tell them apart.** -/
theorem eq_of_listingWith_eq (ha : ∀ id s, a.state? id = some s → (s.edges = [] ↔ id = a.accept))
    (hb : ∀ id s, b.state? id = some s → (s.edges = [] ↔ id = b.accept))
    (h : a.listingWith hidden = b.listingWith hidden) : a = b := by
  have hlines : a.listingLines hidden = b.listingLines hidden := by
    have hsplit := congrArg (List.splitOn '\n') h
    rw [splitOn_listingWith, splitOn_listingWith] at hsplit
    exact List.append_cancel_right hsplit
  simp only [listingLines, List.cons.injEq, List.append_cancel_left_eq, true_and] at hlines
  obtain ⟨hstart, haccept, hstates⟩ := hlines
  replace hstart := decimal_injective hstart
  replace haccept := decimal_injective haccept
  refine ext_state? hstart haccept fun id => ?_
  have hline := congrArg (·[id]?) hstates
  simp only [getElem?_stateLines] at hline
  cases hs : a.state? id <;> cases ht : b.state? id <;> simp only [hs, ht] at hline ⊢
  · cases hline
  · cases hline
  · rw [eq_of_stateLine_eq haccept (ha id _ hs) (hb id _ ht) (Option.some.inj hline)]

/-! ## The accepting state -/

theorem not_isUpper_of_mem_decimal {n : Nat} {x : Char} (h : x ∈ decimal n) : ¬x.isUpper :=
  not_isUpper_of_mem (by decide) (mem_digitSigns (by decide) n h)

theorem not_isUpper_of_mem_bracketed {ns : List Nat} {x : Char} (h : x ∈ bracketed ns) : ¬x.isUpper :=
  not_isUpper_of_mem (by decide) (mem_bracketedSigns h)

theorem describe_accept {id : Nat} {s : State} (hlabel : s.label = none) (hid : id = a.accept) :
    a.describe hidden id s = "MATCH".toList := by
  rw [describe, hlabel]
  exact if_pos hid

/-- **A capital letter in what is said of a state is its label**, or the state is the accepting one. -/
theorem isUpper_of_mem_describe {id : Nat} {s : State} {x : Char} (h : x ∈ a.describe hidden id s)
    (hupper : x.isUpper) : s.label = some x ∨ s.label = none ∧ id = a.accept := by
  unfold describe at h
  split at h
  · rename_i c hlabel
    simp only [quoted, List.flatMap_singleton, List.mem_append, List.mem_cons, List.not_mem_nil, or_false] at h
    rcases h with ((rfl | h | rfl) | h) | h
    · exact absurd hupper (by decide)
    · rw [(escape_escapeQuoted hidden (by decide) c).eq_of_isUpper h hupper]
      exact .inl hlabel
    · exact absurd hupper (by decide)
    · exact absurd hupper (not_isUpper_of_mem (by decide) h)
    · exact absurd hupper (not_isUpper_of_mem_bracketed h)
  · rename_i hlabel
    split at h
    · exact .inr ⟨hlabel, ‹_›⟩
    · rcases List.mem_append.1 h with h | h
      · exact absurd hupper (not_isUpper_of_mem (by decide) h)
      · exact absurd hupper (not_isUpper_of_mem_bracketed h)

/-- **`MATCH` stands in the line of the accepting state only**: no other line has two capital letters. -/
theorem saysMatch_stateLine_iff {id : Nat} {s : State} :
    saysMatch (a.stateLine hidden id s) = true ↔ s.label = none ∧ id = a.accept := by
  unfold saysMatch
  rw [decide_eq_true_iff]
  constructor
  · intro h
    have hcapital : ∀ x ∈ "MATCH".toList, x.isUpper → s.label = some x ∨ s.label = none ∧ id = a.accept := by
      intro x hx hupper
      have hmem := h.subset hx
      simp only [stateLine, List.mem_cons, List.mem_append] at hmem
      rcases hmem with rfl | rfl | hmem | rfl | rfl | hmem
      · exact absurd hupper (by decide)
      · exact absurd hupper (by decide)
      · exact absurd hupper (not_isUpper_of_mem_decimal hmem)
      · exact absurd hupper (by decide)
      · exact absurd hupper (by decide)
      · exact isUpper_of_mem_describe hmem hupper
    rcases hcapital 'M' (by decide) (by decide) with hM | hM
    · rcases hcapital 'A' (by decide) (by decide) with hA | hA
      · cases hM.symm.trans hA
      · exact hA
    · exact hM
  · rintro ⟨hlabel, hid⟩
    simp only [stateLine, describe_accept hlabel hid]
    exact ⟨' ' :: ' ' :: (decimal id ++ [':', ' ']), [], by simp⟩

theorem not_saysMatch_header {header : List Char} (hM : 'M' ∉ header) (n : Nat) :
    ¬saysMatch (header ++ decimal n) = true := by
  intro h
  rcases List.mem_append.1 ((of_decide_eq_true h).subset (by decide : 'M' ∈ "MATCH".toList)) with hmem | hmem
  · exact hM hmem
  · exact not_isUpper_of_mem_decimal hmem (by decide)

theorem filter_zipIdx_eq_singleton {α : Type} {xs : List α} {i : Nat} {x : α} {p : α × Nat → Bool} (hx : xs[i]? = some x)
    (hp : ∀ y j, xs[j]? = some y → (p (y, j) = true ↔ j = i)) : xs.zipIdx.filter p = [(x, i)] := by
  classical
  have hnodup : xs.zipIdx.Nodup := List.Nodup.of_map Prod.snd (by rw [List.zipIdx_map_snd]; exact List.nodup_range')
  have hmem : (x, i) ∈ xs.zipIdx := List.mk_mem_zipIdx_iff_getElem?.2 hx
  have hsame : ∀ y ∈ xs.zipIdx, p y = decide (y = (x, i)) := by
    rintro ⟨y, j⟩ hy
    rw [List.mk_mem_zipIdx_iff_getElem?] at hy
    rw [Bool.eq_iff_iff, hp y j hy, decide_eq_true_iff, Prod.mk.injEq]
    constructor
    · rintro rfl
      exact ⟨Option.some.inj (hy.symm.trans hx), rfl⟩
    · exact And.right
  rw [List.filter_congr hsame, List.filter_eq, List.count_eq_one_of_mem hnodup hmem]
  rfl

/-- **Exactly one line of the listing says `MATCH`**, that of the accepting state. -/
theorem filter_listingLines (hidden : Char → Bool) {s : State} (hs : a.state? a.accept = some s)
    (hlabel : s.label = none) : (a.listingLines hidden).filter saysMatch = [a.stateLine hidden a.accept s] := by
  have hstates : a.states.toList.zipIdx.filter (fun p => saysMatch (a.stateLine hidden p.2 p.1)) = [(s, a.accept)] := by
    refine filter_zipIdx_eq_singleton ((Array.getElem?_toList ..).trans hs) fun t id ht => ?_
    rw [saysMatch_stateLine_iff]
    constructor
    · exact And.right
    · rintro rfl
      rw [Array.getElem?_toList] at ht
      cases hs.symm.trans ht
      exact ⟨hlabel, rfl⟩
  rw [listingLines, List.filter_cons_of_neg (not_saysMatch_header (by decide) _),
    List.filter_cons_of_neg (not_saysMatch_header (by decide) _), List.filter_cons_of_neg (by decide), List.filter_map]
  exact congrArg (List.map _) hstates

end Automaton

namespace Construction

/-- **The listing of a finished automaton is lossless and marks the accepting state**: no two of them have the same
text, and exactly one line says `MATCH`, that of the accepting state.  This holds whichever characters are hidden;
`listing` is the case of `isHidden`. -/
theorem listingWith_injective_of_build (hidden : Char → Bool) {limit limit' : Option Nat} {ts us : List Token}
    {a b : Automaton} (ha : build limit ts = .ok a) (hb : build limit' us = .ok b) :
    (a.listingWith hidden = b.listingWith hidden → a = b) ∧
    ((a.listingWith hidden).splitOn '\n').filter Automaton.saysMatch =
      ["  ".toList ++ decimal a.accept ++ ": MATCH".toList] := by
  refine ⟨Automaton.eq_of_listingWith_eq (hasShape_of_build ha).edges_eq_nil_iff
    (hasShape_of_build hb).edges_eq_nil_iff, ?_⟩
  obtain ⟨e, -, rfl⟩ := exists_expr_of_build ha
  rw [Automaton.splitOn_listingWith, List.filter_append,
    Automaton.filter_listingLines hidden (Automaton.state?_accept e) rfl, Automaton.stateLine,
    Automaton.describe_accept rfl rfl]
  rfl

theorem listingWith_injective_of_build_quote :
    ∃ a b : Automaton, build none [.literal '\'', .literal '\n', .connective .concat] = .ok a ∧
      build (some 4) [.literal '\'', .literal 'n', .connective .concat] = .ok b ∧ a.listing ≠ b.listing ∧
      (a.listing.splitOn '\n').filter Automaton.saysMatch = ["  2: MATCH".toList] := by
  have ha : build none [.literal '\'', .literal '\n', .connective .concat] =
      .ok ⟨#[.silent [3], .consuming '\'' 0, .silent [], .consuming '\n' 2], 1, 2⟩ := rfl
  have hb : build (some 4) [.literal '\'', .literal 'n', .connective .concat] =
      .ok ⟨#[.silent [3], .consuming '\'' 0, .silent [], .consuming 'n' 2], 1, 2⟩ := rfl
  obtain ⟨hinjective, hmatch⟩ := listingWith_injective_of_build isHidden ha hb
  exact ⟨_, _, ha, hb, fun heq => absurd (hinjective heq) (by decide), hmatch⟩

end Construction
end Regular
