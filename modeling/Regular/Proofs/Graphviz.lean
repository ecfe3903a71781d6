import Regular.Automaton.Graphviz
import Regular.Proofs.Decoding
import Regular.Proofs.Shape
/-!
# Graphviz — the drawing determines the automaton

The text for drawing names no states but the two distinguished ones, only edges.  Its lines come out again
(`splitOn_graphviz`), for no label brings a line break, and each line gives its edge back: numbers end where the digits
end, and an escaped character is never written `ε` (`recoverable_edgeLabel`).  The edges that leave a state are those of
its number, in order (`filter_edgeList`); in a finished automaton that tells every state apart from the accepting one,
and that one is known to have neither label nor edges (`eq_of_edgeList_eq`).
-/
namespace Regular
namespace Text

/-- Text that stays between its double quotes, on one line: every quote and every backslash in it is taken with a
backslash just before it that is not taken so itself, and there is no line break. -/
inductive Shielded : List Char → Prop where
  | nil : Shielded []
  | plain {c : Char} {cs : List Char} (hquote : c ≠ '"') (hbackslash : c ≠ '\\') (hbreak : c ≠ '\n')
      (rest : Shielded cs) : Shielded (c :: cs)
  | escaped {c : Char} {cs : List Char} (hbreak : c ≠ '\n') (rest : Shielded cs) : Shielded ('\\' :: c :: cs)

theorem shielded_of_not_mem : ∀ {cs : List Char}, '"' ∉ cs → '\\' ∉ cs → '\n' ∉ cs → Shielded cs
  | [], _, _, _ => .nil
  | _ :: _, hquote, hbackslash, hbreak =>
    .plain (List.ne_of_not_mem_cons hquote).symm (List.ne_of_not_mem_cons hbackslash).symm
      (List.ne_of_not_mem_cons hbreak).symm (shielded_of_not_mem (List.not_mem_of_not_mem_cons hquote)
        (List.not_mem_of_not_mem_cons hbackslash) (List.not_mem_of_not_mem_cons hbreak))

/-- **An escaped character stays between double quotes**, if these are among the quotes that are escaped. -/
theorem Escape.shielded {quotes w : List Char} {c : Char} (h : Escape quotes c w) (hquotes : '"' ∈ quotes) :
    Shielded w := by
  cases h with
  | plain hquote hbackslash hbreak =>
    exact .plain (fun heq => hquote (heq ▸ hquotes)) hbackslash hbreak .nil
  | short h =>
    have hsigns : ∀ p ∈ shorthands, p.2 ≠ '\n' := by decide
    exact .escaped (hsigns _ h) .nil
  | number =>
    have hrest : ∀ d ∉ digitSigns 16 ++ ['\x7d'], d ∉ Nat.toDigits 16 c.toNat ++ ['\x7d'] := fun d hd hmem =>
      hd (List.mem_append.2 ((List.mem_append.1 hmem).imp_left (mem_digitSigns (by decide) c.toNat)))
    exact .escaped (by decide) (.plain (by decide) (by decide) (by decide)
      (shielded_of_not_mem (hrest _ (by decide)) (hrest _ (by decide)) (hrest _ (by decide))))

end Text

open Text

/-- An edge, with what is consumed on it. -/
structure Edge where
  source : Nat
  label : Option Char
  target : Nat
  deriving DecidableEq, Repr

/-- The edges that leave a state with a number, in its order. -/
def State.edgesFrom (id : Nat) (s : State) : List Edge := s.edges.map fun target => ⟨id, s.label, target⟩

namespace Automaton
variable {a b : Automaton}

/-- All edges, state by state. -/
def edgeList (a : Automaton) : List Edge := a.states.toList.zipIdx.flatMap fun (s, id) => s.edgesFrom id

theorem mem_edgeList {e : Edge} : e ∈ a.edgeList ↔ a.HasEdge e.source e.label e.target := by
  obtain ⟨source, label, target⟩ := e
  simp only [edgeList, State.edgesFrom, HasEdge, state?, List.mem_flatMap, List.mem_map, Prod.exists, Edge.mk.injEq,
    List.mk_mem_zipIdx_iff_getElem?, Array.getElem?_toList]
  constructor
  · rintro ⟨s, id, hs, _, htarget, rfl, rfl, rfl⟩
    exact ⟨s, hs, rfl, htarget⟩
  · rintro ⟨s, hs, rfl, htarget⟩
    exact ⟨s, source, hs, target, htarget, rfl, rfl, rfl⟩

/-! ## What edges tell of a state -/

theorem source_of_mem_edgesFrom {id : Nat} {s : State} {e : Edge} (h : e ∈ s.edgesFrom id) : e.source = id := by
  obtain ⟨target, -, rfl⟩ := List.mem_map.1 h
  rfl

theorem filter_edgesFrom (id i : Nat) (s : State) :
    (s.edgesFrom i).filter (fun e => e.source == id) = if i = id then s.edgesFrom i else [] := by
  split
  · rename_i h
    exact List.filter_eq_self.2 fun e he => beq_iff_eq.2 ((source_of_mem_edgesFrom he).trans h)
  · rename_i h
    exact List.filter_eq_nil_iff.2 fun e he heq => h ((source_of_mem_edgesFrom he).symm.trans (beq_iff_eq.1 heq))

theorem filter_edges_zipIdx (id : Nat) : ∀ (ss : List State) (first : Nat),
    ((ss.zipIdx first).flatMap fun (s, i) => s.edgesFrom i).filter (fun e => e.source == id) =
      if first ≤ id then (ss[id - first]?).elim [] (State.edgesFrom id) else []
  | [], _ => by simp
  | s :: ss, first => by
    rw [List.zipIdx_cons, List.flatMap_cons, List.filter_append, filter_edges_zipIdx id ss, filter_edgesFrom]
    rcases Nat.lt_trichotomy first id with hlt | rfl | hgt
    · obtain ⟨d, rfl⟩ := Nat.exists_eq_add_of_lt hlt
      rw [if_neg (Nat.ne_of_lt hlt), if_pos (Nat.succ_le_of_lt hlt), if_pos (Nat.le_of_lt hlt), List.nil_append,
        show first + d + 1 - first = d + 1 by omega, show first + d + 1 - (first + 1) = d by omega,
        List.getElem?_cons_succ]
    · rw [if_pos rfl, if_neg (Nat.not_succ_le_self _), if_pos (Nat.le_refl _), Nat.sub_self, List.append_nil]
      rfl
    · rw [if_neg (Nat.ne_of_gt hgt), if_neg (by omega), if_neg (Nat.not_le_of_gt hgt)]
      rfl

/-- **The edges that leave a number are those of its state**, and there are none if it has no state. -/
theorem filter_edgeList (a : Automaton) (id : Nat) :
    a.edgeList.filter (fun e => e.source == id) = (a.state? id).elim [] (State.edgesFrom id) := by
  rw [edgeList, filter_edges_zipIdx, if_pos (Nat.zero_le id), Nat.sub_zero, Array.getElem?_toList]
  rfl

theorem eq_of_edgesFrom_eq {id : Nat} {s t : State} (hs : s.edges ≠ []) (h : s.edgesFrom id = t.edgesFrom id) :
    s = t := by
  obtain ⟨label, edges⟩ := s
  obtain ⟨label', edges'⟩ := t
  have htargets := congrArg (List.map Edge.target) h
  simp only [State.edgesFrom, List.map_map, Function.comp_def, List.map_id'] at htargets
  obtain ⟨first, rest, rfl⟩ := List.exists_cons_of_ne_nil hs
  cases htargets
  have hlabel := (Edge.mk.inj (List.cons.inj h).1).2.1
  exact congrArg (State.mk · _) hlabel

/-- **The edges of two automata tell them apart**, if only their accepting states have none, and these have no label. -/
theorem eq_of_edgeList_eq (ha : ∀ id s, a.state? id = some s → (s.edges = [] ↔ id = a.accept))
    (hb : ∀ id s, b.state? id = some s → (s.edges = [] ↔ id = b.accept))
    (ha' : a.state? a.accept = some (.silent [])) (hb' : b.state? b.accept = some (.silent []))
    (hstart : a.start = b.start) (haccept : a.accept = b.accept) (hedges : a.edgeList = b.edgeList) : a = b := by
  refine ext_state? hstart haccept fun id => ?_
  -- The accepting state leaves no trace among the edges; that any other state does is what tells states from no states.
  by_cases hid : id = a.accept
  · rw [hid, ha', haccept, hb']
  · have hfrom := congrArg (List.filter fun e => e.source == id) hedges
    rw [filter_edgeList, filter_edgeList] at hfrom
    have hnone : ∀ {s : State}, s.edges ≠ [] → s.edgesFrom id ≠ [] := fun h hnil => h (List.map_eq_nil_iff.1 hnil)
    cases hs : a.state? id <;> cases ht : b.state? id <;> simp only [hs, ht, Option.elim_none, Option.elim_some] at hfrom
    · rfl
    · exact absurd hfrom.symm (hnone fun hnil => hid (haccept ▸ (hb id _ ht).1 hnil))
    · exact absurd hfrom (hnone fun hnil => hid ((ha id _ hs).1 hnil))
    · rw [eq_of_edgesFrom_eq (fun hnil => hid ((ha id _ hs).1 hnil)) hfrom]

end Automaton

/-! ## Labels and lines -/

namespace Automaton

/-- **A label and what follows are recovered from the whole**: no character is written like a silent edge. -/
theorem recoverable_edgeLabel : Recoverable edgeLabel fun _ => True := by
  -- The character `ε` itself is not kept as it is, since it is not ASCII: its text begins with a backslash.
  have hsilent : ∀ (c : Char) (r s : List Char), 'ε' :: r ≠ escapeAscii c ++ s := by
    intro c r s h
    have hescape := escape_escapeAscii c
    generalize hw : escapeAscii c = w at h hescape
    cases hescape with
    | plain =>
      cases (List.cons.inj h).1
      exact absurd hw (by decide)
    | short => exact absurd (List.cons.inj h).1 (by decide)
    | number => exact absurd (List.cons.inj h).1 (by decide)
  intro label label' r s _ _ h
  rcases label with _ | c <;> rcases label' with _ | d
  · exact ⟨rfl, (List.cons.inj h).2⟩
  · exact absurd h (hsilent d r s)
  · exact absurd h.symm (hsilent c s r)
  · obtain ⟨rfl, hrest⟩ := (escape_escapeAscii c).recover (escape_escapeAscii d) h
    exact ⟨rfl, hrest⟩

theorem shielded_edgeLabel : ∀ label : Option Char, Shielded (edgeLabel label)
  | none => .plain (by decide) (by decide) (by decide) .nil
  | some c => (escape_escapeAscii c).shielded (by decide)

theorem edgeLabel_eq_epsilon_iff {label : Option Char} : edgeLabel label = ['ε'] ↔ label = none :=
  ⟨fun h => recoverable_edgeLabel.injective trivial (h.trans (rfl : ['ε'] = edgeLabel none)), fun h => by rw [h]; rfl⟩

theorem newline_not_mem_edgeLabel : ∀ label : Option Char, '\n' ∉ edgeLabel label
  | none => by decide
  | some c => (escape_escapeAscii c).newline_not_mem

end Automaton

open Automaton

/-- The line of an edge, without its end. -/
def Edge.line (e : Edge) : List Char :=
  '\t' :: (decimal e.source ++ " -> ".toList ++ decimal e.target ++ " [label=\"".toList ++ edgeLabel e.label ++
    "\"];".toList)

theorem Edge.line_injective {e f : Edge} (h : e.line = f.line) : e = f := by
  obtain ⟨source, label, target⟩ := e
  obtain ⟨source', label', target'⟩ := f
  simp only [Edge.line, List.append_assoc, List.cons.injEq, true_and] at h
  obtain ⟨rfl, htarget⟩ := recover_decimal_append (by decide) h
  obtain ⟨rfl, hlabel⟩ := recover_decimal_append (by decide) htarget
  obtain ⟨rfl, -⟩ := recoverable_edgeLabel trivial trivial hlabel
  rfl

theorem Edge.newline_not_mem_line (e : Edge) : '\n' ∉ e.line := by
  simp only [Edge.line, List.mem_cons, List.mem_append, not_or]
  exact ⟨by decide, ⟨⟨⟨⟨newline_not_mem_decimal _, by decide⟩, newline_not_mem_decimal _⟩, by decide⟩,
    newline_not_mem_edgeLabel _⟩, by decide⟩

namespace Automaton
variable {a b : Automaton}

/-- The line that gives a state a shape, without its end. -/
def shapeText (id : Nat) (shape : List Char) : List Char :=
  '\t' :: (decimal id ++ " [shape=".toList ++ shape ++ "];".toList)

def graphvizLines (a : Automaton) : List (List Char) :=
  "digraph nfa \x7b".toList :: "\trankdir=LR;".toList :: shapeText a.start "box".toList ::
    shapeText a.accept "doublecircle".toList :: (a.edgeList.map Edge.line ++ ["\x7d".toList])

theorem edgeLine_eq (source : Nat) (label : Option Char) (target : Nat) :
    edgeLine source label target = (⟨source, label, target⟩ : Edge).line ++ ['\n'] := by
  have hend : "\"];\n".toList = "\"];".toList ++ ['\n'] := by decide
  simp only [edgeLine, Edge.line, hend, List.cons_append, List.append_assoc]

theorem edgeLines_eq (id : Nat) (s : State) : edgeLines id s = (s.edgesFrom id).flatMap fun e => e.line ++ ['\n'] := by
  rw [edgeLines, State.edgesFrom, List.flatMap_map]
  exact congrArg (List.flatMap · s.edges) (funext (edgeLine_eq id s.label))

theorem graphviz_eq_lines (a : Automaton) : a.graphviz = a.graphvizLines.flatMap fun line => line ++ ['\n'] := by
  have hheader : "digraph nfa \x7b\n\trankdir=LR;\n".toList =
      "digraph nfa \x7b".toList ++ '\n' :: ("\trankdir=LR;".toList ++ ['\n']) := by decide
  have hshape : "];\n".toList = "];".toList ++ ['\n'] := by decide
  have hend : "\x7d\n".toList = "\x7d".toList ++ ['\n'] := by decide
  unfold graphviz graphvizLines
  simp only [edgeList, edgeLines_eq, hheader, hshape, hend, shapeLine, shapeText, List.flatMap_cons, List.flatMap_append,
    List.flatMap_map, List.flatMap_assoc, List.append_assoc, List.cons_append, List.nil_append, List.flatMap_nil]

theorem newline_not_mem_shapeText (id : Nat) {shape : List Char} (h : '\n' ∉ shape) : '\n' ∉ shapeText id shape := by
  simp only [shapeText, List.mem_cons, List.mem_append, not_or]
  exact ⟨by decide, ⟨⟨newline_not_mem_decimal id, by decide⟩, h⟩, by decide⟩

theorem shapeText_injective {id id' : Nat} {shape : List Char} (h : shapeText id shape = shapeText id' shape) :
    id = id' := by
  simp only [shapeText, List.append_assoc, List.cons.injEq, true_and] at h
  exact (recover_decimal_append (by decide) h).1

theorem newline_not_mem_of_mem_graphvizLines {line : List Char} (h : line ∈ a.graphvizLines) : '\n' ∉ line := by
  simp only [graphvizLines, List.mem_cons, List.mem_append, List.mem_map, List.not_mem_nil, or_false] at h
  rcases h with rfl | rfl | rfl | rfl | ⟨e, -, rfl⟩ | rfl
  · decide
  · decide
  · exact newline_not_mem_shapeText _ (by decide)
  · exact newline_not_mem_shapeText _ (by decide)
  · exact e.newline_not_mem_line
  · decide

/-- **The lines of the text are where its line breaks are.** -/
theorem splitOn_graphviz (a : Automaton) : a.graphviz.splitOn '\n' = a.graphvizLines ++ [[]] := by
  rw [graphviz_eq_lines, splitOn_lines fun _ => newline_not_mem_of_mem_graphvizLines]

/-- **The text determines the distinguished states and the edges.** -/
theorem edgeList_eq_of_graphviz_eq (h : a.graphviz = b.graphviz) :
    a.start = b.start ∧ a.accept = b.accept ∧ a.edgeList = b.edgeList := by
  have hlines : a.graphvizLines = b.graphvizLines := by
    have hsplit := congrArg (List.splitOn '\n') h
    rw [splitOn_graphviz, splitOn_graphviz] at hsplit
    exact List.append_cancel_right hsplit
  simp only [graphvizLines, List.cons.injEq, true_and] at hlines
  obtain ⟨hstart, haccept, hedges⟩ := hlines
  refine ⟨shapeText_injective hstart, shapeText_injective haccept, ?_⟩
  exact (List.map_inj_right fun _ _ => Edge.line_injective).1 (List.append_cancel_right hedges)

end Automaton

namespace Construction

theorem state?_accept_of_build {limit : Option Nat} {ts : List Token} {a : Automaton} (h : build limit ts = .ok a) :
    a.state? a.accept = some (.silent []) := by
  obtain ⟨e, -, rfl⟩ := exists_expr_of_build h
  exact Automaton.state?_accept e

/-- **The drawing of a finished automaton is lossless, and its labels cannot break the quoting.**  No two of them have
the same text.  The text has one line for each edge, with the label between double quotes; that label has no line break
and no quote without a backslash that escapes it, and it is the bare `ε` exactly if the edge is silent. -/
theorem graphviz_injective_of_build {limit limit' : Option Nat} {ts us : List Token} {a b : Automaton}
    (ha : build limit ts = .ok a) (hb : build limit' us = .ok b) :
    (a.graphviz = b.graphviz → a = b) ∧
    (a.graphviz.splitOn '\n' = "digraph nfa \x7b".toList :: "\trankdir=LR;".toList ::
      Automaton.shapeText a.start "box".toList :: Automaton.shapeText a.accept "doublecircle".toList ::
        ((a.edgeList.map fun e => '\t' :: (decimal e.source ++ " -> ".toList ++ decimal e.target ++
          " [label=\"".toList ++ Automaton.edgeLabel e.label ++ "\"];".toList)) ++ ["\x7d".toList, []])) ∧
    ∀ e, (e ∈ a.edgeList ↔ a.HasEdge e.source e.label e.target) ∧ Shielded (Automaton.edgeLabel e.label) ∧
      (Automaton.edgeLabel e.label = ['ε'] ↔ e.label = none) := by
  refine ⟨fun h => ?_, ?_, fun e => ⟨Automaton.mem_edgeList, Automaton.shielded_edgeLabel _,
    Automaton.edgeLabel_eq_epsilon_iff⟩⟩
  · obtain ⟨hstart, haccept, hedges⟩ := Automaton.edgeList_eq_of_graphviz_eq h
    exact Automaton.eq_of_edgeList_eq (hasShape_of_build ha).edges_eq_nil_iff (hasShape_of_build hb).edges_eq_nil_iff
      (state?_accept_of_build ha) (state?_accept_of_build hb) hstart haccept hedges
  · rw [Automaton.splitOn_graphviz, Automaton.graphvizLines]
    simp only [List.cons_append]
    rw [List.append_assoc]
    rfl

theorem graphviz_injective_of_build_quote :
    ∃ a b : Automaton, build none [.literal '"', .literal '\n', .connective .concat] = .ok a ∧
      build (some 4) [.literal '"', .literal 'n', .connective .concat] = .ok b ∧ a.graphviz ≠ b.graphviz ∧
      a.HasEdge 1 (some '"') 0 ∧ Shielded (Automaton.edgeLabel (some '"')) ∧
      Automaton.edgeLabel (some 'ε') ≠ ['ε'] := by
  have ha : build none [.literal '"', .literal '\n', .connective .concat] =
      .ok ⟨#[.silent [3], .consuming '"' 0, .silent [], .consuming '\n' 2], 1, 2⟩ := rfl
  have hb : build (some 4) [.literal '"', .literal 'n', .connective .concat] =
      .ok ⟨#[.silent [3], .consuming '"' 0, .silent [], .consuming 'n' 2], 1, 2⟩ := rfl
  obtain ⟨hinjective, -, hedges⟩ := graphviz_injective_of_build ha hb
  obtain ⟨hmem, hshielded, -⟩ := hedges ⟨1, some '"', 0⟩
  exact ⟨_, _, ha, hb, fun heq => absurd (hinjective heq) (by decide), hmem.1 (by decide), hshielded,
    fun heq => absurd ((hedges ⟨1, some 'ε', 0⟩).2.2.1 heq) nofun⟩

end Construction
end Regular
