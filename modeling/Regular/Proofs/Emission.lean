import Mathlib.Data.List.Sort
import Regular.Pattern.Emission
import Regular.Proofs.Refusal
import Regular.Proofs.Reordering
/-!
# Emission — the order in which infix text is read

After part of a text the reader has emitted the operators that are complete by then, and the others wait in the order
in which they stand (`Reader.Accounts`).  Within one group the operators that wait bind the more tightly the later they
stand, so the character that completes one of them completes all that wait above it and none below.  What arrives may
be an operator, the end of a group or the end of the text: each time the reader takes off the same upper part of what
waits (`Accounts.emit`).
-/
namespace Regular
namespace Pattern

/-! ## The order of the emissions -/

instance : Std.Irrefl Emission.Before := ⟨fun _ h => h.asymm h⟩

instance : Std.Antisymm Emission.Before := ⟨fun _ _ h h' => absurd h' h.asymm⟩

theorem InOrder.unique {s : List Char} {es es' : List Emission} (h : InOrder s es) (h' : InOrder s es') : es = es' :=
  h.sorted.eq_of_mem_iff h'.sorted fun x => (h.mem_iff x).trans (h'.mem_iff x).symm

/-- Every token of a text is emitted, if not before then at the end. -/
theorem exists_isOf {s : List Char} {p : Nat} {t : Token} (h : s[p]?.bind Token.ofChar? = some t) :
    ∃ e, Emission.IsOf s ⟨p, t, e⟩ := by
  classical
  obtain ⟨c, hc, hread⟩ := Option.bind_eq_some_iff.1 h
  obtain rfl := Token.char_of_ofChar? hread
  cases hop : t.isOperator with
  | false =>
    cases t with
    | literal c => exact ⟨p, .literal hc (Token.isWritable_of_ofChar? hread)⟩
    | quantifier | connective => cases hop
  | true =>
    have hsome : ∃ e, p < e ∧ Completed s t p e := ⟨s.length, (List.getElem?_eq_some_iff.1 hc).1, .stop rfl⟩
    obtain ⟨hlt, hend⟩ := Nat.find_spec hsome
    exact ⟨Nat.find hsome, .operator hop hc hlt hend fun e hpe he h => Nat.find_min hsome he ⟨hpe, h⟩⟩

/-! ## What a part of the text tells -/

/-- The operator is complete at a position of the text, as far as the text before that position tells. -/
inductive CompletedIn (t : List Char) (op : Token) (p e : Nat) : Prop where
  | operator {next : Token} (hnext : next.isOperator = true) (hc : t[e]? = some next.char) (hsame : SameOpen t p e)
      (hle : next.precedence ≤ op.precedence)
  | close (hc : t[e]? = some ')') (hsame : SameOpen t p e)

/-- The token is emitted before the text ends. -/
inductive EmittedIn (t : List Char) : Emission → Prop where
  | literal {c : Char} {p : Nat} (hc : t[p]? = some c) (h : c ∉ Token.reserved) : EmittedIn t ⟨p, .literal c, p⟩
  | operator {op : Token} {p e : Nat} (hop : op.isOperator = true) (hc : t[p]? = some op.char) (hlt : p < e)
      (h : CompletedIn t op p e) (first : ∀ e', p < e' → e' < e → ¬CompletedIn t op p e') : EmittedIn t ⟨p, op, e⟩

theorem CompletedIn.lt_length {t : List Char} {op : Token} {p e : Nat} (h : CompletedIn t op p e) : e < t.length := by
  cases h with
  | operator _ hc => exact (List.getElem?_eq_some_iff.1 hc).1
  | close hc => exact (List.getElem?_eq_some_iff.1 hc).1

theorem sameOpen_append {t u : List Char} {p q : Nat} (hp : p ≤ t.length) (hq : q ≤ t.length) :
    SameOpen (t ++ u) p q ↔ SameOpen t p q := by
  rw [SameOpen, SameOpen, List.take_append_of_le_length hp, List.take_append_of_le_length hq]

/-- What is complete at a position does not depend on what follows it. -/
theorem completedIn_append {t u : List Char} {op : Token} {p e : Nat} (hpe : p < e) (he : e < t.length) :
    CompletedIn (t ++ u) op p e ↔ CompletedIn t op p e := by
  have hchar : (t ++ u)[e]? = t[e]? := List.getElem?_append_left he
  have hsame : SameOpen (t ++ u) p e ↔ SameOpen t p e := sameOpen_append (by omega) (by omega)
  constructor
  · rintro (⟨hnext, hc, hs, hle⟩ | ⟨hc, hs⟩)
    · exact .operator hnext (hchar ▸ hc) (hsame.1 hs) hle
    · exact .close (hchar ▸ hc) (hsame.1 hs)
  · rintro (⟨hnext, hc, hs, hle⟩ | ⟨hc, hs⟩)
    · exact .operator hnext (hchar.trans hc) (hsame.2 hs) hle
    · exact .close (hchar.trans hc) (hsame.2 hs)

namespace EmittedIn
variable {t : List Char} {x : Emission}

theorem time_lt (h : EmittedIn t x) : x.time < t.length := by
  cases h with
  | literal hc => exact (List.getElem?_eq_some_iff.1 hc).1
  | operator _ _ _ h => exact h.lt_length

theorem append (h : EmittedIn t x) (u : List Char) : EmittedIn (t ++ u) x := by
  cases h with
  | literal hc hr =>
    exact .literal ((List.getElem?_append_left (List.getElem?_eq_some_iff.1 hc).1).trans hc) hr
  | operator hop hc hlt h first =>
    have he := h.lt_length
    refine .operator hop ((List.getElem?_append_left (Nat.lt_trans hlt he)).trans hc) hlt
      ((completedIn_append hlt he).2 h) fun e' hpe hee h' => ?_
    exact first e' hpe hee ((completedIn_append hpe (Nat.lt_trans hee he)).1 h')

end EmittedIn

/-! ## What waits, with the positions -/

/-- The entries wait in the order in which they stand, the latest first.  The groups below an operator are those open
where it stands; the operator right below it binds less tightly; and no character since has completed it. -/
inductive Waiting (t : List Char) : List (Nat × Pending) → Prop where
  | nil : Waiting t []
  | group {p : Nat} {below : List (Nat × Pending)} (h : Waiting t below) (hbelow : ∀ w ∈ below, w.1 < p)
      (hc : t[p]? = some '(') : Waiting t ((p, .group p) :: below)
  | operator {op : Token} {p : Nat} {below : List (Nat × Pending)} (h : Waiting t below)
      (hbelow : ∀ w ∈ below, w.1 < p) (hop : op.isOperator = true) (hc : t[p]? = some op.char)
      (hopen : OpenGroups (groups (below.map (·.2))) (t.take p)) (hrises : WaitsBelow op.precedence (below.map (·.2)))
      (hwaits : ∀ e, p < e → ¬CompletedIn t op p e) : Waiting t ((p, .operator op) :: below)

/-- Operators that wait, with their positions. -/
def waitingOperators (us : List (Nat × Token)) : List (Nat × Pending) := us.map fun u => (u.1, .operator u.2)

/-- The emissions of these operators at a time. -/
def emissionsAt (time : Nat) (us : List (Nat × Token)) : List Emission := us.map fun u => ⟨u.1, u.2, time⟩

theorem exists_waitingOperators {rest : List Pending} : ∀ {ops : List Token} {ws : List (Nat × Pending)},
    ws.map (·.2) = ops.map .operator ++ rest →
      ∃ us ws', ws = waitingOperators us ++ ws' ∧ us.map (·.2) = ops ∧ ws'.map (·.2) = rest
  | [], ws, h => ⟨[], ws, rfl, rfl, h⟩
  | op :: ops, (p, w) :: ws, h => by
    obtain ⟨rfl, hrest⟩ := List.cons.inj h
    obtain ⟨us, ws', rfl, rfl, rfl⟩ := exists_waitingOperators hrest
    exact ⟨(p, op) :: us, ws', rfl, rfl, rfl⟩

theorem map_waitingOperators (us : List (Nat × Token)) (ws : List (Nat × Pending)) :
    (waitingOperators us ++ ws).map (·.2) = (us.map (·.2)).map .operator ++ ws.map (·.2) := by
  simp [waitingOperators]

theorem groups_waitingOperators (us : List (Nat × Token)) (ws : List (Nat × Pending)) :
    groups ((waitingOperators us ++ ws).map (·.2)) = groups (ws.map (·.2)) := by
  rw [map_waitingOperators, groups_operators]

namespace Waiting
variable {t : List Char} {ws : List (Nat × Pending)}

theorem lt_length (h : Waiting t ws) : ∀ w ∈ ws, w.1 < t.length := by
  induction h with
  | nil => exact List.forall_mem_nil _
  | group _ _ hc ih => exact List.forall_mem_cons.2 ⟨(List.getElem?_eq_some_iff.1 hc).1, ih⟩
  | operator _ _ _ hc _ _ _ ih => exact List.forall_mem_cons.2 ⟨(List.getElem?_eq_some_iff.1 hc).1, ih⟩

/-- What no further character completes waits on. -/
theorem snoc (h : Waiting t ws) {c : Char}
    (hnot : ∀ p op, (p, .operator op) ∈ ws → ¬CompletedIn (t ++ [c]) op p t.length) : Waiting (t ++ [c]) ws := by
  induction h with
  | nil => exact .nil
  | group _ hbelow hc ih =>
    have hlt := (List.getElem?_eq_some_iff.1 hc).1
    exact .group (ih fun p op hmem => hnot p op (List.mem_cons_of_mem _ hmem)) hbelow
      ((List.getElem?_append_left hlt).trans hc)
  | @operator op p below _ hbelow hop hc hopen hrises hwaits ih =>
    have hlt := (List.getElem?_eq_some_iff.1 hc).1
    refine .operator (ih fun p op hmem => hnot p op (List.mem_cons_of_mem _ hmem)) hbelow hop
      ((List.getElem?_append_left hlt).trans hc) ?_ hrises fun e hpe he => ?_
    · rwa [List.take_append_of_le_length (Nat.le_of_lt hlt)]
    · have hle := he.lt_length
      rw [List.length_append, List.length_singleton] at hle
      rcases Nat.lt_or_eq_of_le (Nat.le_of_lt_succ hle) with hlt' | rfl
      · exact hwaits e hpe ((completedIn_append hpe hlt').1 he)
      · exact hnot p op List.mem_cons_self he

/-- **What binds most tightly waits last**: the operators that wait in the innermost group all bind less tightly than a
bound if the last one does. -/
theorem precedence_lt (h : Waiting t ws) {bound : Nat} (hopen : ∀ i ∈ groups (ws.map (·.2)), Unclosed t i)
    (hbound : WaitsBelow bound (ws.map (·.2))) {p : Nat} {op : Token} (hmem : (p, .operator op) ∈ ws)
    (hsame : ∀ i, Unclosed t i → Unclosed (t.take p) i) : op.precedence < bound := by
  induction h generalizing bound with
  | nil => cases hmem
  | @group g below _ hbelow _ _ =>
    -- the group opens after the operator, so it is not among those open where the operator stands
    have hin : (p, .operator op) ∈ below := (List.mem_cons.1 hmem).resolve_left (by simp)
    have hlt := (hsame g (hopen g List.mem_cons_self)).lt_of_take.1
    exact absurd (hbelow _ hin) (Nat.lt_asymm hlt)
  | operator _ _ _ _ _ hrises _ ih =>
    rcases List.mem_cons.1 hmem with heq | hin
    · cases heq
      exact hbound
    · exact Nat.lt_trans (ih hopen hrises hin) hbound

/-- Operators above the rest of what waits stand after it, in a group that is open where each of them stands. -/
theorem upper : ∀ {us : List (Nat × Token)}, Waiting t (waitingOperators us ++ ws) →
    Waiting t ws ∧ us.Pairwise (fun u v => v.1 < u.1) ∧ ∀ u ∈ us, u.2.isOperator = true ∧ t[u.1]? = some u.2.char ∧
      OpenGroups (groups (ws.map (·.2))) (t.take u.1) ∧ ∀ e, u.1 < e → ¬CompletedIn t u.2 u.1 e
  | [], h => ⟨h, .nil, List.forall_mem_nil _⟩
  | (p, op) :: us, h => by
    cases h with
    | operator h hbelow hop hc hopen _ hwaits =>
      obtain ⟨hws, hsorted, hus⟩ := upper h
      have hopen : OpenGroups (groups (ws.map (·.2))) (t.take p) := groups_waitingOperators us ws ▸ hopen
      refine ⟨hws, List.pairwise_cons.2 ⟨fun v hv => ?_, hsorted⟩,
        List.forall_mem_cons.2 ⟨⟨hop, hc, hopen, hwaits⟩, hus⟩⟩
      exact hbelow (v.1, .operator v.2) (List.mem_append_left _ (List.mem_map_of_mem hv))

end Waiting

/-! ## What the reader has done with the text -/

def literals (ts : List Token) : List Token := ts.filter fun t => !t.isOperator

theorem literals_append (ts us : List Token) : literals (ts ++ us) = literals ts ++ literals us :=
  List.filter_append ..

theorem literals_append_operators {ts us : List Token} (h : ∀ t ∈ us, t.isOperator = true) :
    literals (ts ++ us) = literals ts := by
  have hnone : literals us = [] := List.filter_eq_nil_iff.2 fun t ht => by simp [h t ht]
  rw [literals_append, hnone, List.append_nil]

theorem literals_filterMap_concat {t : List Char} {c : Char} (h : ∀ tok ∈ Token.ofChar? c, tok.isOperator = true) :
    literals ((t ++ [c]).filterMap Token.ofChar?) = literals (t.filterMap Token.ofChar?) := by
  rw [List.filterMap_append]
  refine literals_append_operators fun tok htok => ?_
  obtain ⟨d, hd, hread⟩ := List.mem_filterMap.1 htok
  exact h tok (List.mem_singleton.1 hd ▸ hread)

/-- After the text the reader has emitted, in their order, the tokens that are complete, and the others wait. -/
structure Reader.Accounts (r : Reader) (t : List Char) (es : List Emission) (ws : List (Nat × Pending)) : Prop where
  emitted : r.emitted = (es.map (·.token)).reverse
  pending : r.pending = ws.map (·.2)
  emits : ∀ x ∈ es, EmittedIn t x
  sorted : es.Pairwise Emission.Before
  waiting : Waiting t ws
  literals : literals (es.map (·.token)) = literals (t.filterMap Token.ofChar?)
  covers : ∀ p c, t[p]? = some c → c ≠ '(' ∧ c ≠ ')' → (∃ x ∈ es, x.position = p) ∨ ∃ op, (p, .operator op) ∈ ws

/-! ## One character -/

theorem sameOpen_last {t : List Char} {positions : List Nat} {p : Nat} (h : OpenGroups positions (t.take p))
    (h' : OpenGroups positions t) (hp : p ≤ t.length) (u : List Char) : SameOpen (t ++ u) p t.length := by
  intro i
  rw [List.take_append_of_le_length hp, List.take_left, ← h.mem_iff i, h'.mem_iff i]

theorem eq_of_char_eq {op next : Token} (hop : op.isOperator = true) (hnext : next.isOperator = true)
    (h : op.char = next.char) : op = next := by
  have hread := Token.ofChar?_operator hop
  rw [h, Token.ofChar?_operator hnext] at hread
  exact (Option.some.inj hread).symm

theorem char_not_parenthesis {op : Token} (hop : op.isOperator = true) : op.char ≠ '(' ∧ op.char ≠ ')' := by
  have hsign := Token.exists_operator_iff.1 ⟨op, hop, rfl⟩
  exact ⟨ne_of_mem_of_not_mem hsign (by decide), ne_of_mem_of_not_mem hsign (by decide)⟩

theorem char_mem_reserved {op : Token} (hop : op.isOperator = true) : op.char ∈ Token.reserved :=
  List.mem_cons_of_mem _ (List.mem_cons_of_mem _ (Token.exists_operator_iff.1 ⟨op, hop, rfl⟩))

theorem getElem?_concat_cases {t : List Char} {c d : Char} {p : Nat} (h : (t ++ [c])[p]? = some d) :
    t[p]? = some d ∨ p = t.length ∧ d = c := by
  rcases Nat.lt_or_ge p t.length with hlt | hge
  · exact .inl ((List.getElem?_append_left hlt).symm.trans h)
  · have hlen := (List.getElem?_eq_some_iff.1 h).1
    rw [List.length_append, List.length_singleton] at hlen
    obtain rfl : p = t.length := by omega
    exact .inr ⟨rfl, Option.some.inj (h.symm.trans List.getElem?_concat_length)⟩

section CompletedIn
variable {t : List Char} {op : Token} {p : Nat} {c : Char}

/-- The last character completes an operator only if every parenthesis that is open at the end was open there. -/
theorem CompletedIn.unclosed_take (h : CompletedIn (t ++ [c]) op p t.length) (hp : p ≤ t.length) {i : Nat}
    (hi : Unclosed t i) : Unclosed (t.take p) i := by
  have hsame : SameOpen (t ++ [c]) p t.length := by cases h <;> assumption
  have hi' := (hsame i).2 (by rwa [List.take_left])
  rwa [List.take_append_of_le_length hp] at hi'

theorem CompletedIn.close_or_operator (h : CompletedIn (t ++ [c]) op p t.length) :
    c = ')' ∨ ∃ next : Token, next.isOperator = true ∧ c = next.char ∧ next.precedence ≤ op.precedence := by
  cases h with
  | operator hnext hc _ hle =>
    rw [List.getElem?_concat_length] at hc
    exact .inr ⟨_, hnext, Option.some.inj hc, hle⟩
  | close hc =>
    rw [List.getElem?_concat_length] at hc
    exact .inl (Option.some.inj hc)

theorem not_completedIn (hclose : c ≠ ')') (hop : ∀ next : Token, next.isOperator = true → c ≠ next.char) :
    ¬CompletedIn (t ++ [c]) op p t.length := by
  intro h
  rcases h.close_or_operator with hc | ⟨next, hnext, hc, -⟩
  · exact hclose hc
  · exact hop next hnext hc

end CompletedIn

theorem sorted_append_emissionsAt {es : List Emission} {us : List (Nat × Token)} {n : Nat}
    (hes : es.Pairwise Emission.Before) (hbefore : ∀ x ∈ es, x.time < n) (hus : us.Pairwise (fun u v => v.1 < u.1)) :
    (es ++ emissionsAt n us).Pairwise Emission.Before := by
  refine List.pairwise_append.2 ⟨hes, List.pairwise_map.2 (hus.imp fun h => .inr ⟨rfl, h⟩), fun x hx y hy => .inl ?_⟩
  obtain ⟨u, -, rfl⟩ := List.mem_map.1 hy
  exact hbefore x hx

namespace Reader.Accounts
variable {r : Reader} {t : List Char} {es : List Emission} {us : List (Nat × Token)} {ws : List (Nat × Pending)}
  {c : Char}

theorem start : Reader.start.Accounts [] [] [] :=
  ⟨rfl, rfl, List.forall_mem_nil _, .nil, .nil, rfl, nofun⟩

/-- **Operators that the last character completes are emitted in their order**, after all that were emitted before. -/
theorem emit (h : r.Accounts t es (waitingOperators us ++ ws))
    (hdone : ∀ u ∈ us, CompletedIn (t ++ [c]) u.2 u.1 t.length) :
    (∀ x ∈ es ++ emissionsAt t.length us, EmittedIn (t ++ [c]) x) ∧
      (es ++ emissionsAt t.length us).Pairwise Emission.Before := by
  obtain ⟨-, hsorted, hus⟩ := h.waiting.upper
  refine ⟨fun x hx => ?_, sorted_append_emissionsAt h.sorted (fun x hx => (h.emits x hx).time_lt) hsorted⟩
  rcases List.mem_append.1 hx with hx | hx
  · exact (h.emits x hx).append [c]
  · obtain ⟨u, hu, rfl⟩ := List.mem_map.1 hx
    obtain ⟨hop, hc, -, hwaits⟩ := hus u hu
    have hlt := (List.getElem?_eq_some_iff.1 hc).1
    exact .operator hop ((List.getElem?_append_left hlt).trans hc) hlt (hdone u hu)
      fun e hpe he hcomplete => hwaits e hpe ((completedIn_append hpe he).1 hcomplete)

/-- What was accounted for still is when operators are emitted. -/
theorem covers_emit (h : r.Accounts t es (waitingOperators us ++ ws)) (n : Nat) {p : Nat} {d : Char}
    (hd : t[p]? = some d) (hpar : d ≠ '(' ∧ d ≠ ')') :
    (∃ x ∈ es ++ emissionsAt n us, x.position = p) ∨ ∃ op, (p, .operator op) ∈ ws := by
  rcases h.covers p d hd hpar with ⟨x, hx, hxp⟩ | ⟨op, hop⟩
  · exact .inl ⟨x, List.mem_append_left _ hx, hxp⟩
  · rcases List.mem_append.1 hop with hus | hws
    · obtain ⟨u, hu, heq⟩ := List.mem_map.1 hus
      refine .inl ⟨⟨u.1, u.2, n⟩, List.mem_append_right _ (List.mem_map_of_mem hu), ?_⟩
      exact congrArg Prod.fst heq
    · exact .inr ⟨op, hws⟩

theorem emitted_emit (h : r.Accounts t es ws) (n : Nat) (us : List (Nat × Token)) :
    ((es ++ emissionsAt n us).map (·.token)).reverse = (us.map (·.2)).reverse ++ r.emitted := by
  rw [h.emitted, List.map_append, List.reverse_append, emissionsAt, List.map_map]
  rfl

theorem literals_emit (h : r.Accounts t es (waitingOperators us ++ ws)) (n : Nat) :
    Pattern.literals ((es ++ emissionsAt n us).map (·.token)) = Pattern.literals (t.filterMap Token.ofChar?) := by
  obtain ⟨-, -, hus⟩ := h.waiting.upper
  rw [List.map_append, ← h.literals]
  refine literals_append_operators fun tok htok => ?_
  rw [emissionsAt, List.map_map] at htok
  obtain ⟨u, hu, rfl⟩ := List.mem_map.1 htok
  exact (hus u hu).1

theorem opens (h : r.Accounts t es ws) : Reader.Accounts ⟨r.emitted, .group t.length :: r.pending, true⟩ (t ++ ['('])
    es ((t.length, .group t.length) :: ws) where
  emitted := h.emitted
  pending := congrArg _ h.pending
  emits x hx := (h.emits x hx).append _
  sorted := h.sorted
  waiting := by
    refine .group (h.waiting.snoc fun p op _ => ?_) h.waiting.lt_length List.getElem?_concat_length
    exact not_completedIn (by decide) fun next hnext => (char_not_parenthesis hnext).1.symm
  literals := by
    rw [h.literals, literals_filterMap_concat (c := '(') fun tok htok => (Option.not_mem_none tok htok).elim]
  covers p d hd hpar := by
    rcases getElem?_concat_cases hd with hd | ⟨-, rfl⟩
    · exact (h.covers p d hd hpar).imp_right fun ⟨op, hop⟩ => ⟨op, List.mem_cons_of_mem _ hop⟩
    · exact absurd rfl hpar.1

theorem literal (h : r.Accounts t es ws) (hc : c ∉ Token.reserved) :
    Reader.Accounts ⟨.literal c :: r.emitted, r.pending, false⟩ (t ++ [c])
      (es ++ [⟨t.length, .literal c, t.length⟩]) ws where
  emitted := by simp [h.emitted]
  pending := h.pending
  emits x hx := by
    rcases List.mem_append.1 hx with hx | hx
    · exact (h.emits x hx).append _
    · cases List.mem_singleton.1 hx
      exact .literal List.getElem?_concat_length hc
  sorted := by
    refine List.pairwise_append.2 ⟨h.sorted, List.pairwise_singleton _ _, fun x hx y hy => .inl ?_⟩
    cases List.mem_singleton.1 hy
    exact (h.emits x hx).time_lt
  waiting := by
    refine h.waiting.snoc fun p op _ => not_completedIn (fun hclose => ?_) fun next hnext hop => ?_
    · exact hc (hclose ▸ by decide)
    · subst hop
      exact hc (char_mem_reserved hnext)
  literals := by
    have hread : Token.ofChar? c = some (.literal c) := Token.ofChar?_literal hc
    rw [List.map_append, literals_append, h.literals, List.filterMap_append, literals_append,
      List.filterMap_cons_some hread]
    rfl
  covers p d hd hpar := by
    rcases getElem?_concat_cases hd with hd | ⟨rfl, -⟩
    · exact (h.covers p d hd hpar).imp_left fun ⟨x, hx, hxp⟩ => ⟨x, List.mem_append_left _ hx, hxp⟩
    · exact .inl ⟨_, List.mem_append_right _ List.mem_cons_self, rfl⟩

/-- **The end of a group emits what waits in it**, the last operator first. -/
theorem closes (h : r.Accounts t es ws) (hopen : OpenGroups (groups r.pending) t) {emitted : List Token}
    {pending : List Pending} (hclose : closeGroup r.pending r.emitted = some (emitted, pending)) :
    ∃ es' ws', Reader.Accounts ⟨emitted, pending, false⟩ (t ++ [')']) es' ws' := by
  obtain ⟨ops, g, hpending, rfl⟩ := closeGroup_eq_some hclose
  obtain ⟨us, ws₁, rfl, rfl, hrest⟩ := exists_waitingOperators (h.pending.symm.trans hpending)
  obtain ⟨⟨g', w⟩, ws', rfl, heq, rfl⟩ := List.map_eq_cons_iff.1 hrest
  obtain rfl : w = .group g := heq
  obtain ⟨hwaiting, -, hus⟩ := h.waiting.upper
  rw [h.pending, groups_waitingOperators] at hopen
  have hdone : ∀ u ∈ us, CompletedIn (t ++ [')']) u.2 u.1 t.length := fun u hu => by
    obtain ⟨-, hc, hin, -⟩ := hus u hu
    exact .close List.getElem?_concat_length
      (sameOpen_last hin hopen (Nat.le_of_lt (List.getElem?_eq_some_iff.1 hc).1) _)
  obtain ⟨hemits, hsorted⟩ := h.emit hdone
  refine ⟨_, ws', (h.emitted_emit t.length us).symm, rfl, hemits, hsorted, ?_, ?_, fun p d hd hpar => ?_⟩
  · -- the group starts after what waits below it, which its end does not concern
    have hbelow : Waiting t ws' := by cases hwaiting; assumption
    refine hbelow.snoc fun p op hmem hcomplete => ?_
    have hlt : p < t.length := hbelow.lt_length _ hmem
    have hloose : op.precedence < 0 := hwaiting.precedence_lt (fun i hi => (hopen.mem_iff i).1 hi) trivial
      (List.mem_cons_of_mem _ hmem) fun i hi => hcomplete.unclosed_take (Nat.le_of_lt hlt) hi
    exact absurd hloose (Nat.not_lt_zero _)
  · rw [h.literals_emit, literals_filterMap_concat (c := ')') fun tok htok => (Option.not_mem_none tok htok).elim]
  · rcases getElem?_concat_cases hd with hd | ⟨-, rfl⟩
    · exact (h.covers_emit t.length hd hpar).imp_right fun ⟨op, hop⟩ =>
        ⟨op, (List.mem_cons.1 hop).resolve_left (by simp)⟩
    · exact absurd rfl hpar.2

/-- **An operator emits those that wait in its group and bind as tightly**, the last one first, and waits itself. -/
theorem operator (h : r.Accounts t es ws) (hopen : OpenGroups (groups r.pending) t) {next : Token}
    (hnext : next.isOperator = true) (b : Bool) :
    ∃ es' ws', Reader.Accounts ⟨(release next r.pending r.emitted).1,
      .operator next :: (release next r.pending r.emitted).2, b⟩ (t ++ [next.char]) es' ws' := by
  obtain ⟨ops, rest, hpending, hrelease, hbelow, htight⟩ := release_split next r.pending r.emitted
  obtain ⟨us, ws', rfl, rfl, rfl⟩ := exists_waitingOperators (h.pending.symm.trans hpending)
  obtain ⟨hwaiting, -, hus⟩ := h.waiting.upper
  rw [h.pending, groups_waitingOperators] at hopen
  have hdone : ∀ u ∈ us, CompletedIn (t ++ [next.char]) u.2 u.1 t.length := fun u hu => by
    obtain ⟨-, hc, hin, -⟩ := hus u hu
    exact .operator hnext List.getElem?_concat_length
      (sameOpen_last hin hopen (Nat.le_of_lt (List.getElem?_eq_some_iff.1 hc).1) _)
      (htight u.2 (List.mem_map_of_mem hu))
  obtain ⟨hemits, hsorted⟩ := h.emit hdone
  rw [hrelease]
  refine ⟨_, (t.length, .operator next) :: ws', (h.emitted_emit t.length us).symm, rfl, hemits, hsorted, ?_, ?_,
    fun p d hd hpar => ?_⟩
  · have hrest : Waiting (t ++ [next.char]) ws' := hwaiting.snoc fun p op hmem hcomplete => by
      have hlt : p < t.length := hwaiting.lt_length _ hmem
      have hloose := hwaiting.precedence_lt (fun i hi => (hopen.mem_iff i).1 hi) hbelow hmem
        fun i hi => hcomplete.unclosed_take (Nat.le_of_lt hlt) hi
      rcases hcomplete.close_or_operator with hc | ⟨next', hnext', hc, hle⟩
      · exact (char_not_parenthesis hnext).2 hc
      · rw [eq_of_char_eq hnext hnext' hc] at hloose
        exact Nat.not_lt.2 hle hloose
    refine .operator hrest hwaiting.lt_length hnext List.getElem?_concat_length ?_ hbelow fun e hlt hcomplete => ?_
    · rwa [List.take_left]
    · have hle := hcomplete.lt_length
      rw [List.length_append, List.length_singleton] at hle
      omega
  · rw [h.literals_emit, literals_filterMap_concat fun tok htok => ?_]
    rw [Token.ofChar?_operator hnext] at htok
    cases htok
    exact hnext
  · rcases getElem?_concat_cases hd with hd | ⟨rfl, -⟩
    · exact (h.covers_emit t.length hd hpar).imp_right fun ⟨op, hop⟩ => ⟨op, List.mem_cons_of_mem _ hop⟩
    · exact .inr ⟨next, List.mem_cons_self⟩

/-- **Every character that is accepted keeps the account.** -/
theorem step {r' : Reader} (h : r.Accounts t es ws) (hopen : OpenGroups (groups r.pending) t)
    (hstep : Reader.Step r t.length c r') : ∃ es' ws', r'.Accounts (t ++ [c]) es' ws' := by
  cases hstep with
  | opens => exact ⟨_, _, h.opens⟩
  | closes hclose => exact h.closes hopen hclose
  | literal hc => exact ⟨_, _, h.literal hc⟩
  | quantifier q _ =>
    have hop : (Token.quantifier q).isOperator = true := rfl
    exact h.operator hopen hop false
  | connective k _ =>
    have hop : (Token.connective k).isOperator = true := rfl
    exact h.operator hopen hop true

theorem run : ∀ {cs t : List Char} {r r' : Reader} {es : List Emission} {ws : List (Nat × Pending)},
    r.Accounts t es ws → r.Reflects t → r.run t.length cs = .ok r' → ∃ es' ws', r'.Accounts (t ++ cs) es' ws'
  | [], t, r, r', es, ws, h, _, hrun => by
    cases hrun
    rw [List.append_nil]
    exact ⟨es, ws, h⟩
  | c :: cs, t, r, r', es, ws, h, hreflects, hrun => by
    obtain ⟨next, hnext, hrest⟩ := Reader.run_cons_eq_ok_iff.1 hrun
    have hstep := Reader.step_cases hnext
    obtain ⟨es', ws', h'⟩ := h.step hreflects.openGroups hstep
    rw [List.append_cons]
    exact h'.run (hreflects.step hstep) (by rwa [List.length_append])

end Reader.Accounts

/-! ## The whole text -/

section Accepted
variable {s : List Char} (hfree : FaultFree s) (hs : ∀ i, ¬Unclosed s i)
include hfree hs

omit hs in
theorem exists_openGroups {p : Nat} (hp : p ≤ s.length) : ∃ positions, OpenGroups positions (s.take p) := by
  obtain ⟨r, -, hreflects⟩ := exists_reader_of_no_fault hp fun q _ => hfree q
  exact ⟨_, hreflects.openGroups⟩

/-- **In a text that is accepted the characters before a position tell all** that its pairs of parentheses do. -/
theorem completed_iff {op : Token} {p e : Nat} (hop : op.isOperator = true) (hc : s[p]? = some op.char) (hlt : p < e)
    (he : e < s.length) : Completed s op p e ↔ CompletedIn s op p e := by
  obtain ⟨before, hbefore⟩ := exists_openGroups hfree (Nat.le_of_lt (Nat.lt_trans hlt he))
  obtain ⟨before', hbefore'⟩ := exists_openGroups hfree (Nat.le_of_lt he)
  have hp : s[p]? ≠ some '(' ∧ s[p]? ≠ some ')' := by
    simp only [hc, ne_eq, Option.some.injEq]
    exact char_not_parenthesis hop
  have hbeside : ∀ {next : Token}, next.isOperator = true → s[e]? = some next.char →
      (Beside s p e ↔ SameOpen s p e) := fun hnext hnextc => by
    refine beside_iff hs hbefore hbefore' hp.2 ?_
    simpa only [hnextc, ne_eq, Option.some.injEq] using (char_not_parenthesis hnext).2
  have hinner : s[e]? = some ')' → ((∃ i, Innermost s p i e) ↔ s[e]? = some ')' ∧ SameOpen s p e) := fun hclose =>
    innermost_iff hs hbefore' (fun hnil => hfree e _ (.noGroup hclose (hbefore'.eq_nil_iff.1 hnil))) hp hlt
  constructor
  · rintro (⟨hnext, hnextc, hb, hle⟩ | hi | rfl)
    · exact .operator hnext hnextc ((hbeside hnext hnextc).1 hb) hle
    · obtain ⟨hclose, hsame⟩ := (hinner hi.encloses.1.closes).1 ⟨_, hi⟩
      exact .close hclose hsame
    · exact absurd he (Nat.lt_irrefl _)
  · rintro (⟨hnext, hnextc, hsame, hle⟩ | ⟨hclose, hsame⟩)
    · exact .operator hnext hnextc ((hbeside hnext hnextc).2 hsame) hle
    · obtain ⟨i, hi⟩ := (hinner hclose).2 ⟨hclose, hsame⟩
      exact .close hi

theorem EmittedIn.isOf {x : Emission} (h : EmittedIn s x) : x.IsOf s := by
  cases h with
  | literal hc hr => exact .literal hc hr
  | operator hop hc hlt h first =>
    have he := h.lt_length
    refine .operator hop hc hlt ((completed_iff hfree hs hop hc hlt he).2 h) fun e' hpe hee h' => ?_
    exact first e' hpe hee ((completed_iff hfree hs hop hc hpe (Nat.lt_trans hee he)).1 h')

/-- An operator that waits to the end of the text is emitted there. -/
theorem isOf_stop {op : Token} {p : Nat} (hop : op.isOperator = true) (hc : s[p]? = some op.char)
    (hwaits : ∀ e, p < e → ¬CompletedIn s op p e) : Emission.IsOf s ⟨p, op, s.length⟩ := by
  refine .operator hop hc (List.getElem?_eq_some_iff.1 hc).1 (.stop rfl) fun e hpe he h => ?_
  exact hwaits e hpe ((completed_iff hfree hs hop hc hpe he).1 h)

end Accepted

/-- **Text that is accepted is read as the tokens of its emissions**, in their order. -/
theorem exists_inOrder_of_readInfix {s : List Char} {out : List Token} (h : readInfix s = .ok out) :
    ∃ es, InOrder s es ∧ out = es.map (·.token) ∧ literals out = literals (s.filterMap Token.ofChar?) := by
  obtain ⟨hfree, hs⟩ := exists_readInfix_iff.1 ⟨out, h⟩
  obtain ⟨r, hrun, hdrain⟩ := readInfix_eq_ok_iff.1 h
  obtain ⟨es, ws, haccount⟩ := Reader.Accounts.start.run .start hrun
  obtain ⟨ops, hpending, hreverse⟩ := drain_eq_ok hdrain
  rw [← List.append_nil (ops.map Pending.operator)] at hpending
  obtain ⟨us, ws', rfl, rfl, hnil⟩ := exists_waitingOperators (haccount.pending.symm.trans hpending)
  obtain rfl := List.map_eq_nil_iff.1 hnil
  obtain ⟨-, hsorted, hus⟩ := haccount.waiting.upper
  have hemits : ∀ x ∈ es ++ emissionsAt s.length us, x.IsOf s := fun x hx => by
    rcases List.mem_append.1 hx with hx | hx
    · exact (haccount.emits x hx).isOf hfree hs
    · obtain ⟨u, hu, rfl⟩ := List.mem_map.1 hx
      obtain ⟨hop, hc, -, hwaits⟩ := hus u hu
      exact isOf_stop hfree hs hop hc hwaits
  have hout : out = (es ++ emissionsAt s.length us).map (·.token) := by
    rw [← List.reverse_inj, hreverse, haccount.emitted_emit]
  refine ⟨es ++ emissionsAt s.length us, ⟨fun x => ⟨hemits x, fun hx => ?_⟩, ?_⟩, hout, ?_⟩
  · -- each position that has a token is among them, and it has one emission only
    obtain ⟨c, hc, hread⟩ := Option.bind_eq_some_iff.1 hx.ofChar?
    have hpar := mt Token.ofChar?_eq_none_iff.2 (by rw [hread]; nofun)
    rw [not_or] at hpar
    rcases haccount.covers_emit s.length hc hpar with ⟨y, hy, hyp⟩ | ⟨op, hop⟩
    · exact (hemits y hy).eq hx hyp ▸ hy
    · cases hop
  · exact sorted_append_emissionsAt haccount.sorted (fun x hx => (haccount.emits x hx).time_lt) hsorted
  · rw [hout]
    exact haccount.literals_emit s.length

/-- **The order in which the tokens of accepted text come out**, whether or not they can be built.  Each token of the
text has one emission, and the tokens come out in the order of these: none is lost or doubled, and the literals stay in
the order of the text. -/
theorem readInfix_eq_emissions {s : List Char} {out : List Token} (h : readInfix s = .ok out) :
    (∃! es, InOrder s es) ∧ (∀ es, InOrder s es → out = es.map (·.token)) ∧
      (∀ p t, s[p]?.bind Token.ofChar? = some t → ∃ x : Emission, x.IsOf s ∧ x.position = p ∧ x.token = t ∧
        ∀ y : Emission, y.IsOf s → y.position = p → y = x) ∧
      out.Perm (s.filterMap Token.ofChar?) ∧ literals out = literals (s.filterMap Token.ofChar?) := by
  obtain ⟨es, hes, hout, hliterals⟩ := exists_inOrder_of_readInfix h
  refine ⟨⟨es, hes, fun es' h' => h'.unique hes⟩, fun es' h' => h'.unique hes ▸ hout, fun p t ht => ?_,
    readInfix_perm h, hliterals⟩
  obtain ⟨e, he⟩ := exists_isOf ht
  exact ⟨_, he, rfl, rfl, fun y hy hyp => hy.eq he hyp⟩

theorem readInfix_eq_emissions_misplaced :
    readInfix ['a', '|', '(', 'b', '*', '|', ')', '.', 'c'] = .ok [.literal 'a', .literal 'b', .quantifier .star,
      .connective .alternate, .literal 'c', .connective .concat, .connective .alternate] ∧
    (∃! es, InOrder ['a', '|', '(', 'b', '*', '|', ')', '.', 'c'] es) ∧
      ∀ es, InOrder ['a', '|', '(', 'b', '*', '|', ')', '.', 'c'] es → es.map (·.token) = [.literal 'a', .literal 'b',
        .quantifier .star, .connective .alternate, .literal 'c', .connective .concat, .connective .alternate] := by
  have hread : readInfix ['a', '|', '(', 'b', '*', '|', ')', '.', 'c'] = .ok [.literal 'a', .literal 'b',
      .quantifier .star, .connective .alternate, .literal 'c', .connective .concat, .connective .alternate] := rfl
  obtain ⟨hunique, hout, -⟩ := readInfix_eq_emissions hread
  exact ⟨hread, hunique, fun es hes => (hout es hes).symm⟩

end Pattern
end Regular
