import Regular.Record
import Regular.Proofs.Decoding
/-!
# Recording — a record tells what was noted

What is noted of a run or of a construction is put on record as text.  The texts of two kinds of event differ at once,
and in a text of one kind every number ends where the words go on (`recover_decimal_append`).  So from its record a
reading can be told (`Reading.record_injective`), and so can an event of the construction, but for one thing: a literal
may be any character, so a record does not show whether `*` is the operator (`Construction.Event.shown_eq_of_record_eq`).
-/
namespace Regular

open Text

/-- **From its record a reading can be told.** -/
theorem Reading.record_injective {r r' : Reading} (h : r.record = r'.record) : r = r' := by
  obtain ⟨c, i, n⟩ := r
  obtain ⟨c', i', n'⟩ := r'
  have hmessage := congrArg Record.message h
  simp only [record, List.append_assoc, List.cons_append, List.append_cancel_left_eq, List.cons.injEq] at hmessage
  obtain ⟨rfl, hposition⟩ := hmessage
  obtain ⟨rfl, hactive⟩ := recover_decimal_append (by decide) hposition
  rw [decimal_injective (List.append_cancel_right hactive)]

namespace Construction
namespace Event

/-- What a record shows of an event: of a token only its character. -/
def shown : Event → Event
  | .token position t fragments => .token position (.literal t.char) fragments
  | event => event

/-- **From its record an event can be told**, but for what its token is besides a character. -/
theorem shown_eq_of_record_eq {e e' : Event} (h : e.record = e'.record) : e.shown = e'.shown := by
  have hlevel := congrArg Record.level h
  have hmessage := congrArg Record.message h
  cases e <;> cases e' <;>
    simp only [record, List.append_assoc, List.cons_append, List.append_cancel_left_eq] at hlevel hmessage
  case begun.begun count count' => rw [decimal_injective (List.append_cancel_right hmessage)]
  case token.token i t n i' t' n' =>
    obtain ⟨rfl, hchar⟩ := recover_decimal_append (by decide) hmessage
    obtain ⟨hchar, hfound⟩ := List.cons.inj hchar
    rw [decimal_injective (List.append_cancel_right (List.append_cancel_left hfound)), shown, shown, hchar]
  case finished.finished size start accept size' start' accept' =>
    obtain ⟨rfl, hstart⟩ := recover_decimal_append (by decide) hmessage
    obtain ⟨rfl, haccept⟩ := recover_decimal_append (by decide) hstart
    rw [decimal_injective haccept]
  -- the two ends differ in their words, and a token differs from both in its level
  case begun.finished => cases hmessage
  case finished.begun => cases hmessage
  all_goals cases hlevel

end Event
end Construction
end Regular
