import Regular.CommandLine.Report
import Regular.Proofs.Decoding
import Regular.Proofs.Shape
import Regular.Proofs.Simulation
/-!
# Report — all or nothing, and nothing ambiguous

A command that cannot compile its pattern puts nothing out.  Otherwise each input has a line of its own, for quoting
leaves no line break in it (`newline_not_mem_judgement`), and the line has a verdict because the automaton is closed.
The inputs can be read back from these lines: a quoted text ends where its own quotes say (`recoverable_quoted`), and what
follows it is then known, since for one automaton the verdict depends on the input alone (`verdictLines_injective`).  So
an input that imitates the line of another one cannot be taken for it, whichever characters are hidden.
-/
namespace Regular

open Text

theorem Pattern.isClosed_of_compile {limit : Option Nat} {p : Pattern} {a : Automaton} (h : p.compile limit = .ok a) :
    a.IsClosed := by
  unfold Pattern.compile at h
  cases htokens : p.tokens with
  | error fault =>
    rw [htokens] at h
    cases h
  | ok ts =>
    rw [htokens] at h
    exact Construction.isClosed_of_build h

namespace CommandLine
variable (hidden : Char → Bool)

/-- What is said of an input, on a line without its end. -/
def judgement (input : List Char) (accepted : Bool) : List Char :=
  quoted hidden '"' input ++ ": ".toList ++ verdict accepted

theorem newline_not_mem_judgement (input : List Char) (accepted : Bool) : '\n' ∉ judgement hidden input accepted := by
  simp only [judgement, List.mem_append, not_or]
  exact ⟨⟨newline_not_mem_quoted hidden (by decide) input, by decide⟩, by cases accepted <;> decide⟩

theorem verdictLine_eq (a : Automaton) (input : List Char) :
    verdictLine hidden a input = judgement hidden input (a.accepts? input == some true) ++ ['\n'] := rfl

/-- **The inputs can be read back from their lines.** -/
theorem verdictLines_injective (a : Automaton) : ∀ {inputs inputs' : List (List Char)},
    inputs.flatMap (verdictLine hidden a) = inputs'.flatMap (verdictLine hidden a) → inputs = inputs'
  | [], [], _ => rfl
  | [], _ :: _, h => by cases h
  | _ :: _, [], h => by cases h
  | input :: inputs, input' :: inputs', h => by
    simp only [List.flatMap_cons, verdictLine, List.append_assoc] at h
    -- Once the first inputs are known to be the same, so are their verdicts, and these cancel.
    obtain ⟨rfl, hrest⟩ := recoverable_quoted hidden (by decide) trivial trivial h
    have htail : inputs.flatMap (verdictLine hidden a) = inputs'.flatMap (verdictLine hidden a) := by
      simpa only [verdictLine, List.append_assoc, List.append_cancel_left_eq] using hrest
    rw [verdictLines_injective a htail]

theorem reportWith_of_not_compile {o : Options} {fault : PatternError} (h : o.source.compile o.limit = .error fault) :
    o.reportWith hidden = ⟨1, [], refusal o.pattern fault⟩ := by
  rw [Options.reportWith, h]

theorem reportWith_of_compile {o : Options} {a : Automaton} (h : o.source.compile o.limit = .ok a) :
    o.reportWith hidden = ⟨0, o.show hidden a ++ o.inputs.flatMap (verdictLine hidden a), []⟩ := by
  rw [Options.reportWith, h]

/-- **Each input has one line of its own, in order, with the verdict that the automaton has on it.** -/
theorem exists_lines {a : Automaton} (h : a.IsClosed) (inputs : List (List Char)) : ∃ lines : List (List Char),
    (inputs.flatMap (verdictLine hidden a) = lines.flatMap fun line => line ++ ['\n']) ∧ (∀ line ∈ lines, '\n' ∉ line) ∧
      lines.length = inputs.length ∧ ∀ (i : Nat) (input : List Char), inputs[i]? = some input →
        ∃ accepted, a.accepts? input = some accepted ∧ (accepted = true ↔ a.Accepts input) ∧
          lines[i]? = some (judgement hidden input accepted) := by
  refine ⟨inputs.map fun input => judgement hidden input (a.accepts? input == some true), ?_, fun line hline => ?_,
    List.length_map _, fun i input hinput => ?_⟩
  · rw [List.flatMap_map]
    exact congrArg (List.flatMap · inputs) (funext (verdictLine_eq hidden a))
  · obtain ⟨input, -, rfl⟩ := List.mem_map.1 hline
    exact newline_not_mem_judgement hidden input _
  · obtain ⟨accepted, haccepted, hiff⟩ := Automaton.accepts?_of_isClosed h input
    refine ⟨accepted, haccepted, hiff, ?_⟩
    rw [List.getElem?_map, hinput, Option.map_some, haccepted]
    cases accepted <;> rfl

/-- **A run of the command is all or nothing, and its verdicts are unambiguous.**  The pattern is read as postfix text if
the options ask for that, and else as infix text.  If it cannot be compiled within the limit, the exit code is 1 and
there is no output.  Otherwise the exit code is 0, and the output is the automaton, drawn or listed as the options ask,
and then one line for each input in order, which says `match` if a path of the automaton spells the input and `no match`
if none does; and no other inputs give the same output.  This holds whichever characters are hidden; the command hides
those of `isHidden`. -/
theorem report_all_or_nothing (o : Options) : (Request.run o).report = o.reportWith isHidden ∧
    (∀ fault, (if o.inPostfix then Pattern.inPostfix o.pattern else .inInfix o.pattern).compile o.limit = .error fault →
      (o.reportWith hidden).exitCode = 1 ∧ (o.reportWith hidden).output = []) ∧
    ∀ a, (if o.inPostfix then Pattern.inPostfix o.pattern else .inInfix o.pattern).compile o.limit = .ok a →
      (o.reportWith hidden).exitCode = 0 ∧
      (∃ lines : List (List Char),
        (o.reportWith hidden).output = (if o.asGraph then a.graphviz else a.listingWith hidden) ++
          (lines.flatMap fun line => line ++ ['\n']) ∧
        (∀ line ∈ lines, '\n' ∉ line) ∧ lines.length = o.inputs.length ∧
        ∀ (i : Nat) (input : List Char), o.inputs[i]? = some input →
          ∃ accepted, a.accepts? input = some accepted ∧ (accepted = true ↔ a.Accepts input) ∧
            lines[i]? = some (quoted hidden '"' input ++ ": ".toList ++
              if accepted then "match".toList else "no match".toList)) ∧
      ∀ inputs, (Options.reportWith hidden { o with inputs := inputs }).output = (o.reportWith hidden).output →
        inputs = o.inputs := by
  refine ⟨rfl, fun fault h => ?_, fun a h => ?_⟩
  · rw [reportWith_of_not_compile hidden h]
    exact ⟨rfl, rfl⟩
  · have hreport := reportWith_of_compile hidden h
    refine ⟨by rw [hreport], ?_, fun inputs heq => ?_⟩
    · obtain ⟨lines, hlines, hcontent⟩ := exists_lines hidden (Pattern.isClosed_of_compile h) o.inputs
      exact ⟨lines, by rw [hreport, hlines]; rfl, hcontent⟩
    · have hother : Options.reportWith hidden { o with inputs := inputs } =
          ⟨0, o.show hidden a ++ inputs.flatMap (verdictLine hidden a), []⟩ := reportWith_of_compile hidden h
      rw [hreport, hother] at heq
      exact verdictLines_injective hidden a (List.append_cancel_left heq)

/-- A pattern in postfix text that needs a fourth state, and one in infix text; of two inputs one is accepted, and the
other imitates the lines of two. -/
theorem report_all_or_nothing_imitated :
    (∃ o : Options, o = ⟨true, true, some 3, ['a', 'b', '.'], [['a', 'b']]⟩ ∧
      (Request.run o).report.exitCode = 1 ∧ (Request.run o).report.output = []) ∧
    ∃ o : Options, o = ⟨false, false, none, ['a', '.', 'b'], [['a', 'b'], "a\": no match\n\"b".toList]⟩ ∧
      (Request.run o).report.exitCode = 0 ∧
      (∃ lines : List (List Char), (Request.run o).report.output =
          Automaton.listing ⟨#[.silent [3], .consuming 'a' 0, .silent [], .consuming 'b' 2], 1, 2⟩ ++
            (lines.flatMap fun line => line ++ ['\n']) ∧
        lines[0]? = some "\"ab\": match".toList ∧
        lines[1]? = some "\"a\\\": no match\\n\\\"b\": no match".toList) ∧
      (Request.run { o with inputs := [['a', 'b'], ['a'], ['b']] }).report.output ≠ (Request.run o).report.output := by
  have hrefused : (Pattern.inPostfix ['a', 'b', '.']).compile (some 3) = .error (.tooManyStates 3) := rfl
  have hcompiled : (Pattern.inInfix ['a', '.', 'b']).compile none =
      .ok ⟨#[.silent [3], .consuming 'a' 0, .silent [], .consuming 'b' 2], 1, 2⟩ := rfl
  refine ⟨⟨_, rfl, (report_all_or_nothing isHidden _).2.1 _ hrefused⟩, _, rfl, ?_⟩
  obtain ⟨hcode, ⟨lines, houtput, -, -, hlines⟩, hinjective⟩ :=
    (report_all_or_nothing isHidden
      ⟨false, false, none, ['a', '.', 'b'], [['a', 'b'], "a\": no match\n\"b".toList]⟩).2.2 _ hcompiled
  refine ⟨hcode, ⟨lines, houtput, ?_, ?_⟩, fun heq => absurd (hinjective _ heq) nofun⟩
  · obtain ⟨accepted, haccepted, -, hline⟩ := hlines 0 _ rfl
    have hyes : Automaton.accepts? ⟨#[.silent [3], .consuming 'a' 0, .silent [], .consuming 'b' 2], 1, 2⟩ ['a', 'b'] =
        some true := by decide +kernel
    cases hyes.symm.trans haccepted
    exact hline
  · obtain ⟨accepted, haccepted, -, hline⟩ := hlines 1 _ rfl
    have hno : Automaton.accepts? ⟨#[.silent [3], .consuming 'a' 0, .silent [], .consuming 'b' 2], 1, 2⟩
        "a\": no match\n\"b".toList = some false := by decide +kernel
    cases hno.symm.trans haccepted
    exact hline

end CommandLine
end Regular
