import Regular.CommandLine.Arguments
import Regular.Pattern.Compile
import Regular.Automaton.Simulation
import Regular.Automaton.Listing
import Regular.Automaton.Graphviz
/-!
# Report — what a command answers

A command answers with an exit code and two texts, one for output and one for complaints.  A pattern that cannot be
compiled gives a complaint and no output at all.  Otherwise the output is the automaton and then one line for each input
in order: the input between double quotes, and whether the whole of it matches.
-/
namespace Regular
namespace CommandLine

open Text

structure Report where
  exitCode : Nat
  output : List Char
  complaint : List Char
  deriving DecidableEq, Repr

def Options.source (o : Options) : Pattern :=
  if o.inPostfix then .inPostfix o.pattern else .inInfix o.pattern

/-- The text that shows an automaton in the way asked for. -/
def Options.show (hidden : Char → Bool) (o : Options) (a : Automaton) : List Char :=
  if o.asGraph then a.graphviz else a.listingWith hidden

def verdict (accepted : Bool) : List Char := if accepted then "match".toList else "no match".toList

def verdictLine (hidden : Char → Bool) (a : Automaton) (input : List Char) : List Char :=
  quoted hidden '"' input ++ ": ".toList ++ verdict (a.accepts? input == some true) ++ ['\n']

/-- The complaint about a pattern that cannot be compiled. -/
def refusal (pattern : List Char) (e : PatternError) : List Char :=
  "error: failed to compile `".toList ++ pattern ++ "`: ".toList ++ e.message ++ ['\n']

/-- What a command answers when its options are understood, with the given characters written by number. -/
def Options.reportWith (hidden : Char → Bool) (o : Options) : Report :=
  match o.source.compile o.limit with
  | .error e => ⟨1, [], refusal o.pattern e⟩
  | .ok a => ⟨0, o.show hidden a ++ o.inputs.flatMap (verdictLine hidden a), []⟩

def Options.report (o : Options) : Report := o.reportWith isHidden

def versionLine : List Char := "thompson-nfa 0.1.0\n".toList

/-- The help text, in this command's own words; no result speaks of it. -/
def usage : List Char :=
  "Usage: thompson-nfa [--postfix] [--dot] [--state-limit N] PATTERN [INPUT]...\n".toList

/-- What a command answers to a request. -/
def Request.report : Request → Report
  | .run o => o.report
  | .version => ⟨0, versionLine, []⟩
  | .help => ⟨0, usage, []⟩
  | .misuse => ⟨2, [], usage⟩

end CommandLine
end Regular
