/-!
# Arguments — what the words of a command line ask for

The words are taken from left to right.  The first one that settles the matter does so: a request for the version or
for help, or a word that makes no sense.  Otherwise the options and the operands are gathered; the first operand is the
pattern, the others are inputs.  Options may stand among the operands, and after `--` every word is an operand.  An
option is given once at most.
-/
namespace Regular
namespace CommandLine

structure Options where
  /-- Whether the pattern is postfix text; otherwise it is infix text. -/
  inPostfix : Bool
  /-- Whether the automaton is shown as a graph; otherwise it is listed. -/
  asGraph : Bool
  /-- The number of states allowed, if there is a limit. -/
  limit : Option Nat
  pattern : List Char
  inputs : List (List Char)
  deriving DecidableEq, Repr

/-- What a command line asks for. -/
inductive Request where
  | run (o : Options)
  | version
  | help
  /-- The words cannot be understood. -/
  | misuse
  deriving DecidableEq, Repr

/-- The options and operands met so far. -/
structure Gathered where
  inPostfix : Bool
  asGraph : Bool
  limit : Option Nat
  /-- The operands, the latest first. -/
  operands : List (List Char)
  deriving DecidableEq, Repr

/-- The request once all words are taken; without an operand there is no pattern. -/
def Gathered.request (g : Gathered) : Request :=
  match g.operands.reverse with
  | [] => .misuse
  | pattern :: inputs => .run ⟨g.inPostfix, g.asGraph, g.limit, pattern, inputs⟩

def limitBound : Nat := UInt64.size

/-- The number a digit stands for in a row of decimal digits read from the left. -/
def appendDigit (n : Nat) (d : Char) : Nat := 10 * n + (d.toNat - '0'.toNat)

/-- Decimal digits, after a plus sign or not, that denote a machine word. -/
def readLimit? (cs : List Char) : Option Nat :=
  let digits := match cs with
    | '+' :: digits => digits
    | digits => digits
  if digits.isEmpty || !digits.all Char.isDigit then none
  else
    let n := digits.foldl appendDigit 0
    if n < limitBound then some n else none

/-- The option with its limit after an equals sign, up to that sign. -/
def limitEquals : List Char := "--state-limit=".toList

inductive Word where
  | operand
  | endOfOptions
  | postfixFlag
  | graphFlag
  /-- The limit is the next word. -/
  | limit
  | limitIs (value : List Char)
  | version
  | help
  | unknown
  deriving DecidableEq, Repr

/-- What a word is by its spelling.  A lone hyphen is an operand; letters after a single hyphen are options of their
own, so a word is settled by its first letter. -/
def Word.ofText (word : List Char) : Word :=
  match word with
  | '-' :: '-' :: _ =>
    if word = "--".toList then .endOfOptions
    else if word = "--postfix".toList then .postfixFlag
    else if word = "--dot".toList then .graphFlag
    else if word = "--state-limit".toList then .limit
    else if word = "--version".toList then .version
    else if word = "--help".toList then .help
    else if limitEquals.isPrefixOf word then .limitIs (word.drop limitEquals.length)
    else .unknown
  | ['-'] => .operand
  | '-' :: 'V' :: _ => .version
  | '-' :: 'h' :: _ => .help
  | '-' :: _ => .unknown
  | _ => .operand

/-- Whether a word may stand after an option as its value. -/
def isValue (word : List Char) : Bool := word.head? != some '-'

/-- The limit set by an option's value; it must be readable, and the first one. -/
def Gathered.setLimit? (g : Gathered) (value : List Char) : Option Gathered :=
  match g.limit, readLimit? value with
  | none, some n => some { g with limit := some n }
  | _, _ => none

/-- The request that the words make, after those gathered. -/
def Gathered.take (g : Gathered) : List (List Char) → Request
  | [] => g.request
  | word :: rest =>
    match Word.ofText word with
    | .operand => take { g with operands := word :: g.operands } rest
    | .endOfOptions => Gathered.request { g with operands := rest.reverse ++ g.operands }
    | .postfixFlag => if g.inPostfix then .misuse else take { g with inPostfix := true } rest
    | .graphFlag => if g.asGraph then .misuse else take { g with asGraph := true } rest
    | .limit =>
      match rest with
      | [] => .misuse
      | value :: rest =>
        if isValue value then
          match g.setLimit? value with
          | none => .misuse
          | some g => take g rest
        else .misuse
    | .limitIs value =>
      match g.setLimit? value with
      | none => .misuse
      | some g => take g rest
    | .version => .version
    | .help => .help
    | .unknown => .misuse

/-- The request that the words of a command line make. -/
def readRequest (words : List (List Char)) : Request := Gathered.take ⟨false, false, none, []⟩ words

end CommandLine
end Regular
