import Chomsky.Line.Token
/-!
# Production lines

A production line holds a nonterminal, an arrow and one or more alternatives between bars, each
a right side in Chomsky normal form. A symbol that is used and has no productions derives
nothing, which is worth a warning and no reason to refuse the grammar.
-/
namespace Chomsky

/-- The alternatives for a symbol on one line. -/
structure Rule where
  lhs : Symbol
  alternatives : List Rhs
  location : Location
deriving DecidableEq, Inhabited

def Rhs.ofTokens : List Token → Except Cause Rhs
  | [.terminal t] => .ok (.terminal t)
  | [.nonterminal left, .nonterminal right] => .ok (.pair left right)
  | [.epsilon] => .ok .empty
  | tokens => .error (.notNormalForm (tokens.flatMap Token.text))

/-- The first of the segments between bars, and the others. -/
def Token.segments : List Token → List Token × List (List Token)
  | [] => ([], [])
  | token :: rest =>
    let (first, others) := segments rest
    if token = .bar then ([], first :: others) else (token :: first, others)

/-- The right sides of alternatives, or the fault of the first one that has any. -/
def Rhs.ofSegments : List (List Token) → Except Cause (List Rhs)
  | [] => .ok []
  | segment :: rest =>
    match Rhs.ofTokens segment with
    | .ok rhs => (Rhs.ofSegments rest).map (rhs :: ·)
    | .error cause => .error cause

/-- The right sides that tokens with bars between them write. -/
def Rhs.alternativesOf (tokens : List Token) : Except Cause (List Rhs) :=
  let (first, others) := Token.segments tokens
  Rhs.ofSegments (first :: others)

namespace Rule

/-- The left side and the alternatives that the tokens of a line write. -/
def sidesOf : List Token → Except Cause (Symbol × List Rhs)
  | [] => .error .unexpectedBlankLine
  | .nonterminal lhs :: .arrow :: rest => (Rhs.alternativesOf rest).map (lhs, ·)
  | .nonterminal _ :: _ => .error .missingArrow
  | _ => .error .missingNonterminal

def ofTokens (location : Location) (tokens : List Token) : Except Cause Rule :=
  (sidesOf tokens).map fun (lhs, alternatives) => ⟨lhs, alternatives, location⟩

/-- The rule that a line writes; a malformed arrow is found before any other fault. -/
def ofLine (location : Location) (line : List Char) : Except Fault Rule :=
  match (Token.lex line).bind (ofTokens location) with
  | .ok rule => .ok rule
  | .error cause => .error ⟨location, cause⟩

def productions (r : Rule) : List Production := r.alternatives.map (⟨r.lhs, ·⟩)

end Rule

/-- The grammar that rules write together. -/
def Grammar.ofRules (rules : List Rule) : Grammar := ⟨rules.flatMap Rule.productions⟩

/-! ## Symbols without productions -/

namespace Rule

/-- The symbols that the alternatives of a rule refer to, each once. -/
def symbols (r : Rule) : SymbolSet := SymbolSet.ofList (r.alternatives.flatMap Rhs.symbols)

def definedSymbols (rules : List Rule) : SymbolSet := SymbolSet.ofList (rules.map Rule.lhs)

/-- A fault for each symbol that the rule refers to and that is not defined. -/
def undefinedSymbols (defined : SymbolSet) (r : Rule) : List Fault :=
  (r.symbols.toList.filter (· ∉ defined)).map fun x => ⟨r.location, .undefinedNonterminal x⟩

/-- A fault for a start symbol that is not defined, at the location of the grammar. -/
def undefinedStart (defined : SymbolSet) (start : Symbol) (grammar : Location) : List Fault :=
  if start ∈ defined then [] else [⟨grammar, .undefinedStart start⟩]

/-- All symbols without productions: the start symbol first, then rule by rule. -/
def undefined (rules : List Rule) (start : Symbol) (grammar : Location) : List Fault :=
  let defined := definedSymbols rules
  undefinedStart defined start grammar ++ rules.flatMap (undefinedSymbols defined)

end Rule

end Chomsky
