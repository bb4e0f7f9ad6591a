import Chomsky.Fault
import Chomsky.Grammar.Basic
import Chomsky.Text.Lines
/-!
# Tokens of production lines

A production line is read character by character, and blanks are passed over. The first
dash starts the arrow, which is written with one dash or two. Up to the arrow every other
character is a symbol; behind it a bar separates alternatives, while dashes and angle
brackets are terminals like any other character.
-/
namespace Chomsky

/-- What a production line is made of. -/
inductive Token
  | arrow
  | bar
  | epsilon
  | nonterminal (x : Symbol)
  | terminal (t : Char)
deriving DecidableEq, Inhabited

namespace Token

/-- The token as it is shown; the arrow has two dashes. -/
def text : Token → List Char
  | arrow => arrowText
  | bar => ['|']
  | epsilon => [Chomsky.epsilon]
  | nonterminal x => [x]
  | terminal t => [t]

def ofChar (c : Char) : Token :=
  if c = Chomsky.epsilon then epsilon
  else if isNonterminal c then nonterminal c
  else terminal c

/-- Whether an arrow stands at the start of the text, and the text behind what was read of
it: the dashes and, after one dash or two, the next character. -/
def readArrow (cs : List Char) : Bool × List Char :=
  let dashes := cs.takeWhile (· = '-')
  let rest := cs.dropWhile (· = '-')
  if dashes.length = 0 || 2 < dashes.length then (false, rest)
  else (rest.head? = some '>', rest.tail)

/-- A character behind the arrow. -/
def ofRightChar (c : Char) : Token := if c = '|' then bar else ofChar c

def lexRight (cs : List Char) : List Token :=
  (cs.filter fun c => !Text.isBlank c).map ofRightChar

/-- The tokens of a line; the only thing that can go wrong is its arrow. -/
def lex : List Char → Except Cause (List Token)
  | [] => .ok []
  | c :: cs =>
    if Text.isBlank c then lex cs
    else if c = '-' then
      match readArrow (c :: cs) with
      | (true, rest) => .ok (arrow :: lexRight rest)
      | (false, _) => .error .malformedArrow
    else (lex cs).map (ofChar c :: ·)

@[simp] theorem lex_nil : lex [] = .ok [] := rfl

/-- Blanks make no tokens. -/
theorem lex_cons_of_isBlank {c : Char} (h : Text.isBlank c = true) (cs : List Char) :
    lex (c :: cs) = lex cs := by simp [lex, h]

/-- In front of the arrow every character that is no blank is a token of its own. -/
theorem lex_cons_of_symbol {c : Char} (h : Text.isBlank c = false) (hd : c ≠ '-')
    (cs : List Char) : lex (c :: cs) = (lex cs).map (ofChar c :: ·) := by simp [lex, h, hd]

end Token

end Chomsky
