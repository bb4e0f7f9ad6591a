import Chomsky.Line.Rule
import Mathlib.Data.List.TakeWhile
import Mathlib.Tactic.ByContra
/-!
# What a production line writes

A production line is a nonterminal, an arrow and alternatives with bars between them. Blanks
may stand anywhere but inside the arrow. This says so without tokens: the line is cut in front
of the nonterminal, in front of the arrow and behind it, and what is left without its blanks is
cut at the bars. Reading a line by tokens finds a rule exactly if the line writes one.

## Main definitions

* `Rhs.IsWritable`: the right sides that can be written.
* `Rule.Writes line x alternatives`: the line writes these alternatives for `x`.

## Main results

* `Rule.ofLine_eq_ok_iff`: the rules that lines are read as.
-/
namespace Chomsky

/-- Right sides that can be written: a terminal is no nonterminal and not `ε`, and the symbols
of a pair are nonterminals. -/
def Rhs.IsWritable : Rhs → Prop
  | .terminal t => t ≠ epsilon ∧ isNonterminal t = false
  | .pair left right => isNonterminal left = true ∧ isNonterminal right = true
  | .empty => True

/-- The two ways to write an arrow. -/
def IsArrow (cs : List Char) : Prop := cs = ['-', '>'] ∨ cs = ['-', '-', '>']

/-- The text without its blanks. -/
def Text.dense (cs : List Char) : List Char := cs.filter fun c => !Text.isBlank c

/-- The line writes alternatives for the nonterminal `x`, with bars between them. -/
def Rule.Writes (line : Text.Line) (x : Symbol) (alternatives : List Rhs) : Prop :=
  ∃ before between arrow rest,
    line = before ++ x :: (between ++ (arrow ++ rest)) ∧
      Text.isBlankLine before = true ∧ isNonterminal x = true ∧
      Text.isBlankLine between = true ∧ IsArrow arrow ∧
      (Text.dense rest).splitOn '|' = alternatives.map Rhs.text ∧
      ∀ rhs ∈ alternatives, rhs.IsWritable

/-! ## Characters -/

theorem isNonterminal_dash : isNonterminal '-' = false := by decide +kernel

theorem isNonterminal_epsilon : isNonterminal epsilon = false := by decide +kernel

theorem isBlank_of_isNonterminal {c : Char} (hc : isNonterminal c = true) :
    Text.isBlank c = false := by
  have htable : ∀ n ∈ [9, 10, 11, 12, 13, 0x20, 0x85, 0xA0, 0x1680, 0x2000, 0x2001, 0x2002,
      0x2003, 0x2004, 0x2005, 0x2006, 0x2007, 0x2008, 0x2009, 0x200A, 0x2028, 0x2029, 0x202F,
      0x205F, 0x3000], Text.Stretch.anyHolds n Text.uppercaseTable = false := by decide +kernel
  by_contra hblank
  simp only [Text.isBlank, Bool.not_eq_false, Bool.or_eq_true, Bool.and_eq_true,
    decide_eq_true_eq] at hblank
  have hupper : Text.Stretch.anyHolds c.toNat Text.uppercaseTable = true := hc
  rw [htable c.toNat (by simp only [List.mem_cons, List.not_mem_nil]; omega)] at hupper
  exact Bool.false_ne_true hupper

namespace Token

theorem ofChar_of_isNonterminal {c : Char} (hc : isNonterminal c = true) :
    ofChar c = nonterminal c := by
  have hne : c ≠ Chomsky.epsilon := by
    rintro rfl
    exact Bool.false_ne_true (isNonterminal_epsilon.symm.trans hc)
  rw [ofChar, if_neg hne, if_pos hc]

theorem ofChar_eq_nonterminal {c x : Char} (h : ofChar c = nonterminal x) :
    c = x ∧ isNonterminal x = true := by
  unfold ofChar at h
  split at h
  · exact absurd h (by simp)
  · split at h
    · rename_i hc
      obtain rfl := nonterminal.inj h
      exact ⟨rfl, hc⟩
    · exact absurd h (by simp)

theorem ofChar_eq_terminal {c t : Char} (h : ofChar c = terminal t) :
    c = t ∧ t ≠ Chomsky.epsilon ∧ isNonterminal t = false := by
  unfold ofChar at h
  split at h
  · exact absurd h (by simp)
  · split at h
    · exact absurd h (by simp)
    · rename_i he hc
      obtain rfl := terminal.inj h
      exact ⟨rfl, he, by simpa using hc⟩

theorem ofChar_eq_epsilon {c : Char} (h : ofChar c = epsilon) : c = Chomsky.epsilon := by
  unfold ofChar at h
  split at h
  · assumption
  · split at h <;> exact absurd h (by simp)

theorem ofChar_ne_arrow (c : Char) : ofChar c ≠ arrow := by
  unfold ofChar
  split
  · simp
  · split <;> simp

theorem ofChar_ne_bar (c : Char) : ofChar c ≠ bar := by
  unfold ofChar
  split
  · simp
  · split <;> simp

/-! ## The arrow -/

theorem exists_dash_of_isArrow {arrow : List Char} (h : IsArrow arrow) :
    ∃ tail, arrow = '-' :: tail := by
  rcases h with rfl | rfl <;> exact ⟨_, rfl⟩

theorem readArrow_of_isArrow {arrow : List Char} (h : IsArrow arrow) (rest : List Char) :
    readArrow (arrow ++ rest) = (true, rest) := by
  rcases h with rfl | rfl <;> simp [readArrow]

/-- An arrow that was read stands in front of the rest. -/
theorem exists_isArrow_of_readArrow {cs rest : List Char} (h : readArrow cs = (true, rest)) :
    ∃ arrow, IsArrow arrow ∧ cs = arrow ++ rest := by
  have hcs := List.takeWhile_append_dropWhile (p := (· = '-')) (l := cs)
  have hall : ∀ c ∈ cs.takeWhile (· = '-'), c = '-' := by
    intro c hc
    simpa using List.mem_takeWhile_imp hc
  simp only [readArrow] at h
  split at h
  · exact absurd h (by simp)
  · rename_i hlen
    obtain ⟨hhead, htail⟩ := Prod.mk.inj h
    rw [decide_eq_true_eq] at hhead
    obtain ⟨tail, hdrop⟩ := List.head?_eq_some_iff.1 hhead
    rw [hdrop, List.tail_cons] at htail
    subst htail
    rw [List.eq_replicate_of_mem hall, hdrop] at hcs
    generalize (cs.takeWhile (· = '-')).length = k at hlen hcs
    obtain rfl | rfl : k = 1 ∨ k = 2 := by
      simp at hlen
      omega
    · exact ⟨['-', '>'], Or.inl rfl, hcs.symm⟩
    · exact ⟨['-', '-', '>'], Or.inr rfl, hcs.symm⟩

/-! ## The tokens of a line -/

theorem lex_append_of_isBlankLine {before : List Char} (h : Text.isBlankLine before = true)
    (cs : List Char) : lex (before ++ cs) = lex cs := by
  induction before with
  | nil => rfl
  | cons c before ih =>
    rw [Text.isBlankLine_cons, Bool.and_eq_true] at h
    rw [List.cons_append, lex_cons_of_isBlank h.1, ih h.2]

/-- An arrow ends the left side of a line. -/
theorem lex_append_of_isArrow {arrow : List Char} (h : IsArrow arrow) (rest : List Char) :
    lex (arrow ++ rest) = .ok (.arrow :: lexRight rest) := by
  have hread := readArrow_of_isArrow h rest
  obtain ⟨tail, rfl⟩ := exists_dash_of_isArrow h
  have hblank : Text.isBlank '-' = false := rfl
  rw [List.cons_append] at hread ⊢
  simp [lex, hblank, hread]

/-- The first token of a line comes from its first character that is not blank. -/
theorem lex_eq_cons {cs : List Char} {token : Token} {tokens : List Token}
    (h : lex cs = .ok (token :: tokens)) : ∃ before rest, Text.isBlankLine before = true ∧
      ((∃ c, cs = before ++ c :: rest ∧ ofChar c = token ∧ lex rest = .ok tokens) ∨
        ∃ arrow, cs = before ++ (arrow ++ rest) ∧ IsArrow arrow ∧ token = .arrow ∧
          tokens = lexRight rest) := by
  induction cs with
  | nil => exact absurd h (by simp)
  | cons c cs ih =>
    unfold lex at h
    split at h
    · rename_i hc
      obtain ⟨before, rest, hbefore, hrest⟩ := ih h
      refine ⟨c :: before, rest, by rw [Text.isBlankLine_cons, hc, hbefore]; rfl, ?_⟩
      rcases hrest with ⟨d, rfl, hd⟩ | ⟨arrow, rfl, harrow⟩
      · exact Or.inl ⟨d, rfl, hd⟩
      · exact Or.inr ⟨arrow, rfl, harrow⟩
    · split at h
      · split at h
        · rename_i rest hread
          obtain ⟨htoken, htokens⟩ := List.cons.inj (Except.ok.inj h)
          obtain ⟨arrow, harrow, hcs⟩ := exists_isArrow_of_readArrow hread
          exact ⟨[], rest, rfl, Or.inr ⟨arrow, hcs, harrow, htoken.symm, htokens.symm⟩⟩
        · exact absurd h (by simp)
      · cases hlex : lex cs with
        | error cause => simp [hlex, Except.map] at h
        | ok others =>
          rw [hlex] at h
          obtain ⟨htoken, htokens⟩ := List.cons.inj (Except.ok.inj h)
          exact ⟨[], cs, rfl, Or.inl ⟨c, rfl, htoken, by rw [hlex, htokens]⟩⟩

/-- A line whose tokens start with a nonterminal and an arrow is cut in front of the
nonterminal, in front of the arrow and behind it. -/
theorem lex_eq_nonterminal_arrow {cs : List Char} {x : Symbol} {tokens : List Token} :
    lex cs = .ok (.nonterminal x :: .arrow :: tokens) ↔ ∃ before between arrow rest,
      cs = before ++ x :: (between ++ (arrow ++ rest)) ∧
        Text.isBlankLine before = true ∧ isNonterminal x = true ∧
        Text.isBlankLine between = true ∧ IsArrow arrow ∧ tokens = lexRight rest := by
  constructor
  · intro h
    obtain ⟨before, tail, hbefore, ⟨c, rfl, hc, htail⟩ | ⟨_, _, _, h, _⟩⟩ := lex_eq_cons h
    · obtain ⟨rfl, hx⟩ := ofChar_eq_nonterminal hc
      obtain ⟨between, rest, hbetween, ⟨d, _, hd, _⟩ | ⟨arrow, rfl, harrow, -, htokens⟩⟩ :=
        lex_eq_cons htail
      · exact absurd hd (ofChar_ne_arrow d)
      · exact ⟨before, between, arrow, rest, rfl, hbefore, hx, hbetween, harrow, htokens⟩
    · exact absurd h (by simp)
  · rintro ⟨before, between, arrow, rest, rfl, hbefore, hx, hbetween, harrow, rfl⟩
    have hdash : x ≠ '-' := by
      rintro rfl
      exact Bool.false_ne_true (isNonterminal_dash.symm.trans hx)
    rw [lex_append_of_isBlankLine hbefore, lex_cons_of_symbol (isBlank_of_isNonterminal hx) hdash,
      lex_append_of_isBlankLine hbetween, lex_append_of_isArrow harrow,
      ofChar_of_isNonterminal hx]
    rfl

/-! ## The alternatives -/

/-- Cutting tokens at bars is cutting their characters at bars. -/
theorem segments_map_ofRightChar (cs : List Char) :
    (segments (cs.map ofRightChar)).1 :: (segments (cs.map ofRightChar)).2 =
      (cs.splitOn '|').map (List.map ofChar) := by
  induction cs with
  | nil => rfl
  | cons c cs ih =>
    rw [List.map_cons, segments, List.splitOn_cons_eq_if_modifyHead, ofRightChar]
    by_cases hc : c = '|'
    · simp [hc, ih]
    · obtain ⟨part, parts, hparts⟩ := List.exists_cons_of_ne_nil (List.splitOn_ne_nil '|' cs)
      rw [hparts, List.map_cons] at ih
      obtain ⟨hfirst, hothers⟩ := List.cons.inj ih
      simp [hc, ofChar_ne_bar, hparts, hfirst, hothers]

end Token

def Rhs.tokens : Rhs → List Token
  | .terminal t => [.terminal t]
  | .pair left right => [.nonterminal left, .nonterminal right]
  | .empty => [.epsilon]

theorem Rhs.ofTokens_tokens (rhs : Rhs) : Rhs.ofTokens rhs.tokens = .ok rhs := by
  cases rhs <;> rfl

theorem Rhs.tokens_of_ofTokens {tokens : List Token} {rhs : Rhs}
    (h : Rhs.ofTokens tokens = .ok rhs) : tokens = rhs.tokens := by
  match tokens with
  | [] => cases h
  | [token] => cases token <;> cases h <;> rfl
  | [first, second] =>
    cases first <;> cases second <;> cases h
    rfl
  | first :: second :: third :: rest => cases first <;> cases second <;> cases h

/-- A segment is read as the writable right side with its text. -/
theorem Rhs.ofTokens_map_ofChar {part : List Char} {rhs : Rhs} :
    Rhs.ofTokens (part.map Token.ofChar) = .ok rhs ↔ part = rhs.text ∧ rhs.IsWritable := by
  constructor
  · intro h
    have htokens := tokens_of_ofTokens h
    cases rhs with
    | terminal t =>
      obtain ⟨c, rfl, hc⟩ := List.map_eq_singleton_iff.1 htokens
      obtain ⟨rfl, hwritable⟩ := Token.ofChar_eq_terminal hc
      exact ⟨rfl, hwritable⟩
    | pair l r =>
      obtain ⟨c, cs, rfl, hc, hcs⟩ := List.map_eq_cons_iff.1 htokens
      obtain ⟨d, rfl, hd⟩ := List.map_eq_singleton_iff.1 hcs
      obtain ⟨rfl, hl⟩ := Token.ofChar_eq_nonterminal hc
      obtain ⟨rfl, hr⟩ := Token.ofChar_eq_nonterminal hd
      exact ⟨rfl, hl, hr⟩
    | empty =>
      obtain ⟨c, rfl, hc⟩ := List.map_eq_singleton_iff.1 htokens
      exact ⟨by rw [Token.ofChar_eq_epsilon hc, text], trivial⟩
  · rintro ⟨rfl, hwritable⟩
    have htokens : rhs.text.map Token.ofChar = rhs.tokens := by
      cases rhs with
      | terminal t => simp [text, tokens, Token.ofChar, hwritable.1, hwritable.2]
      | pair l r =>
        simp [text, tokens, Token.ofChar_of_isNonterminal hwritable.1,
          Token.ofChar_of_isNonterminal hwritable.2]
      | empty => simp [text, tokens, Token.ofChar]
    rw [htokens, ofTokens_tokens]

theorem Rhs.ofSegments_map_ofChar {parts : List (List Char)} {alternatives : List Rhs} :
    Rhs.ofSegments (parts.map (List.map Token.ofChar)) = .ok alternatives ↔
      parts = alternatives.map Rhs.text ∧ ∀ rhs ∈ alternatives, rhs.IsWritable := by
  induction parts generalizing alternatives with
  | nil => cases alternatives <;> simp [ofSegments]
  | cons part parts ih =>
    rw [List.map_cons, ofSegments]
    constructor
    · intro h
      cases hpart : ofTokens (part.map Token.ofChar) with
      | error cause => simp [hpart] at h
      | ok rhs =>
        cases hparts : ofSegments (parts.map (List.map Token.ofChar)) with
        | error cause => simp [hpart, hparts, Except.map] at h
        | ok others =>
          obtain rfl : rhs :: others = alternatives := by
            simpa [hpart, hparts, Except.map] using h
          obtain ⟨rfl, hrhs⟩ := ofTokens_map_ofChar.1 hpart
          obtain ⟨rfl, hothers⟩ := ih.1 hparts
          exact ⟨rfl, List.forall_mem_cons.2 ⟨hrhs, hothers⟩⟩
    · rintro ⟨heq, hwritable⟩
      cases alternatives with
      | nil => exact absurd heq (by simp)
      | cons rhs others =>
        obtain ⟨rfl, hparts⟩ := List.cons.inj heq
        obtain ⟨hrhs, hothers⟩ := List.forall_mem_cons.1 hwritable
        rw [ofTokens_map_ofChar.2 ⟨rfl, hrhs⟩, ih.2 ⟨hparts, hothers⟩]
        rfl

namespace Rule

theorem alternativesOf_lexRight {rest : List Char} {alternatives : List Rhs} :
    Rhs.alternativesOf (Token.lexRight rest) = .ok alternatives ↔
      (Text.dense rest).splitOn '|' = alternatives.map Rhs.text ∧
        ∀ rhs ∈ alternatives, rhs.IsWritable := by
  rw [← Rhs.ofSegments_map_ofChar, ← Token.segments_map_ofRightChar]
  rfl

theorem sidesOf_eq_ok_iff {tokens : List Token} {x : Symbol} {alternatives : List Rhs} :
    sidesOf tokens = .ok (x, alternatives) ↔
      ∃ rest, tokens = .nonterminal x :: .arrow :: rest ∧
        Rhs.alternativesOf rest = .ok alternatives := by
  constructor
  · intro h
    unfold sidesOf at h
    split at h
    · exact absurd h (by simp)
    · rename_i lhs rest
      cases hrest : Rhs.alternativesOf rest with
      | error cause => simp [hrest, Except.map] at h
      | ok found =>
        obtain ⟨rfl, rfl⟩ : lhs = x ∧ found = alternatives := by
          simpa [hrest, Except.map] using h
        exact ⟨rest, rfl, hrest⟩
    · exact absurd h (by simp)
    · exact absurd h (by simp)
  · rintro ⟨rest, rfl, hrest⟩
    rw [sidesOf, hrest]
    rfl

theorem ofLine_eq_ok_iff_sidesOf {location : Location} {line : Text.Line} {r : Rule} :
    ofLine location line = .ok r ↔ r.location = location ∧
      ∃ tokens, Token.lex line = .ok tokens ∧ sidesOf tokens = .ok (r.lhs, r.alternatives) := by
  obtain ⟨x, alternatives, place⟩ := r
  unfold ofLine ofTokens
  cases hlex : Token.lex line with
  | error cause => simp [Except.bind]
  | ok tokens =>
    cases hsides : sidesOf tokens with
    | error cause => simp [Except.bind, Except.map, hsides]
    | ok sides =>
      obtain ⟨lhs, found⟩ := sides
      simp only [Except.bind, Except.map, hsides, Except.ok.injEq, mk.injEq, exists_eq_left',
        Prod.mk.injEq]
      exact ⟨fun ⟨h, h', h''⟩ => ⟨h''.symm, h, h'⟩, fun ⟨h'', h, h'⟩ => ⟨h, h', h''.symm⟩⟩

/-- A line is read as the rule that it writes, at the given location, and as no rule if it
writes none. -/
theorem ofLine_eq_ok_iff {location : Location} {line : Text.Line} {r : Rule} :
    ofLine location line = .ok r ↔
      r.location = location ∧ Writes line r.lhs r.alternatives := by
  rw [ofLine_eq_ok_iff_sidesOf]
  refine and_congr_right fun _ => ?_
  constructor
  · rintro ⟨tokens, hlex, hsides⟩
    obtain ⟨_, rfl, halts⟩ := sidesOf_eq_ok_iff.1 hsides
    obtain ⟨before, between, arrow, rest, hline, hbefore, hx, hbetween, harrow, rfl⟩ :=
      Token.lex_eq_nonterminal_arrow.1 hlex
    exact ⟨before, between, arrow, rest, hline, hbefore, hx, hbetween, harrow,
      alternativesOf_lexRight.1 halts⟩
  · rintro ⟨before, between, arrow, rest, hline, hbefore, hx, hbetween, harrow, halts⟩
    exact ⟨_, Token.lex_eq_nonterminal_arrow.2 ⟨before, between, arrow, rest, hline, hbefore, hx,
      hbetween, harrow, rfl⟩, sidesOf_eq_ok_iff.2 ⟨_, rfl, alternativesOf_lexRight.2 halts⟩⟩

theorem Writes.unique {line : Text.Line} {x y : Symbol} {alternatives others : List Rhs}
    (h : Writes line x alternatives) (h' : Writes line y others) :
    x = y ∧ alternatives = others := by
  have hread : ofLine default line = .ok ⟨x, alternatives, default⟩ := ofLine_eq_ok_iff.2 ⟨rfl, h⟩
  have hread' : ofLine default line = .ok ⟨y, others, default⟩ := ofLine_eq_ok_iff.2 ⟨rfl, h'⟩
  obtain ⟨rfl, rfl, -⟩ := mk.inj (Except.ok.inj (hread.symm.trans hread'))
  exact ⟨rfl, rfl⟩

/-- The productions of a rule are those that its line writes. -/
theorem Writes.mem_productions {line : Text.Line} {r : Rule} {p : Production}
    (h : Writes line r.lhs r.alternatives) : p ∈ r.productions ↔
      ∃ alternatives, Writes line p.lhs alternatives ∧ p.rhs ∈ alternatives := by
  constructor
  · intro hp
    obtain ⟨rhs, hrhs, rfl⟩ := List.mem_map.1 hp
    exact ⟨r.alternatives, h, hrhs⟩
  · rintro ⟨alternatives, hwrites, hrhs⟩
    obtain ⟨hlhs, rfl⟩ := h.unique hwrites
    exact List.mem_map.2 ⟨p.rhs, hrhs, by rw [hlhs]⟩

end Rule

end Chomsky
