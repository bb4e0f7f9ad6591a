import Chomsky.Proofs.Line.Written
/-!
# What is wrong with a production line

A line that writes no rule has a first defect, in a fixed order: an arrow that is none, no
character that is not blank, no nonterminal at the start, no arrow behind the nonterminal, and a
segment behind the arrow that is no right side. The order is that of the characters but for the
arrow, which is looked at before anything else. Like the rules that lines write, this is said
without tokens, and a line is refused by tokens for exactly its first defect.
-/
namespace Chomsky

/-- The text behind the arrow that a text starts with, if it starts with one. -/
def Text.behindArrow? : List Char → Option (List Char)
  | '-' :: '>' :: rest => some rest
  | '-' :: '-' :: '>' :: rest => some rest
  | _ => none

/-- Whether there is a dash and the text from the first one on starts with no arrow. -/
def Text.hasMalformedArrow (line : Text.Line) : Bool :=
  match line.dropWhile (· ≠ '-') with
  | [] => false
  | marked => (behindArrow? marked).isNone

/-- Whether a segment is one character that is no nonterminal, `ε` included, or two nonterminals. -/
def Rhs.isSegment : List Char → Bool
  | [c] => !isNonterminal c
  | [left, right] => isNonterminal left && isNonterminal right
  | _ => false

/-- The first defect behind the nonterminal of a line: no arrow is next, or a segment behind the
arrow is no right side. -/
def Rule.rightDefect? (behind : List Char) : Option Cause :=
  match Text.behindArrow? (behind.dropWhile Text.isBlank) with
  | none => some .missingArrow
  | some rest => (((Text.dense rest).splitOn '|').find? (!Rhs.isSegment ·)).map .notNormalForm

/-- The first defect of a line whose arrow is not malformed. -/
def Rule.sideDefect? (line : Text.Line) : Option Cause :=
  match line.dropWhile Text.isBlank with
  | [] => some .unexpectedBlankLine
  | x :: behind => if isNonterminal x then rightDefect? behind else some .missingNonterminal

/-- The first defect of a line. -/
def Rule.defect? (line : Text.Line) : Option Cause :=
  if Text.hasMalformedArrow line then some .malformedArrow else sideDefect? line

/-! ## Arrows -/

namespace Text

theorem behindArrow?_eq_some_iff {cs rest : List Char} :
    behindArrow? cs = some rest ↔ ∃ arrow, IsArrow arrow ∧ cs = arrow ++ rest := by
  constructor
  · intro h
    unfold behindArrow? at h
    split at h
    · exact ⟨['-', '>'], Or.inl rfl, by rw [← Option.some.inj h]; rfl⟩
    · exact ⟨['-', '-', '>'], Or.inr rfl, by rw [← Option.some.inj h]; rfl⟩
    · exact absurd h (by simp)
  · rintro ⟨arrow, rfl | rfl, rfl⟩ <;> rfl

theorem behindArrow?_cons_of_ne {c : Char} (hc : c ≠ '-') (cs : List Char) :
    behindArrow? (c :: cs) = none := by
  cases h : behindArrow? (c :: cs) with
  | none => rfl
  | some rest =>
    obtain ⟨arrow, rfl | rfl, heq⟩ := behindArrow?_eq_some_iff.1 h <;>
      exact absurd (List.cons.inj heq).1 hc

@[simp] theorem hasMalformedArrow_nil : hasMalformedArrow [] = false := rfl

theorem hasMalformedArrow_cons_of_ne {c : Char} (hc : c ≠ '-') (cs : List Char) :
    hasMalformedArrow (c :: cs) = hasMalformedArrow cs := by
  simp [hasMalformedArrow, hc]

theorem hasMalformedArrow_dash (cs : List Char) :
    hasMalformedArrow ('-' :: cs) = (behindArrow? ('-' :: cs)).isNone := by
  simp [hasMalformedArrow]

end Text

namespace Token

/-- A dash in front of the arrow is read as the arrow or not at all. -/
theorem lex_dash (cs : List Char) : lex ('-' :: cs) =
    match Text.behindArrow? ('-' :: cs) with
    | some rest => .ok (.arrow :: lexRight rest)
    | none => .error .malformedArrow := by
  cases h : Text.behindArrow? ('-' :: cs) with
  | some rest =>
    obtain ⟨arrow, harrow, hcs⟩ := Text.behindArrow?_eq_some_iff.1 h
    rw [hcs, lex_append_of_isArrow harrow]
  | none =>
    have hblank : Text.isBlank '-' = false := rfl
    cases hread : readArrow ('-' :: cs) with
    | mk found rest =>
      cases found with
      | false => simp [lex, hblank, hread]
      | true =>
        rw [Text.behindArrow?_eq_some_iff.2 (exists_isArrow_of_readArrow hread)] at h
        exact absurd h (by simp)

/-- A line has tokens unless its arrow is malformed. -/
theorem lex_eq_error_iff {cs : List Char} {cause : Cause} :
    lex cs = .error cause ↔ Text.hasMalformedArrow cs = true ∧ cause = .malformedArrow := by
  induction cs with
  | nil => simp
  | cons c cs ih =>
    by_cases hdash : c = '-'
    · subst hdash
      rw [lex_dash, Text.hasMalformedArrow_dash]
      cases Text.behindArrow? ('-' :: cs) with
      | none => simp [eq_comm]
      | some rest => simp
    · rw [Text.hasMalformedArrow_cons_of_ne hdash, ← ih]
      by_cases hblank : Text.isBlank c = true
      · rw [lex_cons_of_isBlank hblank]
      · rw [lex_cons_of_symbol (by simpa using hblank) hdash]
        cases lex cs <;> simp [Except.map]

theorem lex_dropWhile_isBlank (cs : List Char) : lex (cs.dropWhile Text.isBlank) = lex cs := by
  have hblank : Text.isBlankLine (cs.takeWhile Text.isBlank) = true :=
    List.all_eq_true.2 fun c hc => List.mem_takeWhile_imp hc
  rw [← lex_append_of_isBlankLine hblank, List.takeWhile_append_dropWhile]

@[simp] theorem text_ofChar (c : Char) : (ofChar c).text = [c] := by
  unfold ofChar
  split
  · rename_i h
    rw [h]
    rfl
  · split <;> rfl

/-- Characters that were read one by one are shown as they were. -/
theorem flatMap_text_map {f : Char → Token} (hf : ∀ c, (f c).text = [c]) (cs : List Char) :
    (cs.map f).flatMap text = cs := by
  induction cs with
  | nil => rfl
  | cons c cs ih => simp [hf, ih]

theorem ofChar_ne_nonterminal {c : Char} (hc : isNonterminal c = false) (x : Symbol) :
    ofChar c ≠ nonterminal x := by
  intro h
  obtain ⟨rfl, hx⟩ := ofChar_eq_nonterminal h
  exact Bool.false_ne_true (hc.symm.trans hx)

end Token

/-! ## Segments -/

namespace Rhs

theorem isSegment_iff {part : List Char} :
    isSegment part = true ↔ ∃ rhs : Rhs, part = rhs.text ∧ rhs.IsWritable := by
  constructor
  · intro h
    unfold isSegment at h
    split at h
    · rename_i c
      by_cases hc : c = epsilon
      · exact ⟨.empty, by rw [hc, text], trivial⟩
      · exact ⟨.terminal c, rfl, hc, by simpa using h⟩
    · rename_i left right
      exact ⟨.pair left right, rfl, by simpa [IsWritable] using h⟩
    · exact absurd h (by simp)
  · rintro ⟨rhs, rfl, hwritable⟩
    cases rhs with
    | terminal t => simp [text, isSegment, hwritable.2]
    | pair left right => simp [text, isSegment, hwritable.1, hwritable.2]
    | empty => simp [text, isSegment, isNonterminal_epsilon]

/-- Tokens are refused with what they are shown as. -/
theorem cause_of_ofTokens {tokens : List Token} {cause : Cause}
    (h : ofTokens tokens = .error cause) :
    cause = .notNormalForm (tokens.flatMap Token.text) := by
  match tokens with
  | [] => cases h; rfl
  | [token] => cases token <;> cases h <;> rfl
  | [first, second] => cases first <;> cases second <;> cases h <;> rfl
  | first :: second :: third :: rest => cases first <;> cases second <;> cases h <;> rfl

/-- A segment is refused as it was written if it is no right side. -/
theorem ofTokens_map_ofChar_eq_error {part : List Char} (h : isSegment part = false) :
    ofTokens (part.map Token.ofChar) = .error (.notNormalForm part) := by
  cases htokens : ofTokens (part.map Token.ofChar) with
  | ok rhs =>
    have hsegment := isSegment_iff.2 ⟨rhs, ofTokens_map_ofChar.1 htokens⟩
    exact absurd (h.symm.trans hsegment) Bool.false_ne_true
  | error cause => rw [cause_of_ofTokens htokens, Token.flatMap_text_map Token.text_ofChar]

/-- The first segment that is no right side is the one that is refused. -/
theorem ofSegments_map_ofChar_eq_error_iff {parts : List (List Char)} {cause : Cause} :
    ofSegments (parts.map (List.map Token.ofChar)) = .error cause ↔
      (parts.find? (!isSegment ·)).map .notNormalForm = some cause := by
  induction parts with
  | nil => simp [ofSegments]
  | cons part parts ih =>
    rw [List.map_cons, ofSegments, List.find?_cons]
    cases hpart : isSegment part with
    | true =>
      obtain ⟨rhs, hrhs⟩ := isSegment_iff.1 hpart
      simp only [ofTokens_map_ofChar.2 hrhs, Bool.not_true, ← ih]
      cases ofSegments (parts.map (List.map Token.ofChar)) <;> simp [Except.map]
    | false => simp [ofTokens_map_ofChar_eq_error hpart]

theorem alternativesOf_lexRight_eq_error_iff {rest : List Char} {cause : Cause} :
    alternativesOf (Token.lexRight rest) = .error cause ↔
      (((Text.dense rest).splitOn '|').find? (!isSegment ·)).map .notNormalForm = some cause := by
  rw [← ofSegments_map_ofChar_eq_error_iff, ← Token.segments_map_ofRightChar]
  rfl

end Rhs

/-! ## Lines -/

namespace Rule

theorem sidesOf_cons_of_ne {token : Token} (h : ∀ x, token ≠ .nonterminal x)
    (tokens : List Token) : sidesOf (token :: tokens) = .error .missingNonterminal := by
  cases token with
  | nonterminal x => exact absurd rfl (h x)
  | _ => rfl

theorem sidesOf_nonterminal_of_ne {x : Symbol} {tokens : List Token}
    (h : tokens.head? ≠ some .arrow) :
    sidesOf (.nonterminal x :: tokens) = .error .missingArrow := by
  cases tokens with
  | nil => rfl
  | cons token tokens =>
    cases token with
    | arrow => exact absurd rfl h
    | _ => rfl

/-- Behind its nonterminal a line is refused for its first defect there. -/
theorem sidesOf_nonterminal_eq_error_iff {x : Symbol} {behind : List Char} {tokens : List Token}
    {cause : Cause} (hlex : Token.lex behind = .ok tokens) :
    sidesOf (.nonterminal x :: tokens) = .error cause ↔ rightDefect? behind = some cause := by
  have hblank := List.head?_dropWhile_not Text.isBlank behind
  rw [← Token.lex_dropWhile_isBlank] at hlex
  unfold rightDefect?
  cases hbehind : behind.dropWhile Text.isBlank with
  | nil =>
    rw [hbehind] at hlex
    obtain rfl : [] = tokens := Except.ok.inj hlex
    simp [Text.behindArrow?, sidesOf]
  | cons d more =>
    rw [hbehind] at hlex hblank
    by_cases hdash : d = '-'
    · subst hdash
      rw [Token.lex_dash] at hlex
      cases harrow : Text.behindArrow? ('-' :: more) with
      | none => simp [harrow] at hlex
      | some rest =>
        obtain rfl : .arrow :: Token.lexRight rest = tokens := by simpa [harrow] using hlex
        rw [← Rhs.alternativesOf_lexRight_eq_error_iff, sidesOf]
        cases Rhs.alternativesOf (Token.lexRight rest) <;> simp [Except.map]
    · rw [Token.lex_cons_of_symbol (by simpa using hblank) hdash] at hlex
      have hhead : tokens.head? ≠ some .arrow := by
        cases hmore : Token.lex more with
        | error e => simp [hmore, Except.map] at hlex
        | ok others =>
          obtain rfl : Token.ofChar d :: others = tokens := by
            simpa [hmore, Except.map] using hlex
          simpa using Token.ofChar_ne_arrow d
      simp [Text.behindArrow?_cons_of_ne hdash, sidesOf_nonterminal_of_ne hhead]

/-- A line with tokens is refused for its first defect apart from the arrow. -/
theorem sidesOf_eq_error_iff {line : Text.Line} {tokens : List Token} {cause : Cause}
    (hlex : Token.lex line = .ok tokens) :
    sidesOf tokens = .error cause ↔ sideDefect? line = some cause := by
  have hblank := List.head?_dropWhile_not Text.isBlank line
  rw [← Token.lex_dropWhile_isBlank] at hlex
  unfold sideDefect?
  cases hwritten : line.dropWhile Text.isBlank with
  | nil =>
    rw [hwritten] at hlex
    obtain rfl : [] = tokens := Except.ok.inj hlex
    simp [sidesOf]
  | cons x behind =>
    rw [hwritten] at hlex hblank
    by_cases hdash : x = '-'
    · subst hdash
      rw [Token.lex_dash] at hlex
      cases harrow : Text.behindArrow? ('-' :: behind) with
      | none => simp [harrow] at hlex
      | some rest =>
        obtain rfl : .arrow :: Token.lexRight rest = tokens := by simpa [harrow] using hlex
        simp [isNonterminal_dash, sidesOf]
    · rw [Token.lex_cons_of_symbol (by simpa using hblank) hdash] at hlex
      cases hbehind : Token.lex behind with
      | error e => simp [hbehind, Except.map] at hlex
      | ok others =>
        obtain rfl : Token.ofChar x :: others = tokens := by
          simpa [hbehind, Except.map] using hlex
        cases hx : isNonterminal x with
        | true =>
          simp only [hx, if_true, Token.ofChar_of_isNonterminal hx]
          exact sidesOf_nonterminal_eq_error_iff hbehind
        | false => simp [hx, sidesOf_cons_of_ne (Token.ofChar_ne_nonterminal hx)]

/-- A line is refused at its location for its first defect. -/
theorem ofLine_eq_error_iff {location : Location} {line : Text.Line} {fault : Fault} :
    ofLine location line = .error fault ↔
      fault.location = location ∧ defect? line = some fault.cause := by
  obtain ⟨place, cause⟩ := fault
  unfold ofLine defect?
  cases hlex : Token.lex line with
  | error e =>
    obtain ⟨harrow, rfl⟩ := Token.lex_eq_error_iff.1 hlex
    simp [Except.bind, harrow, eq_comm]
  | ok tokens =>
    have harrow : Text.hasMalformedArrow line = false := by
      cases h : Text.hasMalformedArrow line with
      | false => rfl
      | true => simp [Token.lex_eq_error_iff.2 ⟨h, rfl⟩] at hlex
    simp only [Except.bind, ofTokens, harrow, Bool.false_eq_true, if_false]
    rw [← sidesOf_eq_error_iff hlex]
    cases sidesOf tokens <;> simp [Except.map, eq_comm]

theorem defect?_eq_none_iff {location : Location} {line : Text.Line} :
    defect? line = none ↔ ∃ r, ofLine location line = .ok r := by
  cases hline : ofLine location line with
  | ok r =>
    refine iff_of_true (Option.eq_none_iff_forall_ne_some.2 fun cause hdefect => ?_) ⟨r, rfl⟩
    have herror : ofLine location line = .error ⟨location, cause⟩ :=
      ofLine_eq_error_iff.2 ⟨rfl, hdefect⟩
    simp [hline] at herror
  | error fault => simp [(ofLine_eq_error_iff.1 hline).2]

/-- A line is read as the rule that it writes, with the location at which it stands, and a line
that writes none is refused at that location for its first defect. -/
theorem ofLine_writes_or_defect (location : Location) (line : Text.Line) :
    (∀ r, ofLine location line = .ok r ↔
      r.location = location ∧ Writes line r.lhs r.alternatives) ∧
    ∀ fault, ofLine location line = .error fault ↔
      fault.location = location ∧ defect? line = some fault.cause :=
  ⟨fun _ => ofLine_eq_ok_iff, fun _ => ofLine_eq_error_iff⟩

-- Three dashes are no arrow wherever they stand, and a bar in front of the arrow is a symbol.
example : ["ε--->a", " \t", "a->b", "S|->a", "S->a|", "S -> AB | a B"].map
      (fun line => defect? line.toList) =
    [some .malformedArrow, some .unexpectedBlankLine, some .missingNonterminal,
      some .missingArrow, some (.notNormalForm []), some (.notNormalForm ['a', 'B'])] := by
  decide +kernel

end Rule

end Chomsky
