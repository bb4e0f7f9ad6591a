import Chomsky.Proofs.Line.Defects
import Chomsky.Proofs.Line.Shown
import Mathlib.Data.List.Basic
/-!
# Tokens keep what a line says

A line without a dash is all symbols. Otherwise its first dash has to start an arrow, what stands in
front of it is symbols, and what stands behind it is symbols and bars. Blanks are all that is lost
on the way to tokens, together with the length of the arrow: what the tokens show, one behind the
other, is the line without its blanks and with a long arrow, and showing them with blanks in between
makes a line with the same tokens.
-/
namespace Chomsky

/-- The text in which the arrow at the first dash, if one stands there, has two dashes. -/
def Text.withLongArrow (line : Text.Line) : Text.Line :=
  match behindArrow? (line.dropWhile (· ≠ '-')) with
  | some rest => line.takeWhile (· ≠ '-') ++ (arrowText ++ rest)
  | none => line

/-- Tokens as they are shown, with a blank between any two. -/
def Token.lineOf (tokens : List Token) : Text.Line := [' '].intercalate (tokens.map text)

/-! ## Texts and their first dash -/

namespace Text

theorem mem_of_mem_dense {cs : List Char} {c : Char} (h : c ∈ dense cs) : c ∈ cs :=
  (List.mem_filter.1 h).1

theorem dropWhile_of_notMem {cs : List Char} (h : '-' ∉ cs) : cs.dropWhile (· ≠ '-') = [] := by
  rw [List.dropWhile_eq_nil_iff]
  intro c hc
  exact decide_eq_true fun heq => h (heq ▸ hc)

/-- A text is cut in front of a dash that has none in front of it. -/
theorem cut_at_dash {before : List Char} (h : '-' ∉ before) (behind : List Char) :
    (before ++ '-' :: behind).takeWhile (· ≠ '-') = before ∧
      (before ++ '-' :: behind).dropWhile (· ≠ '-') = '-' :: behind := by
  have hall : ∀ c ∈ before, decide (c ≠ '-') = true := by
    intro c hc
    exact decide_eq_true fun heq => h (heq ▸ hc)
  rw [List.takeWhile_append_of_pos hall, List.dropWhile_append_of_pos hall]
  simp

/-- A text has a dash in front of which there is none, if it has any. -/
theorem exists_append_dash {cs : List Char} (h : '-' ∈ cs) :
    ∃ before behind, cs = before ++ '-' :: behind ∧ '-' ∉ before := by
  obtain ⟨before, behind, hcs, hbefore⟩ := List.eq_append_cons_of_mem h
  exact ⟨before, behind, hcs, hbefore⟩

theorem withLongArrow_of_notMem {line : Line} (h : '-' ∉ line) : withLongArrow line = line := by
  rw [withLongArrow, dropWhile_of_notMem h]
  rfl

theorem withLongArrow_append {before arrow rest : List Char} (h : '-' ∉ before)
    (harrow : IsArrow arrow) :
    withLongArrow (before ++ (arrow ++ rest)) = before ++ (arrowText ++ rest) := by
  have hbehind : behindArrow? (arrow ++ rest) = some rest :=
    behindArrow?_eq_some_iff.2 ⟨arrow, harrow, rfl⟩
  obtain ⟨tail, rfl⟩ := Token.exists_dash_of_isArrow harrow
  obtain ⟨htake, hdrop⟩ := cut_at_dash h (tail ++ rest)
  rw [List.cons_append] at hbehind ⊢
  rw [withLongArrow, hdrop, hbehind, htake]

/-- An arrow is malformed if there is a dash, and no arrow at the first one. -/
theorem hasMalformedArrow_iff {line : Line} : hasMalformedArrow line = true ↔
    '-' ∈ line ∧ ∀ arrow, IsArrow arrow → ¬ arrow <+: line.dropWhile (· ≠ '-') := by
  by_cases hdash : '-' ∈ line
  · obtain ⟨before, behind, rfl, hbefore⟩ := exists_append_dash hdash
    rw [hasMalformedArrow, (cut_at_dash hbefore behind).2]
    simp only [hdash, true_and, Option.isNone_iff_eq_none]
    constructor
    · rintro hnone arrow harrow ⟨rest, hrest⟩
      have hsome := behindArrow?_eq_some_iff.2 ⟨arrow, harrow, hrest.symm⟩
      simp [hnone] at hsome
    · intro hno
      by_contra hsome
      obtain ⟨rest, hrest⟩ := Option.ne_none_iff_exists'.1 hsome
      obtain ⟨arrow, harrow, heq⟩ := behindArrow?_eq_some_iff.1 hrest
      exact hno arrow harrow ⟨rest, heq.symm⟩
  · rw [hasMalformedArrow, dropWhile_of_notMem hdash]
    simp [hdash]

end Text

/-! ## The tokens of a line -/

namespace Token

theorem text_ofRightChar (c : Char) : (ofRightChar c).text = [c] := by
  by_cases hc : c = '|'
  · simp [ofRightChar, hc, text]
  · simp [ofRightChar, hc]

theorem ofRightChar_ne_arrow (c : Char) : ofRightChar c ≠ arrow := by
  by_cases hc : c = '|'
  · simp [ofRightChar, hc]
  · simp [ofRightChar, hc, ofChar_ne_arrow]

/-- In front of the first dash every character that is not blank is a symbol. -/
theorem lex_append_of_notMem {before : List Char} (h : '-' ∉ before) (cs : List Char) :
    lex (before ++ cs) = (lex cs).map ((Text.dense before).map ofChar ++ ·) := by
  induction before with
  | nil =>
    rw [List.nil_append]
    cases lex cs <;> rfl
  | cons c before ih =>
    obtain ⟨hc, hbefore⟩ := not_or.1 (mt List.mem_cons.2 h)
    rw [List.cons_append]
    by_cases hblank : Text.isBlank c = true
    · rw [lex_cons_of_isBlank hblank, ih hbefore]
      simp [Text.dense, hblank]
    · rw [lex_cons_of_symbol (by simpa using hblank) (Ne.symm hc), ih hbefore]
      cases lex cs <;> simp [Except.map, Text.dense, hblank]

/-- A line has tokens if it has no dash, or an arrow at its first one. -/
theorem lex_eq_ok_iff {line : Text.Line} {tokens : List Token} : lex line = .ok tokens ↔
    ('-' ∉ line ∧ tokens = (Text.dense line).map ofChar) ∨
    ∃ before arrow rest, line = before ++ (arrow ++ rest) ∧ '-' ∉ before ∧ IsArrow arrow ∧
      tokens = (Text.dense before).map ofChar ++ .arrow :: (Text.dense rest).map ofRightChar := by
  constructor
  · intro h
    by_cases hdash : '-' ∈ line
    · right
      obtain ⟨before, behind, rfl, hbefore⟩ := Text.exists_append_dash hdash
      rw [lex_append_of_notMem hbefore, lex_dash] at h
      cases hbehind : Text.behindArrow? ('-' :: behind) with
      | none => simp [hbehind, Except.map] at h
      | some rest =>
        obtain ⟨arrow, harrow, heq⟩ := Text.behindArrow?_eq_some_iff.1 hbehind
        rw [hbehind] at h
        exact ⟨before, arrow, rest, by rw [heq], hbefore, harrow, (Except.ok.inj h).symm⟩
    · left
      rw [← List.append_nil line, lex_append_of_notMem hdash] at h
      refine ⟨hdash, ?_⟩
      simpa [Except.map, eq_comm] using h
  · rintro (⟨hdash, rfl⟩ | ⟨before, arrow, rest, rfl, hbefore, harrow, rfl⟩)
    · rw [← List.append_nil line, lex_append_of_notMem hdash]
      simp [Except.map]
    · rw [lex_append_of_notMem hbefore, lex_append_of_isArrow harrow]
      rfl

/-! ## Showing tokens -/

/-- What is put together with separators, cut around one of its parts. -/
theorem intercalate_append_cons {α : Type} (sep : List α) (xs : List (List α)) (y : List α)
    (ys : List (List α)) : sep.intercalate (xs ++ y :: ys) =
      xs.flatMap (· ++ sep) ++ (y ++ ys.flatMap (sep ++ ·)) := by
  have hfirst : sep.intercalate (y :: ys) = y ++ ys.flatMap (sep ++ ·) := by
    induction ys generalizing y with
    | nil => simp
    | cons z ys ih => simp [List.intercalate_cons_cons, ih]
  induction xs with
  | nil => exact hfirst
  | cons x xs ih =>
    rw [List.cons_append, List.intercalate_cons_of_ne_nil (by simp), ih]
    simp

/-- Without blanks of their own, characters stay the same when blanks are put between them. -/
theorem dense_flatMap_blank {cs : List Char} (h : ∀ c ∈ cs, Text.isBlank c = false) :
    Text.dense (cs.flatMap fun c => [c, ' ']) = cs ∧
      Text.dense (cs.flatMap fun c => [' ', c]) = cs := by
  have hblank : Text.isBlank ' ' = true := rfl
  induction cs with
  | nil => exact ⟨rfl, rfl⟩
  | cons c cs ih =>
    obtain ⟨hc, hcs⟩ := List.forall_mem_cons.1 h
    obtain ⟨hbehind, hfront⟩ := ih hcs
    simp only [Text.dense] at hbehind hfront ⊢
    simp [hc, hblank, hbehind, hfront]

theorem lineOf_map_ofChar_cons (c : Char) (cs : List Char) :
    lineOf ((c :: cs).map ofChar) = c :: cs.flatMap fun d => [' ', d] := by
  have hline := intercalate_append_cons [' '] [] (ofChar c).text ((cs.map ofChar).map text)
  rw [List.nil_append] at hline
  rw [lineOf, List.map_cons, List.map_cons, hline]
  simp [List.flatMap_map]

theorem lineOf_append_arrow (cs ds : List Char) :
    lineOf (cs.map ofChar ++ .arrow :: ds.map ofRightChar) =
      cs.flatMap (fun c => [c, ' ']) ++ (arrowText ++ ds.flatMap fun d => [' ', d]) := by
  rw [lineOf, List.map_append, List.map_cons, intercalate_append_cons]
  simp only [List.map_map, List.flatMap_map, Function.comp_apply, text_ofChar, text_ofRightChar]
  rfl

/-- The line that shows the tokens of a line has the same tokens. -/
theorem lex_lineOf {line : Text.Line} {tokens : List Token} (h : lex line = .ok tokens) :
    lex (lineOf tokens) = .ok tokens := by
  have hdense : ∀ cs : List Char, ∀ c ∈ Text.dense cs, Text.isBlank c = false := by
    intro cs c hc
    exact Text.isBlank_of_mem_dense hc
  rw [lex_eq_ok_iff] at h ⊢
  rcases h with ⟨hdash, rfl⟩ | ⟨before, arrow, rest, rfl, hbefore, harrow, rfl⟩
  · left
    have hline := hdense line
    have hnone : '-' ∉ Text.dense line := fun hmem => hdash (Text.mem_of_mem_dense hmem)
    generalize Text.dense line = symbols at hline hnone
    cases symbols with
    | nil => exact ⟨List.not_mem_nil, rfl⟩
    | cons c cs =>
      obtain ⟨hc, hcs⟩ := List.forall_mem_cons.1 hline
      rw [lineOf_map_ofChar_cons]
      refine ⟨?_, ?_⟩
      · simpa using hnone
      · have hfront := (dense_flatMap_blank hcs).2
        simp only [Text.dense] at hfront ⊢
        simp [hc, hfront]
  · right
    refine ⟨_, arrowText, _, lineOf_append_arrow _ _, ?_, Or.inr rfl, ?_⟩
    · have hnone : '-' ∉ Text.dense before := fun hmem => hbefore (Text.mem_of_mem_dense hmem)
      simpa using hnone
    · rw [(dense_flatMap_blank (hdense before)).1, (dense_flatMap_blank (hdense rest)).2]

/-! ## What tokens keep -/

/-- Shown one behind the other, the tokens of a line are the line without its blanks and with a
long arrow. -/
theorem flatMap_text_of_lex {line : Text.Line} {tokens : List Token} (h : lex line = .ok tokens) :
    tokens.flatMap text = Text.dense (Text.withLongArrow line) := by
  rcases lex_eq_ok_iff.1 h with ⟨hdash, rfl⟩ | ⟨before, arrow, rest, rfl, hbefore, harrow, rfl⟩
  · rw [Text.withLongArrow_of_notMem hdash, flatMap_text_map text_ofChar]
  · rw [Text.withLongArrow_append hbefore harrow, List.flatMap_append, List.flatMap_cons,
      flatMap_text_map text_ofChar, flatMap_text_map text_ofRightChar, Text.dense_append,
      Text.dense_append]
    rfl

/-- Among the tokens of a line there is one arrow at most, and bars are behind it. -/
theorem arrow_of_lex {line : Text.Line} {tokens : List Token} (h : lex line = .ok tokens) :
    tokens.count .arrow ≤ 1 ∧ (∀ left right, tokens = left ++ .arrow :: right → .bar ∉ left) ∧
      (.arrow ∉ tokens → .bar ∉ tokens) := by
  have harrows : ∀ cs : List Char, .arrow ∉ cs.map ofChar ∧ .bar ∉ cs.map ofChar := by
    intro cs
    simp [ofChar_ne_arrow, ofChar_ne_bar]
  have hright : ∀ cs : List Char, .arrow ∉ cs.map ofRightChar := by
    intro cs
    simp [ofRightChar_ne_arrow]
  rcases lex_eq_ok_iff.1 h with ⟨-, rfl⟩ | ⟨before, arrow, rest, -, -, -, rfl⟩
  · obtain ⟨hnone, hbar⟩ := harrows (Text.dense line)
    refine ⟨by simp [List.count_eq_zero_of_not_mem hnone], ?_, fun _ => hbar⟩
    intro left right heq
    exact absurd (heq ▸ List.mem_append_right left List.mem_cons_self) hnone
  · obtain ⟨hnone, hbar⟩ := harrows (Text.dense before)
    have hbehind := hright (Text.dense rest)
    refine ⟨?_, ?_, ?_⟩
    · simp [List.count_append, List.count_eq_zero_of_not_mem hnone,
        List.count_eq_zero_of_not_mem hbehind]
    · intro left right heq
      obtain ⟨rfl, -, -⟩ := (List.append_cons_inj_of_notMem hnone hbehind).1 heq
      exact hbar
    · intro hno
      exact absurd (List.mem_append_right _ List.mem_cons_self) hno

/-- A line has no tokens for one reason only: there is a dash, and what stands at the first one is
no arrow. The tokens of any other line show it without its blanks and with a long arrow; one of
them at most is an arrow, and none in front of it is a bar; and the line that shows them with blanks
between them has the same tokens. -/
theorem lex_lossless (line : Text.Line) :
    (∀ cause, lex line = .error cause ↔ cause = .malformedArrow ∧ '-' ∈ line ∧
      ∀ arrow, IsArrow arrow → ¬ arrow <+: line.dropWhile (· ≠ '-')) ∧
    ∀ tokens, lex line = .ok tokens →
      tokens.flatMap text = Text.dense (Text.withLongArrow line) ∧
      tokens.count .arrow ≤ 1 ∧
      (∀ left right, tokens = left ++ .arrow :: right → .bar ∉ left) ∧
      (.arrow ∉ tokens → .bar ∉ tokens) ∧
      lex (lineOf tokens) = .ok tokens := by
  refine ⟨?_, ?_⟩
  · intro cause
    rw [lex_eq_error_iff, Text.hasMalformedArrow_iff]
    exact and_comm
  · intro tokens h
    obtain ⟨hcount, hbar, hnone⟩ := arrow_of_lex h
    exact ⟨flatMap_text_of_lex h, hcount, hbar, hnone, lex_lineOf h⟩

/-- A line with a bar and an angle bracket in front of its arrow, and with signs behind it that
look like a second arrow. -/
def crowdedLine : Text.Line := "S |>\t->>ab|-->ε ".toList

/-- The crowded line keeps all its signs as tokens of their own, apart from the first arrow. With
three dashes in front of the bracket a line has no tokens. -/
theorem lex_lossless_crowdedLine :
    (∃ tokens, lex crowdedLine = .ok tokens ∧
      tokens.flatMap text = "S|>-->>ab|-->ε".toList ∧ tokens.count .arrow ≤ 1 ∧
      lineOf tokens = "S | > --> > a b | - - > ε".toList ∧ lex (lineOf tokens) = .ok tokens) ∧
    lex "S ---> a".toList = .error .malformedArrow := by
  have hlex : lex crowdedLine = .ok [.nonterminal 'S', .terminal '|', .terminal '>', .arrow,
      .terminal '>', .terminal 'a', .terminal 'b', .bar, .terminal '-', .terminal '-',
      .terminal '>', .epsilon] := by decide +kernel
  have hlong : Text.dense (Text.withLongArrow crowdedLine) = "S|>-->>ab|-->ε".toList := by
    decide +kernel
  obtain ⟨htext, hcount, -, -, hagain⟩ := (lex_lossless crowdedLine).2 _ hlex
  refine ⟨⟨_, hlex, htext.trans hlong, hcount, by decide +kernel, hagain⟩, ?_⟩
  rw [(lex_lossless _).1]
  refine ⟨rfl, by decide, ?_⟩
  rintro arrow (rfl | rfl) <;> decide

end Token

end Chomsky
