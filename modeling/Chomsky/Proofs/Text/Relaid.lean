import Chomsky.Proofs.Text.Printed
/-!
# Texts that are laid out anew

The layout of a text changes in two ways: newlines get a carriage return in front of them, and blank
lines are inserted at the start of the text, at its end or next to a line that is blank already.
Every line then lies further down by the number of lines that were inserted in front of it, and the
end of the text lies further down by the number of all of them. Where the last line of a text has
no newline of its own, it is given one before anything can be inserted behind it.
-/
namespace Chomsky.Text

/-- The second text is the first one with a carriage return in front of some of its newlines. -/
inductive IsReturned : List Char → List Char → Prop
  | nil : IsReturned [] []
  | keep (c : Char) {cs ds : List Char} (h : IsReturned cs ds) : IsReturned (c :: cs) (c :: ds)
  | newline {cs ds : List Char} (h : IsReturned cs ds) :
    IsReturned ('\n' :: cs) ('\r' :: '\n' :: ds)

theorem IsReturned.refl (text : List Char) : IsReturned text text := by
  induction text with
  | nil => exact nil
  | cons c _ ih => exact keep c ih

/-- The text is empty or ends with a newline. -/
def IsWhole (text : List Char) : Prop := ∀ c ∈ text.getLast?, c = '\n'

/-- Blank lines may be inserted between two parts of a text: the first one ends with a line end, and
the line in front of this place or the line behind it, if there is one, is blank. -/
structure IsGap (before after : List Char) : Prop where
  isWhole : IsWhole before
  beside : (∀ line ∈ (lines before).getLast?, isBlankLine line = true) ∨
    ∀ line ∈ (lines after).head?, isBlankLine line = true

/-- The text is made of blank lines; the last one has a line end unless nothing comes after it. -/
structure IsFiller (filler after : List Char) : Prop where
  isBlank : ∀ c ∈ filler, isBlank c = true
  isWhole : after ≠ [] → IsWhole filler

/-- The number of a line when `count` lines are inserted behind the line with number `last`. -/
def pushed (last count number : Nat) : Nat := if number ≤ last then number else number + count

/-- The texts that come from laying a text out anew, each with the number that a line of the text,
or the end of it, has there. -/
inductive Relaid (text : List Char) : List Char → (Nat → Nat) → Prop
  /-- Newlines are given carriage returns. -/
  | returned {text' : List Char} (h : IsReturned text text') : Relaid text text' id
  /-- The last line is given a line end that it does not have. -/
  | ended {text' : List Char} (hend : ¬ IsWhole text) (h : IsReturned (text ++ ['\n']) text') :
    Relaid text text' id
  /-- Blank lines are inserted. -/
  | filled {before after filler : List Char} {move : Nat → Nat}
    (h : Relaid text (before ++ after) move) (hgap : IsGap before after)
    (hfiller : IsFiller filler after) : Relaid text (before ++ (filler ++ after))
      (pushed (lines before).length (lines filler).length ∘ move)

/-! ## Lines -/

/-- Behind a newline the lines are read as in a text of their own. -/
theorem linesFrom_append_of_getLast? {before : List Char} (h : before.getLast? = some '\n')
    (read cs : List Char) : linesFrom read (before ++ cs) = linesFrom read before ++ lines cs := by
  induction before generalizing read with
  | nil => simp at h
  | cons c before ih =>
    rw [List.cons_append]
    cases before with
    | nil =>
      obtain rfl : c = '\n' := by simpa using h
      simp
    | cons d before =>
      have hlast : (d :: before).getLast? = some '\n' := by simpa using h
      by_cases hc : c = '\n'
      · subst hc
        rw [linesFrom_newline, linesFrom_newline, lines, ih hlast]
        rfl
      · rw [linesFrom_cons_of_ne hc, linesFrom_cons_of_ne hc, ih hlast]

theorem lines_append {before : List Char} (h : IsWhole before) (cs : List Char) :
    lines (before ++ cs) = lines before ++ lines cs := by
  cases hlast : before.getLast? with
  | none =>
    obtain rfl : before = [] := List.getLast?_eq_none_iff.1 hlast
    rfl
  | some c =>
    obtain rfl := h c hlast
    exact linesFrom_append_of_getLast? hlast [] cs

theorem closeLine_of_notMem {read : List Char} (h : '\r' ∉ read) :
    closeLine read = read.reverse := by
  rw [closeLine_eq, dropReturn, if_neg]
  intro hlast
  exact h (List.mem_reverse.1 (List.mem_of_getLast? hlast))

/-- Where there were no carriage returns, those that newlines are given change no line. -/
theorem linesFrom_of_isReturned {text text' : List Char} (h : IsReturned text text')
    (hreturn : '\r' ∉ text) {read : List Char} (hread : '\r' ∉ read) :
    linesFrom read text' = linesFrom read text := by
  induction h generalizing read with
  | nil => rfl
  | keep c _ ih =>
    obtain ⟨hc, hcs⟩ := not_or.1 (mt List.mem_cons.2 hreturn)
    by_cases hnewline : c = '\n'
    · subst hnewline
      rw [linesFrom_newline, linesFrom_newline, lines, ih hcs List.not_mem_nil]
      rfl
    · rw [linesFrom_cons_of_ne hnewline, linesFrom_cons_of_ne hnewline]
      apply ih hcs
      simp [hc, hread]
  | newline _ ih =>
    obtain ⟨-, hcs⟩ := not_or.1 (mt List.mem_cons.2 hreturn)
    have hclose : closeLine ('\r' :: read) = closeLine read := (closeLine_of_notMem hread).symm
    rw [linesFrom_cons_of_ne (by decide), linesFrom_newline, linesFrom_newline, hclose, lines,
      ih hcs List.not_mem_nil]
    rfl

theorem lines_of_isReturned {text text' : List Char} (h : IsReturned text text')
    (hreturn : '\r' ∉ text) : lines text' = lines text :=
  linesFrom_of_isReturned h hreturn List.not_mem_nil

/-- A newline that ends the last line changes no line. -/
theorem linesFrom_append_end {text read : List Char} (htext : '\r' ∉ text) (hread : '\r' ∉ read)
    (hne : text = [] → read ≠ []) (hlast : text.getLast? ≠ some '\n') :
    linesFrom read (text ++ ['\n']) = linesFrom read text := by
  induction text generalizing read with
  | nil => simp [closeLine_of_notMem hread, linesFrom, hne rfl]
  | cons c text ih =>
    obtain ⟨hc, hrest⟩ := not_or.1 (mt List.mem_cons.2 htext)
    rw [List.cons_append]
    by_cases hnewline : c = '\n'
    · subst hnewline
      cases text with
      | nil => simp at hlast
      | cons d text =>
        have hend : (d :: text).getLast? ≠ some '\n' := by simpa using hlast
        rw [linesFrom_newline, linesFrom_newline, lines, ih hrest List.not_mem_nil (by simp) hend]
        rfl
    · have hend : text.getLast? ≠ some '\n' := by
        cases text with
        | nil => simp
        | cons d text => simpa using hlast
      rw [linesFrom_cons_of_ne hnewline, linesFrom_cons_of_ne hnewline]
      exact ih hrest (by simp [hc, hread]) (by simp) hend

/-- A newline behind the last line, which has none, changes no line. -/
theorem lines_append_newline {text : List Char} (hreturn : '\r' ∉ text) (hend : ¬ IsWhole text) :
    lines (text ++ ['\n']) = lines text := by
  apply linesFrom_append_end hreturn List.not_mem_nil
  · intro htext
    exact absurd (by simp [IsWhole, htext]) hend
  · intro hlast
    exact hend (by simp [IsWhole, hlast])

theorem IsFiller.isBlankLine {filler after : List Char} (h : IsFiller filler after) {line : Line}
    (hline : line ∈ lines filler) : isBlankLine line = true := by
  rw [Text.isBlankLine, List.all_eq_true]
  exact forall_mem_of_mem_lines (fun c hc _ => h.isBlank c hc) hline

/-- Inserted blank lines stand between the lines in front of them and those behind. -/
theorem lines_filled {before after filler : List Char} (hgap : IsGap before after)
    (hfiller : IsFiller filler after) :
    lines (before ++ (filler ++ after)) = lines before ++ (lines filler ++ lines after) := by
  rw [lines_append hgap.isWhole]
  cases after with
  | nil => simp
  | cons c after => rw [lines_append (hfiller.isWhole (by simp))]

end Chomsky.Text
