import Chomsky.Proofs.Batch.Moved
import Chomsky.Proofs.Text.Relaid
import Mathlib.Order.Monotone.Defs
/-!
# The layout of a text does not matter

Carriage returns and blank lines change neither what a text is accepted with nor what it is refused
for. Carriage returns change no line at all. Blank lines that are inserted beside a blank line, or
at an end of the text, leave the runs of the text as they are and move the lines behind them. The
theorem is an induction over the steps in which a text was laid out anew.
-/
namespace Chomsky

/-! ## Numbers of lines -/

theorem Text.strictMono_pushed (last count : Nat) : StrictMono (pushed last count) := by
  intro m n h
  simp only [pushed]
  split <;> split <;> omega

/-- Lines whose numbers are consecutive, and stay so, are the same lines with other numbers. -/
theorem map_moved_locate {move : Nat → Nat} (file : Path) {m n : Nat} {ls : List Text.Line}
    (h : ∀ i < ls.length, move (m + i) = n + i) :
    (locate file m ls).map (LocatedLine.moved move) = locate file n ls := by
  induction ls generalizing m n with
  | nil => rfl
  | cons line ls ih =>
    have hfirst : move m = n := by simpa using h 0 (by simp)
    have hrest : ∀ i < ls.length, move (m + 1 + i) = n + 1 + i := by
      intro i hi
      have hnext := h (i + 1) (by simpa using hi)
      rw [Nat.add_assoc, Nat.add_comm 1, hnext]
      omega
    rw [locate_cons, locate_cons, List.map_cons, ih hrest, LocatedLine.moved, Location.moved,
      hfirst]

/-- Whether lines are blank at an end does not depend on their locations. -/
theorem forall_getLast?_locate {P : Text.Line → Prop} {file : Path} {n : Nat} {ls : List Text.Line}
    (h : ∀ line ∈ ls.getLast?, P line) : ∀ l ∈ (locate file n ls).getLast?, P l.2 := by
  intro l hl
  have hmap : ((locate file n ls).map Prod.snd).getLast? =
      (locate file n ls).getLast?.map Prod.snd := List.getLast?_map
  rw [map_snd_locate, Option.mem_def.1 hl] at hmap
  exact h l.2 hmap

theorem forall_head?_locate {P : Text.Line → Prop} {file : Path} {n : Nat} {ls : List Text.Line}
    (h : ∀ line ∈ ls.head?, P line) : ∀ l ∈ (locate file n ls).head?, P l.2 := by
  intro l hl
  have hmap : ((locate file n ls).map Prod.snd).head? =
      (locate file n ls).head?.map Prod.snd := List.head?_map
  rw [map_snd_locate, Option.mem_def.1 hl] at hmap
  exact h l.2 hmap

namespace Text
variable {file : Path} {text text' : List Char}

/-! ## One step -/

theorem isMoved_of_lines_eq (h : lines text' = lines text) : IsMoved file text text' id := by
  have hlocated : located file text' = located file text := by rw [located, located, h]
  refine ⟨?_, ?_, ?_⟩
  · intro l hl
    rw [hlocated]
    exact hl
  · have hid : List.map (LocatedLine.moved id) = id := funext List.map_id
    rw [allRuns, hlocated, hid, List.map_id]
    rfl
  · rw [endOf, h]
    rfl

theorem IsMoved.trans {text'' : List Char} {move move' : Nat → Nat}
    (h : IsMoved file text text' move) (h' : IsMoved file text' text'' move') :
    IsMoved file text text'' (move' ∘ move) := by
  refine ⟨?_, ?_, ?_⟩
  · intro l hl
    exact h'.lines _ (h.lines l hl)
  · rw [h'.runs, h.runs, List.map_map]
    congr 1
    funext run
    simp only [Function.comp_apply, List.map_map]
    rfl
  · rw [h'.endOf, h.endOf]
    rfl

/-- Blank lines at an end or beside a blank line move the lines behind them. -/
theorem isMoved_filled {before after filler : List Char} (hgap : IsGap before after)
    (hfiller : IsFiller filler after) :
    IsMoved file (before ++ after) (before ++ (filler ++ after))
      (pushed (lines before).length (lines filler).length) := by
  have hlines : lines (before ++ after) = lines before ++ lines after :=
    lines_append hgap.isWhole after
  have hfilled := lines_filled hgap hfiller
  have hfront : (locate file 1 (lines before)).map
      (LocatedLine.moved (pushed (lines before).length (lines filler).length)) =
        locate file 1 (lines before) := by
    apply map_moved_locate
    intro i hi
    exact if_pos (by omega)
  have hback : (locate file (1 + (lines before).length) (lines after)).map
      (LocatedLine.moved (pushed (lines before).length (lines filler).length)) =
        locate file (1 + (lines before).length + (lines filler).length) (lines after) := by
    apply map_moved_locate
    intro i _
    rw [pushed, if_neg (by omega)]
    omega
  have hmoved : (located file (before ++ after)).map
      (LocatedLine.moved (pushed (lines before).length (lines filler).length)) =
        locate file 1 (lines before) ++
          locate file (1 + (lines before).length + (lines filler).length) (lines after) := by
    rw [located, hlines, locate_append, List.map_append, hfront, hback]
  have hlocated : located file (before ++ (filler ++ after)) = locate file 1 (lines before) ++
      (locate file (1 + (lines before).length) (lines filler) ++
        locate file (1 + (lines before).length + (lines filler).length) (lines after)) := by
    rw [located, hfilled, locate_append, locate_append]
  refine ⟨?_, ?_, ?_⟩
  · intro l hl
    have hmem := List.mem_map_of_mem
      (f := LocatedLine.moved (pushed (lines before).length (lines filler).length)) hl
    rw [hmoved] at hmem
    rw [hlocated]
    rcases List.mem_append.1 hmem with hbefore | hafter
    · exact List.mem_append_left _ hbefore
    · exact List.mem_append_right _ (List.mem_append_right _ hafter)
  · have hblank : ∀ l ∈ locate file (1 + (lines before).length) (lines filler),
        (isBlankLine ∘ Prod.snd) l = true := by
      intro l hl
      have hline := List.mem_map_of_mem (f := Prod.snd) hl
      rw [map_snd_locate] at hline
      exact hfiller.isBlankLine hline
    have hbeside : (∀ l ∈ (locate file 1 (lines before)).getLast?, isBlankLine l.2 = true) ∨
        ∀ l ∈ (locate file (1 + (lines before).length + (lines filler).length)
          (lines after)).head?, isBlankLine l.2 = true :=
      hgap.beside.imp forall_getLast?_locate forall_head?_locate
    rw [allRuns, hlocated, runsBetween_append_gaps hblank hbeside, ← hmoved, runsBetween_map]
    rfl
  · have hend : ¬ (lines (before ++ after)).length + 1 ≤ (lines before).length := by
      rw [hlines, List.length_append]
      omega
    rw [endOf, endOf, hfilled, Location.moved, pushed, if_neg hend, hlines]
    simp only [List.length_append, Location.mk.injEq, true_and]
    omega

/-! ## All steps -/

/-- A text that is laid out anew has its lines in other places. -/
theorem Relaid.isMoved {move : Nat → Nat} (hreturn : '\r' ∉ text) (h : Relaid text text' move) :
    IsMoved file text text' move := by
  induction h with
  | returned h => exact isMoved_of_lines_eq (lines_of_isReturned h hreturn)
  | ended hend h =>
    have hnewline : '\r' ∉ text ++ ['\n'] := by simp [hreturn]
    exact isMoved_of_lines_eq
      ((lines_of_isReturned h hnewline).trans (lines_append_newline hreturn hend))
  | filled _ hgap hfiller ih => exact ih.trans (isMoved_filled hgap hfiller)

theorem Relaid.strictMono {move : Nat → Nat} (h : Relaid text text' move) : StrictMono move := by
  induction h with
  | returned h => exact strictMono_id
  | ended hend h => exact strictMono_id
  | filled _ _ _ ih => exact (strictMono_pushed _ _).comp ih

end Text

namespace Batch

/-- A text without carriage returns may be laid out anew: however many newlines are given carriage
returns, and however many blank lines are inserted at its start, at its end or beside its blank
lines, it is accepted with the same blocks or refused for the same faults in the same order. The
locations of both are moved like the lines of the text, each of which lies at its new place, and
like its end. -/
theorem ofText_relaid (file : Path) {text text' : List Char} {move : Nat → Nat}
    (hreturn : '\r' ∉ text) (h : Text.Relaid text text' move) :
    IsSameBut move (ofText file text) (ofText file text') ∧ StrictMono move ∧
    (∀ l ∈ Text.located file text, (l.1.moved move, l.2) ∈ Text.located file text') ∧
    Text.endOf file text' = (Text.endOf file text).moved move := by
  have hmoved : Text.IsMoved file text text' move := h.isMoved hreturn
  exact ⟨ofText_of_isMoved hmoved, h.strictMono, hmoved.lines, hmoved.endOf⟩

/-- A text with two faults, one on its last line and one at its end, is given a carriage return, a
line end that was missing and two blank lines. Both faults are found in it, further down. A short
text is accepted with a blank line in front of it, too. -/
theorem ofText_relaid_unfinishedText :
    (∃ move, IsSameBut move
        (.error [⟨⟨⟨['f']⟩, 3⟩, .missingArrow⟩, ⟨⟨⟨['f']⟩, 4⟩, .missingCount⟩])
        (ofText ⟨['f']⟩ ['1', '\r', '\n', ' ', '\n', '\n', 'S', '\n', '\t']) ∧
      move 3 = 4 ∧ move 4 = 6) ∧
    ∃ move batch, ofText ⟨['f']⟩ "1\n\nS->a\n\n0".toList = .ok batch ∧
      IsSameBut move (.ok batch) (ofText ⟨['f']⟩ ('\n' :: "1\n\nS->a\n\n0".toList)) ∧
      move 3 = 4 := by
  constructor
  · have hreturned :
        Text.Relaid ['1', '\n', '\n', 'S'] (['1', '\r', '\n'] ++ ['\n', 'S', '\n']) id :=
      .ended (by simp [Text.IsWhole]) (.keep '1' (.newline (.refl _)))
    have hgap : Text.IsGap ['1', '\r', '\n'] ['\n', 'S', '\n'] :=
      ⟨by simp [Text.IsWhole], .inr (by decide)⟩
    have hfiller : Text.IsFiller [' ', '\n'] ['\n', 'S', '\n'] :=
      ⟨List.all_eq_true.1 (by decide), fun _ => by simp [Text.IsWhole]⟩
    have hfilled : Text.Relaid _ (['1', '\r', '\n', ' ', '\n', '\n', 'S', '\n'] ++ []) _ :=
      hreturned.filled hgap hfiller
    have hend : Text.IsGap ['1', '\r', '\n', ' ', '\n', '\n', 'S', '\n'] [] :=
      ⟨by simp [Text.IsWhole], .inr (by decide)⟩
    have htab : Text.IsFiller ['\t'] [] :=
      ⟨List.all_eq_true.1 (by decide), fun h => absurd rfl h⟩
    have hfaults : ofText ⟨['f']⟩ ['1', '\n', '\n', 'S'] =
        .error [⟨⟨⟨['f']⟩, 3⟩, .missingArrow⟩, ⟨⟨⟨['f']⟩, 4⟩, .missingCount⟩] := by decide +kernel
    obtain ⟨hsame, -, -, -⟩ := ofText_relaid ⟨['f']⟩ (by decide) (hfilled.filled hend htab)
    exact ⟨_, hfaults ▸ hsame, by decide, by decide⟩
  · let text : List Char := "1\n\nS->a\n\n0".toList
    have hstart : Text.IsGap [] text := ⟨by simp [Text.IsWhole], .inl (by decide)⟩
    have hnewline : Text.IsFiller ['\n'] text :=
      ⟨List.all_eq_true.1 (by decide), fun _ => by simp [Text.IsWhole]⟩
    have hself : Text.Relaid text ([] ++ text) id := .returned (.refl _)
    have haccepted := ofText_eq_ok.2 ⟨(by decide +kernel : findings ⟨['f']⟩ text = []), rfl⟩
    obtain ⟨hsame, -, -, -⟩ := ofText_relaid ⟨['f']⟩ (by decide) (hself.filled hstart hnewline)
    exact ⟨_, _, haccepted, haccepted ▸ hsame, by decide⟩

end Batch

end Chomsky
