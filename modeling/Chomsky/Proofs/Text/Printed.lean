import Chomsky.Text.Lines
import Mathlib.Algebra.Group.Nat.Defs
import Mathlib.Data.List.Basic
/-!
# Printed texts

A printed text ends each of its lines with a newline, and a printed count is a decimal number.
Reading the text gives its lines back, but for a carriage return at the end of a line, which is
then part of the line end; reading the number gives the count back if it fits.
-/
namespace Chomsky.Text

/-! ## Lines -/

/-- The text of lines, a newline behind each. -/
def unlines (ls : List Line) : List Char := ls.flatMap (· ++ ['\n'])

/-- The line without a carriage return at its end, if one is there. -/
def dropReturn (line : Line) : Line :=
  if line.getLast? = some '\r' then line.dropLast else line

theorem closeLine_eq (read : List Char) : closeLine read = dropReturn read.reverse := by
  cases read with
  | nil => rfl
  | cons c read =>
    by_cases hc : c = '\r'
    · subst hc
      simp [closeLine, dropReturn]
    · simp [closeLine, dropReturn, hc]

/-- The line being read goes on up to the next newline. -/
theorem linesFrom_append_newline {line : Line} (h : '\n' ∉ line) (read cs : List Char) :
    linesFrom read (line ++ '\n' :: cs) = dropReturn (read.reverse ++ line) :: lines cs := by
  induction line generalizing read with
  | nil => rw [List.nil_append, linesFrom_newline, closeLine_eq, List.append_nil]
  | cons c line ih =>
    obtain ⟨hc, hline⟩ := not_or.1 (mt List.mem_cons.2 h)
    rw [List.cons_append, linesFrom_cons_of_ne (Ne.symm hc), ih hline, List.reverse_cons,
      List.append_assoc, List.singleton_append]

/-- A printed text has the lines that it was printed from, without carriage returns at their
ends. -/
theorem lines_unlines {ls : List Line} (h : ∀ line ∈ ls, '\n' ∉ line) :
    lines (unlines ls) = ls.map dropReturn := by
  induction ls with
  | nil => rfl
  | cons line ls ih =>
    obtain ⟨hline, hrest⟩ := List.forall_mem_cons.1 h
    rw [unlines, List.flatMap_cons, List.append_assoc, List.singleton_append, lines,
      linesFrom_append_newline hline, List.map_cons, ← ih hrest]
    rfl

theorem mem_of_mem_dropReturn {line : Line} {c : Char} (h : c ∈ dropReturn line) : c ∈ line := by
  unfold dropReturn at h
  split at h
  · exact List.dropLast_subset line h
  · exact h

/-- The characters of a line are characters of the text, and none is a newline. -/
theorem forall_mem_of_mem_lines {P : Char → Prop} {text : List Char}
    (h : ∀ c ∈ text, c ≠ '\n' → P c) {line : Line} (hline : line ∈ lines text) :
    ∀ c ∈ line, P c := by
  have hfrom : ∀ {read cs : List Char}, (∀ c ∈ read, P c) → (∀ c ∈ cs, c ≠ '\n' → P c) →
      line ∈ linesFrom read cs → ∀ c ∈ line, P c := by
    intro read cs
    induction cs generalizing read with
    | nil =>
      intro hread _ hline c hc
      obtain ⟨-, rfl⟩ : read ≠ [] ∧ line = read.reverse := by
        simpa [linesFrom] using hline
      exact hread c (List.mem_reverse.1 hc)
    | cons d cs ih =>
      intro hread hcs hline
      obtain ⟨hd, hrest⟩ := List.forall_mem_cons.1 hcs
      by_cases hnewline : d = '\n'
      · subst hnewline
        rw [linesFrom_newline, closeLine_eq] at hline
        rcases List.mem_cons.1 hline with rfl | hline
        · intro c hc
          exact hread c (List.mem_reverse.1 (mem_of_mem_dropReturn hc))
        · exact ih (by simp) hrest hline
      · rw [linesFrom_cons_of_ne hnewline] at hline
        exact ih (List.forall_mem_cons.2 ⟨hd hnewline, hread⟩) hrest hline
  exact hfrom (by simp) h hline

theorem newline_notMem_of_mem_lines {text : List Char} {line : Line} (h : line ∈ lines text) :
    '\n' ∉ line := by
  intro hmem
  exact forall_mem_of_mem_lines (P := (· ≠ '\n')) (fun _ _ hc => hc) h _ hmem rfl

/-- A line is the line without its carriage return and blanks behind it. -/
theorem exists_dropReturn_append (line : Line) :
    ∃ blanks, isBlankLine blanks = true ∧ line = dropReturn line ++ blanks := by
  unfold dropReturn
  split
  · rename_i h
    exact ⟨['\r'], rfl, (List.dropLast_append_getLast? _ h).symm⟩
  · exact ⟨[], rfl, (List.append_nil line).symm⟩

@[simp] theorem isBlankLine_dropReturn (line : Line) :
    isBlankLine (dropReturn line) = isBlankLine line := by
  obtain ⟨blanks, hblanks, hline⟩ := exists_dropReturn_append line
  rw [hline]
  simp only [isBlankLine, List.all_append] at hblanks ⊢
  rw [← hline, hblanks, Bool.and_true]

theorem dropReturn_eq_self {line : Line} (h : ∀ c ∈ line, isBlank c = false) :
    dropReturn line = line := by
  rw [dropReturn, if_neg]
  intro hlast
  exact absurd (h _ (List.mem_of_getLast? hlast)) (by decide)

theorem newline_notMem {line : Line} (h : ∀ c ∈ line, isBlank c = false) : '\n' ∉ line :=
  fun hmem => absurd (h _ hmem) (by decide)

theorem trim_eq_self {line : Line} (h : ∀ c ∈ line, isBlank c = false) : trim line = line := by
  have hdrop : ∀ {cs : List Char}, (∀ c ∈ cs, isBlank c = false) → cs.dropWhile isBlank = cs := by
    intro cs hcs
    cases cs with
    | nil => rfl
    | cons c cs => exact List.dropWhile_cons_of_neg (by simp [hcs c List.mem_cons_self])
  rw [trim, hdrop h, trimEnd, hdrop (by simpa using h), List.reverse_reverse]

/-! ## Counts -/

def decimal (n : Nat) : List Char := (toString n).toList

theorem decimal_eq (n : Nat) : decimal n = Nat.toDigits 10 n := by
  rw [decimal, Nat.toString_eq_ofList_toDigits, String.toList_ofList]

theorem decimal_ne_nil (n : Nat) : decimal n ≠ [] := decimal_eq n ▸ Nat.toDigits_ne_nil

theorem isDigit_of_mem_decimal {n : Nat} {c : Char} (h : c ∈ decimal n) : c.isDigit = true :=
  Nat.isDigit_of_mem_toDigits (by decide) (by decide) (decimal_eq n ▸ h)

theorem digit?_of_isDigit {c : Char} (h : c.isDigit = true) :
    digit? c = some (c.toNat - '0'.toNat) := by
  simp only [Char.isDigit, Bool.and_eq_true, decide_eq_true_eq] at h
  exact if_pos h

theorem digitsFrom_of_isDigit {cs : List Char} (h : ∀ c ∈ cs, c.isDigit = true) (value : Nat) :
    digitsFrom value cs = some (Nat.ofDigitChars 10 cs value) := by
  induction cs generalizing value with
  | nil => rfl
  | cons c cs ih =>
    obtain ⟨hc, hcs⟩ := List.forall_mem_cons.1 h
    rw [digitsFrom, digit?_of_isDigit hc, Option.bind_some, ih hcs]
    rfl

theorem isBlank_of_isDigit {c : Char} (h : c.isDigit = true) : isBlank c = false := by
  simp only [Char.isDigit, Bool.and_eq_true, decide_eq_true_eq] at h
  have hlow : 48 ≤ c.toNat := h.1
  have hhigh : c.toNat ≤ 57 := h.2
  simp only [isBlank, Bool.or_eq_false_iff, Bool.and_eq_false_iff, decide_eq_false_iff_not]
  omega

theorem isBlank_of_mem_decimal {n : Nat} {c : Char} (h : c ∈ decimal n) : isBlank c = false :=
  isBlank_of_isDigit (isDigit_of_mem_decimal h)

/-- A printed number writes the count that it was printed from. -/
theorem count?_decimal {bits n : Nat} (h : n < 2 ^ bits) : count? bits (decimal n) = some n := by
  have hdigits : digits? (decimal n) = some n := by
    rw [digits?, if_neg (by simpa using decimal_ne_nil n),
      digitsFrom_of_isDigit fun c hc => isDigit_of_mem_decimal hc, decimal_eq,
      Nat.ofDigitChars_ten_toDigits]
  have hplus : dropPlus (decimal n) = decimal n := by
    unfold dropPlus
    split
    · rename_i cs hcs
      have hdigit : '+'.isDigit = true := isDigit_of_mem_decimal (n := n) (by simp [hcs])
      exact absurd hdigit (by decide)
    · rfl
  rw [count?, hplus, hdigits, Option.filter_some, Nat.one_shiftLeft, if_pos (by simpa using h)]

end Chomsky.Text
