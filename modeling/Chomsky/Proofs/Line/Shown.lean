import Chomsky.Proofs.Line.Written
/-!
# Showing rules

A rule is shown as one line, with blanks around its arrow and its bars. Reading that line gives
the rule back, as long as no terminal is a character that a line treats in some other way: a
blank, a bar, a nonterminal or `ε`. Dashes and angle brackets are no such characters. The rules
that lines write are exactly the ones with this property, however the line was laid out.
-/
namespace Chomsky

/-- Right sides that are read as they are shown. -/
def Rhs.IsShowable : Rhs → Prop
  | .terminal t => Text.isBlank t = false ∧ isNonterminal t = false ∧ t ≠ epsilon ∧ t ≠ '|'
  | .pair left right => isNonterminal left = true ∧ isNonterminal right = true
  | .empty => True

namespace Rule

/-- A nonterminal and at least one alternative, all of them read as they are shown. -/
structure IsShowable (x : Symbol) (alternatives : List Rhs) : Prop where
  lhs : isNonterminal x = true
  ne_nil : alternatives ≠ []
  alternatives : ∀ rhs ∈ alternatives, rhs.IsShowable

/-- The line that shows alternatives for `x`. -/
def text (x : Symbol) (alternatives : List Rhs) : Text.Line :=
  x :: ' ' :: (arrowText ++ ' ' :: [' ', '|', ' '].intercalate (alternatives.map Rhs.text))

theorem text_singleton (x : Symbol) (rhs : Rhs) : text x [rhs] = Production.text ⟨x, rhs⟩ := by
  rw [text, List.map_singleton, List.intercalate_singleton, Production.text]

end Rule

/-! ## Characters of shown right sides -/

namespace Text

theorem dense_append (cs ds : List Char) : dense (cs ++ ds) = dense cs ++ dense ds :=
  List.filter_append ..

theorem dense_eq_self {cs : List Char} (h : ∀ c ∈ cs, isBlank c = false) : dense cs = cs := by
  rw [dense, List.filter_eq_self]
  intro c hc
  simp [h c hc]

theorem isBlank_of_mem_dense {cs : List Char} {c : Char} (h : c ∈ dense cs) :
    isBlank c = false := by
  simpa using (List.mem_filter.1 h).2

/-- Blanks go from the parts and from what stands between them. -/
theorem dense_intercalate (sep : List Char) (parts : List (List Char)) :
    dense (sep.intercalate parts) = (dense sep).intercalate (parts.map dense) := by
  induction parts with
  | nil => rfl
  | cons part parts ih =>
    cases parts with
    | nil => simp
    | cons next parts =>
      rw [List.intercalate_cons_cons, dense_append, dense_append, ih]
      simp only [List.map_cons, List.intercalate_cons_cons]

theorem mem_of_mem_splitOn {a c : Char} {cs part : List Char} (hpart : part ∈ cs.splitOn a)
    (hc : c ∈ part) : c ∈ cs ∧ c ≠ a := by
  induction cs generalizing part with
  | nil =>
    obtain rfl : part = [] := by simpa using hpart
    exact absurd hc List.not_mem_nil
  | cons d cs ih =>
    obtain ⟨first, others, hsplit⟩ := List.exists_cons_of_ne_nil (List.splitOn_ne_nil a cs)
    have hrest : ∀ {part}, part ∈ first :: others → c ∈ part → c ∈ d :: cs ∧ c ≠ a := by
      intro part hmem hc
      have h := ih (hsplit ▸ hmem) hc
      exact ⟨List.mem_cons_of_mem d h.1, h.2⟩
    rw [List.splitOn_cons_eq_if_modifyHead, hsplit] at hpart
    by_cases hd : d = a
    · obtain rfl | hmem : part = [] ∨ part ∈ first :: others := by simpa [hd] using hpart
      · exact absurd hc List.not_mem_nil
      · exact hrest hmem hc
    · obtain rfl | hmem : part = d :: first ∨ part ∈ others := by simpa [hd] using hpart
      · rcases List.mem_cons.1 hc with rfl | hfirst
        · exact ⟨List.mem_cons_self, hd⟩
        · exact hrest List.mem_cons_self hfirst
      · exact hrest (List.mem_cons_of_mem first hmem) hc

end Text

theorem isNonterminal_bar : isNonterminal '|' = false := by decide +kernel

/-- The characters of a right side that is read as it is shown are no blanks and no bars. -/
theorem Rhs.IsShowable.of_mem_text {rhs : Rhs} (h : rhs.IsShowable) {c : Char}
    (hc : c ∈ rhs.text) : Text.isBlank c = false ∧ c ≠ '|' := by
  have hsymbol : ∀ {x : Symbol}, isNonterminal x = true → Text.isBlank x = false ∧ x ≠ '|' := by
    intro x hx
    refine ⟨isBlank_of_isNonterminal hx, ?_⟩
    rintro rfl
    exact Bool.false_ne_true (isNonterminal_bar.symm.trans hx)
  cases rhs with
  | terminal t =>
    obtain rfl : c = t := by simpa [text] using hc
    exact ⟨h.1, h.2.2.2⟩
  | pair left right =>
    obtain rfl | rfl : c = left ∨ c = right := by simpa [text] using hc
    · exact hsymbol h.1
    · exact hsymbol h.2
  | empty =>
    obtain rfl : c = epsilon := by simpa [text] using hc
    exact ⟨rfl, by decide⟩

theorem Rhs.IsShowable.isWritable {rhs : Rhs} (h : rhs.IsShowable) : rhs.IsWritable := by
  cases rhs with
  | terminal t => exact ⟨h.2.2.1, h.2.1⟩
  | pair left right => exact h
  | empty => trivial

/-- A right side that can be written is read as it is shown if its characters are no blanks and no
bars. -/
theorem Rhs.IsWritable.isShowable {rhs : Rhs} (h : rhs.IsWritable)
    (hchars : ∀ c ∈ rhs.text, Text.isBlank c = false ∧ c ≠ '|') : rhs.IsShowable := by
  cases rhs with
  | terminal t =>
    obtain ⟨hblank, hbar⟩ := hchars t List.mem_cons_self
    exact ⟨hblank, h.2, h.1, hbar⟩
  | pair left right => exact h
  | empty => trivial

/-! ## Lines -/

namespace Rule

/-- The line that shows a rule writes it. -/
theorem IsShowable.writes_text {x : Symbol} {alternatives : List Rhs}
    (h : IsShowable x alternatives) : Writes (text x alternatives) x alternatives := by
  have hdense : (alternatives.map Rhs.text).map Text.dense = alternatives.map Rhs.text := by
    rw [List.map_map]
    refine List.map_congr_left fun rhs hrhs => ?_
    exact Text.dense_eq_self fun c hc => ((h.alternatives rhs hrhs).of_mem_text hc).1
  have hbar : ∀ part ∈ alternatives.map Rhs.text, '|' ∉ part := by
    intro part hpart hmem
    obtain ⟨rhs, hrhs, rfl⟩ := List.mem_map.1 hpart
    exact ((h.alternatives rhs hrhs).of_mem_text hmem).2 rfl
  refine ⟨[], [' '], arrowText, ' ' :: [' ', '|', ' '].intercalate (alternatives.map Rhs.text),
    rfl, rfl, h.lhs, rfl, Or.inr rfl, ?_, fun rhs hrhs => (h.alternatives rhs hrhs).isWritable⟩
  calc (Text.dense (' ' :: [' ', '|', ' '].intercalate (alternatives.map Rhs.text))).splitOn '|'
      = (Text.dense ([' ', '|', ' '].intercalate (alternatives.map Rhs.text))).splitOn '|' := rfl
    _ = (['|'].intercalate (alternatives.map Rhs.text)).splitOn '|' := by
        rw [Text.dense_intercalate, hdense]
        rfl
    _ = alternatives.map Rhs.text :=
        List.splitOn_intercalate '|' hbar (by simpa using h.ne_nil)

/-- A line writes rules that are read as they are shown. -/
theorem Writes.isShowable {line : Text.Line} {x : Symbol} {alternatives : List Rhs}
    (h : Writes line x alternatives) : IsShowable x alternatives := by
  obtain ⟨_, _, _, rest, _, _, hx, _, _, hparts, hwritable⟩ := h
  refine ⟨hx, ?_, ?_⟩
  · rintro rfl
    exact List.splitOn_ne_nil '|' _ hparts
  · intro rhs hrhs
    refine (hwritable rhs hrhs).isShowable fun c hc => ?_
    have hpart : rhs.text ∈ (Text.dense rest).splitOn '|' := by
      rw [hparts]
      exact List.mem_map_of_mem hrhs
    obtain ⟨hdense, hbar⟩ := Text.mem_of_mem_splitOn hpart hc
    exact ⟨Text.isBlank_of_mem_dense hdense, hbar⟩

/-- What is shown is read as it was, a rule with one alternative is shown as its production, and
every rule that was read has what it takes to be shown and read again. -/
theorem ofLine_text :
    (∀ x alternatives location, IsShowable x alternatives →
      ofLine location (text x alternatives) = .ok ⟨x, alternatives, location⟩) ∧
    (∀ x rhs, text x [rhs] = Production.text ⟨x, rhs⟩) ∧
    ∀ location line r, ofLine location line = .ok r →
      IsShowable r.lhs r.alternatives ∧ ofLine location (text r.lhs r.alternatives) = .ok r := by
  have hread : ∀ x alternatives location, IsShowable x alternatives →
      ofLine location (text x alternatives) = .ok ⟨x, alternatives, location⟩ := by
    intro x alternatives location h
    exact ofLine_eq_ok_iff.2 ⟨rfl, h.writes_text⟩
  refine ⟨hread, text_singleton, ?_⟩
  intro location line r h
  obtain ⟨rfl, hwrites⟩ := ofLine_eq_ok_iff.1 h
  exact ⟨hwrites.isShowable, hread _ _ _ hwrites.isShowable⟩

/-- A dash and an angle bracket are shown and read as terminals, and a line without blanks is
shown with them. -/
theorem ofLine_text_dashes :
    IsShowable 'S' [.terminal '-', .pair 'A' 'B', .terminal '>', .empty] ∧
      ofLine default "S --> - | AB | > | ε".toList =
        .ok ⟨'S', [.terminal '-', .pair 'A' 'B', .terminal '>', .empty], default⟩ ∧
      ofLine default "S->-|AB|>|ε".toList =
        .ok ⟨'S', [.terminal '-', .pair 'A' 'B', .terminal '>', .empty], default⟩ ∧
      ofLine default (text 'S' [.terminal '-', .pair 'A' 'B', .terminal '>', .empty]) =
        .ok ⟨'S', [.terminal '-', .pair 'A' 'B', .terminal '>', .empty], default⟩ := by
  have htight : ofLine default "S->-|AB|>|ε".toList =
      .ok ⟨'S', [.terminal '-', .pair 'A' 'B', .terminal '>', .empty], default⟩ := by
    decide +kernel
  obtain ⟨hshowable, hshown⟩ := ofLine_text.2.2 default _ _ htight
  exact ⟨hshowable, ofLine_text.1 'S' _ default hshowable, htight, hshown⟩

end Rule

end Chomsky
