import Chomsky.Report
/-!
# The text that a report writes

Parts of a report write line after line, but what a sink holds in the end is the same as if all
their text had been written at once: everything if it fits, and otherwise as much of it as does.
A part is described by the text that it writes in this sense, and parts one after the other write
their texts one after the other.

## Main definitions

* `Sink.put`: writing a text at once.
* `Writing.Writes m s a text s'`: the part writes the text and returns `a`, and takes the source
  of choices from `s` to `s'`.

## Main results

* `Sink.put_append_of_ok`, `Sink.put_append_of_error`: a text in two pieces.
* `Writing.Writes.bind`, `Writing.Writes.forM`: parts one after the other.
* `Writing.Writes.start_none`, `Writing.Writes.start_some`: what the sink of a report holds in the
  end, with and without a limit.
-/
namespace Chomsky

namespace Sink

def put (s : Sink) (text : List Char) : Except FileFailure Unit × Sink :=
  s.write (String.ofList text).toUTF8

theorem toUTF8_ofList_append (text text' : List Char) :
    (String.ofList (text ++ text')).toUTF8 =
      (String.ofList text).toUTF8 ++ (String.ofList text').toUTF8 := by
  simp [String.ofList_append]

theorem room_le (s : Sink) (wanted : Nat) : s.room wanted ≤ wanted := by
  unfold room
  split
  · exact Nat.le_refl _
  · exact Nat.min_le_left _ _

/-- Behind bytes that fit there is room for what still fits after them. -/
theorem room_add_of_eq {s : Sink} {bytes : ByteArray} (h : s.room bytes.size = bytes.size)
    (wanted : Nat) : s.room (bytes.size + wanted) =
      bytes.size + ({ s with written := s.written ++ bytes } : Sink).room wanted := by
  unfold room at h ⊢
  cases hlimit : s.limit with
  | none => rfl
  | some limit =>
    simp only [hlimit, ByteArray.size_append] at h ⊢
    omega

/-- Where bytes do not fit, more bytes get no more room. -/
theorem room_add_of_lt {s : Sink} {size : Nat} (h : s.room size < size) (wanted : Nat) :
    s.room (size + wanted) = s.room size := by
  unfold room at h ⊢
  cases hlimit : s.limit with
  | none => simp [hlimit] at h
  | some limit =>
    simp only [hlimit] at h ⊢
    omega

theorem write_of_room_eq {s : Sink} {bytes : ByteArray} (h : s.room bytes.size = bytes.size) :
    s.write bytes = (.ok (), { s with written := s.written ++ bytes }) := by
  rw [write, h, if_pos rfl, ByteArray.extract_zero_size]

theorem room_eq_of_write_eq_ok {s s' : Sink} {bytes : ByteArray}
    (h : s.write bytes = (.ok (), s')) : s.room bytes.size = bytes.size := by
  by_cases hroom : s.room bytes.size = bytes.size
  · exact hroom
  · simp [write, hroom] at h

theorem room_lt_of_write_eq_error {s s' : Sink} {bytes : ByteArray} {e : FileFailure}
    (h : s.write bytes = (.error e, s')) : s.room bytes.size < bytes.size := by
  by_cases hroom : s.room bytes.size = bytes.size
  · simp [write, hroom] at h
  · exact Nat.lt_of_le_of_ne (s.room_le _) hroom

/-- Once a text is written, the text behind it is written to the sink that it left. -/
theorem put_append_of_ok {s s' : Sink} {text : List Char} (h : s.put text = (.ok (), s'))
    (text' : List Char) : s.put (text ++ text') = s'.put text' := by
  unfold put at h ⊢
  rw [toUTF8_ofList_append]
  generalize (String.ofList text).toUTF8 = bytes at h ⊢
  generalize (String.ofList text').toUTF8 = bytes'
  have hroom := room_eq_of_write_eq_ok h
  rw [write_of_room_eq hroom] at h
  obtain rfl := (Prod.mk.inj h).2
  have hextract : ∀ n, (bytes ++ bytes').extract 0 (bytes.size + n) =
      bytes ++ bytes'.extract 0 n := by
    intro n
    have htail : (bytes ++ bytes').extract (bytes.size + 0) (bytes.size + n) =
        bytes'.extract 0 n := ByteArray.extract_append_size_add
    rw [ByteArray.extract_eq_extract_append_extract bytes.size (Nat.zero_le _)
      (Nat.le_add_right _ _), ByteArray.extract_append_eq_left rfl, ← htail, Nat.add_zero]
  simp only [write, ByteArray.size_append, room_add_of_eq hroom, Nat.add_left_cancel_iff,
    hextract, ByteArray.append_assoc]

/-- A text that does not fit leaves nothing to write for the text behind it. -/
theorem put_append_of_error {s s' : Sink} {text : List Char} {e : FileFailure}
    (h : s.put text = (.error e, s')) (text' : List Char) :
    s.put (text ++ text') = (.error e, s') := by
  rw [← h]
  unfold put at h ⊢
  rw [toUTF8_ofList_append]
  generalize (String.ofList text).toUTF8 = bytes at h ⊢
  generalize (String.ofList text').toUTF8 = bytes'
  have hroom := room_lt_of_write_eq_error h
  have hextract : (bytes ++ bytes').extract 0 (s.room bytes.size) =
      bytes.extract 0 (s.room bytes.size) := by
    have hnone : bytes'.extract (0 - bytes.size) (s.room bytes.size - bytes.size) = .empty := by
      rw [ByteArray.extract_eq_empty_iff]
      omega
    rw [ByteArray.extract_append, hnone, ByteArray.append_empty]
  have hfits : s.room bytes.size ≠ bytes.size + bytes'.size := by omega
  simp only [write, ByteArray.size_append, room_add_of_lt hroom, hextract, if_neg hfits,
    if_neg (Nat.ne_of_lt hroom)]

/-- What writing a text in two pieces comes to: the second piece ends it if the first fits. -/
theorem put_append_eq {s sink : Sink} {text text' : List Char} {result : Except FileFailure Unit}
    (h : s.put (text ++ text') = (result, sink)) :
    (∃ left, s.put text = (.ok (), left) ∧ left.put text' = (result, sink)) ∨
      ∃ e, result = .error e ∧ s.put text = (.error e, sink) := by
  cases hput : s.put text with
  | mk first left =>
    cases first with
    | ok => exact Or.inl ⟨left, rfl, put_append_of_ok hput text' ▸ h⟩
    | error e =>
      rw [put_append_of_error hput] at h
      obtain ⟨rfl, rfl⟩ := Prod.mk.inj h
      exact Or.inr ⟨e, rfl, rfl⟩

@[simp] theorem put_nil (s : Sink) : s.put [] = (.ok (), s) := by
  have hroom : s.room 0 = 0 := Nat.le_zero.1 (s.room_le 0)
  have hempty : s.written ++ (String.ofList []).toUTF8 = s.written := ByteArray.append_empty
  rw [put, write_of_room_eq hroom, hempty]

theorem put_of_limit_eq_none {s : Sink} (h : s.limit = none) (text : List Char) :
    s.put text = (.ok (), { s with written := s.written ++ (String.ofList text).toUTF8 }) :=
  write_of_room_eq (by rw [room, h])

/-- A sink with a limit takes as many bytes of its first text as the limit allows. -/
theorem put_ofLimit (limit : Nat) (text : List Char) :
    (ofLimit (some limit)).put text =
      (if limit < (String.ofList text).toUTF8.size then .error .diskFull else .ok (),
        ⟨(String.ofList text).toUTF8.extract 0 (min limit (String.ofList text).toUTF8.size),
          some limit⟩) := by
  generalize hbytes : (String.ofList text).toUTF8 = bytes
  have hroom : (ofLimit (some limit)).room bytes.size = min limit bytes.size := Nat.min_comm _ _
  have hwritten : (ofLimit (some limit)).written = .empty := rfl
  rw [put, hbytes, write, hroom, hwritten, ByteArray.empty_append]
  by_cases hlimit : limit < bytes.size
  · rw [if_pos hlimit, if_neg (by omega)]
    rfl
  · rw [if_neg hlimit, if_pos (by omega)]
    rfl

end Sink

namespace Writing
variable {σ α β : Type}

/-- The part writes the text and returns `a`, and the source of choices goes from `s` to `s'`. On
a sink without room for the whole text it fails as writing the text at once does. -/
structure Writes (m : Writing σ α) (s : σ) (a : α) (text : List Char) (s' : σ) : Prop where
  ok : ∀ {p : Progress σ} {sink : Sink}, p.source = s → p.sink.put text = (.ok (), sink) →
    ∃ events, m p = (.ok a, ⟨sink, events, s'⟩)
  error : ∀ {p : Progress σ} {sink : Sink} {e : FileFailure}, p.source = s →
    p.sink.put text = (.error e, sink) → ∃ events source, m p = (.error e, ⟨sink, events, source⟩)

theorem bind_of_ok {m : Writing σ α} {p p' : Progress σ} {a : α} (h : m p = (.ok a, p'))
    (f : α → Writing σ β) : (m >>= f) p = f a p' := by
  change (ExceptT.bindCont f (m p).1) (m p).2 = _
  rw [h]
  rfl

theorem bind_of_error {m : Writing σ α} {p p' : Progress σ} {e : FileFailure}
    (h : m p = (.error e, p')) (f : α → Writing σ β) : (m >>= f) p = (.error e, p') := by
  change (ExceptT.bindCont f (m p).1) (m p).2 = _
  rw [h]
  rfl

namespace Writes

/-- A part that succeeds and leaves the sink alone writes nothing. -/
theorem of_sink_eq {m : Writing σ α} {s s' : σ} {a : α} (h : ∀ p : Progress σ, p.source = s →
    ∃ events, m p = (.ok a, ⟨p.sink, events, s'⟩)) : Writes m s a [] s' := by
  constructor
  · intro p sink hsource hput
    obtain rfl : p.sink = sink := by simpa using hput
    exact h p hsource
  · intro p sink e hsource hput
    simp at hput

theorem pure (a : α) (s : σ) : Writes (pure a) s a [] s := by
  apply of_sink_eq
  rintro p rfl
  exact ⟨p.events, rfl⟩

theorem tell (event : Event) (s : σ) : Writes (tell event) s () [] s := by
  apply of_sink_eq
  rintro p rfl
  exact ⟨p.events.push event, rfl⟩

theorem draw_of_ok {ε : Type} {take : σ → Except ε (α × σ)} {s s' : σ} {a : α}
    (h : take s = .ok (a, s')) : Writes (draw take) s (.ok a) [] s' := by
  apply of_sink_eq
  rintro p rfl
  exact ⟨p.events, by rw [draw, h]⟩

theorem draw_of_error {ε : Type} {take : σ → Except ε (α × σ)} {s : σ} {e : ε}
    (h : take s = .error e) : Writes (draw take) s (.error e) [] s := by
  apply of_sink_eq
  rintro p rfl
  exact ⟨p.events, by rw [draw, h]⟩

theorem line (text : List Char) (s : σ) : Writes (line text) s () (text ++ ['\n']) s := by
  constructor
  · rintro p sink rfl h
    exact ⟨p.events, by rw [Writing.line, show p.sink.write _ = _ from h]⟩
  · rintro p sink e rfl h
    exact ⟨p.events, p.source, by rw [Writing.line, show p.sink.write _ = _ from h]⟩

theorem bind {m : Writing σ α} {f : α → Writing σ β} {s s' s'' : σ} {a : α} {b : β}
    {text text' : List Char} (hm : Writes m s a text s') (hf : Writes (f a) s' b text' s'') :
    Writes (m >>= f) s b (text ++ text') s'' := by
  constructor
  · intro p sink hsource h
    rcases Sink.put_append_eq h with ⟨left, hfirst, hrest⟩ | ⟨e, he, -⟩
    · obtain ⟨events, hp⟩ := hm.ok hsource hfirst
      rw [bind_of_ok hp]
      exact hf.ok rfl hrest
    · exact absurd he (by simp)
  · intro p sink e hsource h
    rcases Sink.put_append_eq h with ⟨left, hfirst, hrest⟩ | ⟨e', he, hfirst⟩
    · obtain ⟨events, hp⟩ := hm.ok hsource hfirst
      rw [bind_of_ok hp]
      exact hf.error rfl hrest
    · obtain rfl := Except.error.inj he
      obtain ⟨events, source, hp⟩ := hm.error hsource hfirst
      exact ⟨events, source, bind_of_error hp f⟩

theorem forM {xs : List α} {f : α → Writing σ Unit} {text : α → List Char} {s : σ}
    (h : ∀ x ∈ xs, Writes (f x) s () (text x) s) :
    Writes (xs.forM f) s () (xs.flatMap text) s := by
  induction xs with
  | nil => exact pure () s
  | cons x xs ih =>
    rw [List.forall_mem_cons] at h
    rw [List.flatMap_cons]
    exact bind h.1 (ih h.2)

theorem forM_tell (events : List Event) (s : σ) : Writes (events.forM Writing.tell) s () [] s := by
  induction events with
  | nil => exact pure () s
  | cons event events ih => exact bind (tell event s) ih

/-- Without a limit a report succeeds, and the sink holds its text. -/
theorem start_none {m : Writing σ α} {s s' : σ} {a : α} {text : List Char}
    (h : Writes m s a text s') : ∃ p, m (.start none s) = (.ok a, p) ∧
      p.sink.written = (String.ofList text).toUTF8 ∧ p.source = s' := by
  have hput := Sink.put_of_limit_eq_none (s := Sink.ofLimit none) rfl text
  obtain ⟨events, hp⟩ := h.ok (p := .start none s) rfl hput
  exact ⟨_, hp, ByteArray.empty_append, rfl⟩

/-- With a limit a report fails if its text has more bytes, and the sink holds those that fit. -/
theorem start_some {m : Writing σ α} {s s' : σ} {a : α} {text : List Char}
    (h : Writes m s a text s') (limit : Nat) : ∃ p, m (.start (some limit) s) =
        (if limit < (String.ofList text).toUTF8.size then .error .diskFull else .ok a, p) ∧
      p.sink.written =
        (String.ofList text).toUTF8.extract 0 (min limit (String.ofList text).toUTF8.size) := by
  have hput := Sink.put_ofLimit limit text
  by_cases hlimit : limit < (String.ofList text).toUTF8.size
  · rw [if_pos hlimit] at hput ⊢
    obtain ⟨events, source, hp⟩ := h.error (p := .start (some limit) s) rfl hput
    exact ⟨_, hp, rfl⟩
  · rw [if_neg hlimit] at hput ⊢
    obtain ⟨events, hp⟩ := h.ok (p := .start (some limit) s) rfl hput
    exact ⟨_, hp, rfl⟩

end Writes

end Writing

end Chomsky
