/-!
# Choices

A chooser settles which of several candidates is taken. Sentences are grown from any chooser, so
what holds of grown sentences holds however the choices fall.

The chooser that is run with takes words of 32 bits: first the words it was given, then those of
a linear congruential generator on 64 bits. A choice among `n` candidates scales a word to the
range below `n` and refuses the words that would favour some candidates.
-/
namespace Chomsky

/-- Picks one of `n + 1` candidates and hands on the state for the next choice. -/
abbrev Chooser (σ : Type) := (n : Nat) → σ → Fin (n + 1) × σ

/-- The words still to be handed out, the state of the generator behind them, and how many
words have been taken. -/
structure WordSource where
  words : List UInt32
  state : UInt64
  taken : Nat
deriving DecidableEq, Inhabited

namespace WordSource

/-- A source that hands out `words` and then the words of the generator started at `seed`. -/
def ofSeed (words : List UInt32) (seed : UInt64) : WordSource := ⟨words, seed, 0⟩

/-- One step of the generator, modulo `2 ^ 64`. -/
def step (state : UInt64) : UInt64 := state * 6364136223846793005 + 1442695040888963407

/-- Takes the next word; the generator shows the upper half of its state. -/
def next (s : WordSource) : UInt32 × WordSource :=
  match s.words with
  | w :: ws => (w, { s with words := ws, taken := s.taken + 1 })
  | [] =>
    let state := step s.state
    ((state >>> 32).toUInt32, { s with state := state, taken := s.taken + 1 })

/-- The number of zeros in front of `n` written with 32 bits. -/
def leadingZeros (n : Nat) : Nat := 31 - n.log2

/-- The greatest remainder with which a word is accepted for `n` candidates. -/
def zone (n : Nat) : Nat := (n <<< leadingZeros n) % UInt32.size - 1

/-- Whether a word may decide between `n` candidates. -/
def accepts (n : Nat) (w : UInt32) : Bool := w.toNat * n % UInt32.size ≤ zone n

/-- The candidate among `n + 1` that a word points to. -/
def candidate (n : Nat) (w : UInt32) : Fin (n + 1) :=
  ⟨w.toNat * (n + 1) / UInt32.size, Nat.div_lt_of_lt_mul
    (Nat.mul_lt_mul_of_pos_right w.toNat_lt_size (Nat.succ_pos n))⟩

/-- Takes at most `budget` words until one is accepted for `n + 1` candidates. -/
def search (n : Nat) : Nat → WordSource → Fin (n + 1) × WordSource
  | 0, s => (0, s)
  | budget + 1, s =>
    let (w, rest) := s.next
    if accepts (n + 1) w then (candidate n w, rest) else search n budget rest

/-- Chooses by the first accepted word. The generator runs through all its states before
one comes back, so the budget of its period beyond the given words is never used up. -/
def choose : Chooser WordSource := fun n s => search n (s.words.length + UInt64.size) s

end WordSource

end Chomsky
