/-!
# Random choices

A search asks for nothing more of randomness than a choice among a number of things, and is written
for any way to choose. A source of 32-bit words is one: the upper half of the product of a word and
the count is the choice, and words that would make some choices more likely than others are skipped.
-/

namespace Loadout

/-- A way to choose one of `n` things. Every choice leaves a new state behind. -/
structure Chooser (σ : Type) where
  choose : (n : Nat) → 0 < n → σ → Fin n × σ

/-- A source of 32-bit words. Every word leaves a new state behind. -/
structure WordSource (σ : Type) where
  next : σ → UInt32 × σ

namespace WordSource

variable {σ : Type}

/-- The number of 32-bit words. -/
def wordCount : Nat := 0x100000000

/-- The choice among `n` that a word makes. -/
def pick {n : Nat} (h : 0 < n) (w : UInt32) : Fin n :=
  ⟨w.toNat * n / wordCount,
    Nat.div_lt_of_lt_mul (Nat.mul_lt_mul_of_pos_right w.toNat_lt h)⟩

/-- Whether a word counts for a choice among `n`: the lower half of the product is below `n` shifted
up as far as 32 bits allow. -/
def counts (n : Nat) (w : UInt32) : Bool :=
  decide (w.toNat * n % wordCount < n * Nat.pow 2 (31 - n.log2))

/-- The choice of the first word that counts, among so many words at most. -/
def chooseWithin (s : WordSource σ) {n : Nat} (h : 0 < n) : (words : Nat) → σ → Fin n × σ
  | 0, state => (⟨0, h⟩, state)
  | words + 1, state =>
    let (w, rest) := s.next state
    if counts n w then (pick h w, rest) else s.chooseWithin h words rest

/-- Chooses by words. A source that repeats itself has shown all its words when as many as there are
have been looked at. -/
def toChooser (s : WordSource σ) : Chooser σ := ⟨fun _ h => s.chooseWithin h wordCount⟩

end WordSource

end Loadout
