import Loadout.Random.Choice

/-!
# Linear congruential words

The plainest source of words: each word is the last one times a constant plus another constant,
modulo two to the 32nd power.
-/

namespace Loadout

/-- The state is the last word. -/
def congruential : WordSource UInt32 where
  next state :=
    let w := state * 1664525 + 1013904223
    (w, w)

end Loadout
