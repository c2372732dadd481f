import Loadout.Random.ChaCha
import Loadout.Search.Move

/-!
# Searching for a better loadout

A search makes rounds of moves. Each move may change the loadout, and the next one starts from what
it left. The search is over after a round that has changed nothing, or when there have been as many
rounds as are allowed.
-/

namespace Loadout

/-- The best loadout that was found, a line for every change and one for the end, and the number of
rounds. -/
structure SearchResult (K : Type) where
  build : Build K
  log : List (SearchEvent K)
  iterations : Nat

/-- A search under way: the loadout, the lines so far, and the state of the random choices. -/
structure SearchState (K σ : Type) where
  build : Build K
  log : List (SearchEvent K)
  random : σ

namespace SearchState

variable {K σ : Type} [Number K]

/-- Makes one move. -/
def step (ch : Chooser σ) (o : SearchOptions) (s : SearchState K σ) (m : Move) : SearchState K σ :=
  match (s.build.offer o m).best? ch s.random with
  | (some t, random) => ⟨t.build, s.log ++ [t.event], random⟩
  | (none, random) => { s with random := random }

/-- Makes the moves of one round. -/
def round (ch : Chooser σ) (o : SearchOptions) (s : SearchState K σ) : SearchState K σ :=
  o.moves.foldl (step ch o) s

/-- The end of a search. -/
def finish (s : SearchState K σ) (last : SearchEvent K) (iterations : Nat) : SearchResult K :=
  ⟨s.build, s.log ++ [last], iterations⟩

/-- Makes rounds, as many as are left, behind those that have been made. A round has changed nothing
when it has added no line. -/
def run (ch : Chooser σ) (o : SearchOptions) :
    (left iterations : Nat) → SearchState K σ → SearchResult K
  | 0, iterations, s => s.finish (.stopped iterations) iterations
  | left + 1, iterations, s =>
    let after := s.round ch o
    if after.log.length = s.log.length then
      after.finish (.settled (iterations + 1)) (iterations + 1)
    else after.run ch o left (iterations + 1)

end SearchState

namespace Build

variable {K σ : Type} [Number K]

/-- Searches with a way to choose among equals. -/
def search (b : Build K) (o : SearchOptions) (ch : Chooser σ) (random : σ) : SearchResult K :=
  SearchState.run ch o o.maxIterations 0 ⟨b, [], random⟩

/-- Searches with the choices that the seed of the options fixes, or with others when it has none. -/
def searchSeeded (b : Build K) (o : SearchOptions) (ch : Chooser σ) (random : σ) :
    SearchResult K :=
  match o.seed with
  | some seed => b.search o ChaCha.words.toChooser (.ofSeed seed.toUInt64)
  | none => b.search o ch random

end Build

end Loadout
