import Loadout.Build.Replay
import Loadout.Formula.Parser

/-!
# Scores

The score of a loadout is what its timeline deals, or the value of its formula when there is no
timeline. A score is there for every loadout: a formula that cannot be used gives way to the one of
the settings, and a timeline that cannot be replayed deals nothing.

A candidate is a mod or a buff whose worth is of interest. `Build.gainAdding` and
`Build.gainRemoving` compare the scores with and without it.
-/

namespace Loadout

namespace Build

variable {K : Type} [Number K]

/-! ## Formulas -/

/-- Reads a formula with the shorthands of the settings. -/
def parseFormula (b : Build K) (text : String) : Except FormulaError (Formula.Expr K) :=
  Formula.parse b.settings.shorthands text

/-- Reads a formula and checks its names in a scene. -/
def checkedFormula (b : Build K) (scene : Scene K) (text : String) :
    Except FormulaError (Formula.Expr K) := do
  let e ← b.parseFormula text
  e.validate scene.resolver
  return e

/-- The formula to score by: the target, else the formula of the settings, whose names are not
checked, else zero. -/
def targetFormula (b : Build K) (scene : Scene K) : Formula.Expr K :=
  match b.checkedFormula scene b.target with
  | .ok e => e
  | .error _ =>
    match b.parseFormula b.settings.defaultTarget with
    | .ok e => e
    | .error _ => .number 0.0

/-- Whether a formula can be read and all its names are known. -/
def validateFormula (b : Build K) (text : String) : Except FormulaError Unit :=
  (b.checkedFormula b.scene text).map fun _ => ()

/-- The value of a formula under attributes that may differ from the settled ones. -/
def evaluateFormula (b : Build K) (text : String) (s : AttributeSet K) : Except FormulaError K := do
  let e ← b.parseFormula text
  return e.eval (Scene.ofSettlement b b.settle s).resolver

/-! ## The score -/

/-- The value of the formula to score by. -/
def formulaScore (b : Build K) : K :=
  let scene := b.scene
  (b.targetFormula scene).eval scene.resolver

def score (b : Build K) : K :=
  match b.timeline with
  | none => b.formulaScore
  | some t =>
    match b.replay t with
    | .ok report => report.total
    | .error _ => 0.0

end Build

/-! ## Gains -/

/-- How much larger one score is than another, as a share of the other, or the plain difference
when that is zero. -/
def relativeGain {K : Type} [Number K] (before after : K) : K :=
  if before == 0.0 then after - before else after / before - 1.0

/-- A mod or a buff whose worth is of interest. -/
inductive Candidate
  | mod (id : Nat) (rank : Option Nat)
  | buff (name : String) (level : Option Nat)
deriving DecidableEq

namespace Build

variable {K : Type} [Number K]

def addCandidate (b : Build K) : Candidate → Except BuildError (Build K)
  | .mod id rank => b.equip id rank
  | .buff name level => b.addBuff name level

/-- The loadout without a candidate that is in it. -/
def removeCandidate? (b : Build K) : Candidate → Option (Build K)
  | .mod id _ => b.unequip? id
  | .buff name _ => if b.hasBuff name then some (b.removeBuff name) else none

/-- What is gained by adding a candidate; nothing when it cannot be added. -/
def gainAdding (b : Build K) (c : Candidate) : K :=
  match b.addCandidate c with
  | .ok other => relativeGain b.score other.score
  | .error _ => 0.0

/-- What a candidate adds to the loadout without it; nothing when it is not there. -/
def gainRemoving (b : Build K) (c : Candidate) : K :=
  match b.removeCandidate? c with
  | some other => relativeGain other.score b.score
  | none => 0.0

end Build

end Loadout
