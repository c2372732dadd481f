import Loadout.Formula.Eval
import Loadout.Formula.Parser
import Loadout.Json.Decode

/-!
# Scripts

A script changes attributes step by step. Each step puts the value of a formula into one attribute,
and a later step sees what an earlier one wrote. A formula may read the attributes and the level of
the buff that carries the script, and nothing else; this is checked once, when a script is compiled,
against sample values.
-/

namespace Loadout

/-- What a step does with the value of its formula. -/
inductive StepOp
  | add
  | multiply
  | set
  | clampMin
  | clampMax
deriving DecidableEq

namespace StepOp

def all : List StepOp := [add, multiply, set, clampMin, clampMax]

def name : StepOp → String
  | add => "add"
  | multiply => "multiply"
  | set => "set"
  | clampMin => "clamp_min"
  | clampMax => "clamp_max"

def ofName? (s : String) : Option StepOp := all.find? fun o => o.name == s

/-- The new value of an attribute that was at `current`. -/
def apply {K : Type} [Number K] (o : StepOp) (current x : K) : K :=
  match o with
  | add => current + x
  | multiply => current * x
  | set => x
  | clampMin => Number.greatest current x
  | clampMax => Number.least current x

end StepOp

/-- A step as it is written, with the text of its formula. -/
structure StepRecord where
  target : Attribute
  op : StepOp
  formula : String
deriving DecidableEq

namespace StepRecord

variable {K : Type} [Number K]

def ofJson? (j : Json K) : Option StepRecord := do
  let m ← j.asRecord? ["target", "op", "expr"]
  return {
    target := ← m.required "target" fun j => j.asString?.bind Attribute.ofName?
    op := ← m.required "op" fun j => j.asChoice?.bind StepOp.ofName?
    formula := ← m.required "expr" Json.asString? }

def toJson (s : StepRecord) : Json K :=
  .obj [("target", .str s.target.name), ("op", .str s.op.name), ("expr", .str s.formula)]

end StepRecord

/-- A step with its formula read. -/
structure Step (K : Type) where
  target : Attribute
  op : StepOp
  formula : Formula.Expr K

/-- The steps of a script in their order. -/
structure Script (K : Type) where
  steps : List (Step K)

namespace Script

variable {K : Type} [Number K]

/-- The names for the level of the buff that carries a script. -/
def levelNames : List String := ["等级", "level"]

/-- What the formulas of a script may read. -/
def resolver (s : AttributeSet K) (level : Nat) : Formula.Resolver K := fun qualifier name _ =>
  if qualifier.isSome then none
  else if levelNames.contains name then some (level : K)
  else (Attribute.ofName? name).map s.get

/-- Reads the formula of a step and checks its names. -/
def compileStep (s : StepRecord) : Except FormulaError (Step K) := do
  let e ← Formula.parse .empty s.formula
  e.validate (resolver (.base : AttributeSet K) 1)
  return ⟨s.target, s.op, e⟩

def compile (steps : List StepRecord) : Except FormulaError (Script K) := do
  let compiled ← steps.mapM compileStep
  return ⟨compiled⟩

/-- Runs one step. -/
def runStep (level : Nat) (s : AttributeSet K) (step : Step K) : AttributeSet K :=
  s.set step.target (step.op.apply (s.get step.target) (step.formula.eval (resolver s level)))

/-- Runs a script at a level. -/
def run (script : Script K) (level : Nat) (s : AttributeSet K) : AttributeSet K :=
  script.steps.foldl (runStep level) s

/-- The attributes that a script writes. -/
def targets (script : Script K) : List Attribute := script.steps.map (·.target)

end Script

end Loadout
