/-!
# Outcomes of a hit

A hit may be critical and may set off a trigger. Damage is looked at for one outcome of either kind
or for the expectation over it, so there are nine ways to look.
-/

namespace Loadout

/-- What is fixed about a hit; the rest is averaged. -/
inductive Outcome
  | expected
  | crit
  | noCrit
  | trigger
  | noTrigger
  | critTrigger
  | critNoTrigger
  | triggerNoCrit
  | noCritNoTrigger
deriving DecidableEq

namespace Outcome

/-- Every outcome. -/
def all : List Outcome :=
  [expected, crit, noCrit, trigger, noTrigger, critTrigger, critNoTrigger, triggerNoCrit,
    noCritNoTrigger]

/-- The name in formulas. -/
def name : Outcome → String
  | expected => "期望"
  | crit => "暴击"
  | noCrit => "未暴击"
  | trigger => "触发"
  | noTrigger => "未触发"
  | critTrigger => "暴击触发"
  | critNoTrigger => "暴击未触发"
  | triggerNoCrit => "触发未暴击"
  | noCritNoTrigger => "未暴击未触发"

/-- The ASCII alias in formulas. -/
def asciiName : Outcome → String
  | expected => "expected"
  | crit => "crit"
  | noCrit => "no_crit"
  | trigger => "trigger"
  | noTrigger => "no_trigger"
  | critTrigger => "crit_trigger"
  | critNoTrigger => "crit_no_trigger"
  | triggerNoCrit => "trigger_no_crit"
  | noCritNoTrigger => "no_crit_no_trigger"

/-- The outcome that a name or alias stands for. -/
def ofName? (s : String) : Option Outcome :=
  all.find? fun o => o.name == s || o.asciiName == s

end Outcome

end Loadout
