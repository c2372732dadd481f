/-!
# Names of what a bonus can change

Three closed lists: the attributes of a character, the stats of a weapon, and the kinds of weapon.
Every member has the name that data use and an ASCII alias.

* `Attribute.ofName?_name`, `Attribute.ofName?_asciiName`, and the same for the other two: reading a
  name or alias gives back what it names;
* `WeaponKind.accepts`: which scoped bonuses reach a weapon.
-/

namespace Loadout

/-- An attribute of a character. -/
inductive Attribute
  | attack
  | health
  | shield
  | defense
  | sanity
  | power
  | durability
  | efficiency
  | range
  | boost
  | desperate
  | damageIncrease
  | weaponDamage
  | skillDamage
  | independentDamageIncrease
  | penetration
  | ignoreDefense
  | damageReduction
  | elementDamage
  | modAttribute
  | skillSpeed
  | imbalanceBonus
  | flatAttack
  | skillMultiplierAdd
  | sanityRegen
deriving DecidableEq

namespace Attribute

/-- Every attribute, in the order of tables. -/
def all : List Attribute := [
  .attack, .health, .shield, .defense, .sanity, .power, .durability, .efficiency, .range, .boost,
  .desperate, .damageIncrease, .weaponDamage, .skillDamage, .independentDamageIncrease,
  .penetration, .ignoreDefense, .damageReduction, .elementDamage, .modAttribute, .skillSpeed,
  .imbalanceBonus, .flatAttack, .skillMultiplierAdd, .sanityRegen]

/-- The name used in data. -/
def name : Attribute → String
  | attack => "攻击"
  | health => "生命"
  | shield => "护盾"
  | defense => "防御"
  | sanity => "神智"
  | power => "威力"
  | durability => "耐久"
  | efficiency => "效益"
  | range => "范围"
  | boost => "昂扬"
  | desperate => "背水"
  | damageIncrease => "增伤"
  | weaponDamage => "武器伤害"
  | skillDamage => "技能伤害"
  | independentDamageIncrease => "独立增伤"
  | penetration => "属性穿透"
  | ignoreDefense => "无视防御"
  | damageReduction => "减伤"
  | elementDamage => "属性伤"
  | modAttribute => "MOD属性"
  | skillSpeed => "技能速度"
  | imbalanceBonus => "失衡易伤"
  | flatAttack => "固定攻击"
  | skillMultiplierAdd => "技能倍率加数"
  | sanityRegen => "神智回复"

/-- The name made of ASCII letters, accepted wherever the data name is. -/
def asciiName : Attribute → String
  | attack => "attack"
  | health => "health"
  | shield => "shield"
  | defense => "defense"
  | sanity => "sanity"
  | power => "power"
  | durability => "durability"
  | efficiency => "efficiency"
  | range => "range"
  | boost => "boost"
  | desperate => "desperate"
  | damageIncrease => "damage_increase"
  | weaponDamage => "weapon_damage"
  | skillDamage => "skill_damage"
  | independentDamageIncrease => "independent_damage_increase"
  | penetration => "penetration"
  | ignoreDefense => "ignore_defense"
  | damageReduction => "damage_reduction"
  | elementDamage => "element_damage"
  | modAttribute => "mod_attribute"
  | skillSpeed => "skill_speed"
  | imbalanceBonus => "imbalance_bonus"
  | flatAttack => "flat_attack"
  | skillMultiplierAdd => "skill_multiplier_add"
  | sanityRegen => "sanity_regen"

/-- The attribute that a name or alias stands for. -/
def ofName? (s : String) : Option Attribute :=
  all.find? fun a => a.name == s || a.asciiName == s

/-- The place in `all`. -/
def index (a : Attribute) : Fin 25 := ⟨a.ctorIdx, by cases a <;> decide⟩

theorem index_injective {a b : Attribute} (h : a.index = b.index) : a = b := by
  have h : a.ctorIdx = b.ctorIdx := congrArg Fin.val h
  cases a <;> cases b <;> first | rfl | exact absurd h (by decide)

theorem mem_all (a : Attribute) : a ∈ all := by
  cases a <;> decide

theorem ofName?_name (a : Attribute) : ofName? a.name = some a := by
  cases a <;> decide

theorem ofName?_asciiName (a : Attribute) : ofName? a.asciiName = some a := by
  cases a <;> decide

end Attribute

/-- A stat of a weapon. -/
inductive WeaponStat
  | attack
  | critRate
  | critDamage
  | triggerRate
  | attackSpeed
  | multiShot
  | physical
  | triggerMultiplier
  | reload
  | magazine
  | bonusDamage
  | damageIncrease
  | independentDamageIncrease
  | multiplier
deriving DecidableEq

namespace WeaponStat

/-- Every stat, in the order of tables. -/
def all : List WeaponStat := [
  .attack, .critRate, .critDamage, .triggerRate, .attackSpeed, .multiShot, .physical,
  .triggerMultiplier, .reload, .magazine, .bonusDamage, .damageIncrease,
  .independentDamageIncrease, .multiplier]

/-- The name used in data. -/
def name : WeaponStat → String
  | attack => "攻击"
  | critRate => "暴击"
  | critDamage => "暴伤"
  | triggerRate => "触发"
  | attackSpeed => "攻速"
  | multiShot => "多重"
  | physical => "物理"
  | triggerMultiplier => "触发倍率"
  | reload => "装填"
  | magazine => "弹匣"
  | bonusDamage => "追加伤害"
  | damageIncrease => "增伤"
  | independentDamageIncrease => "独立增伤"
  | multiplier => "倍率"

/-- The name made of ASCII letters, accepted wherever the data name is. -/
def asciiName : WeaponStat → String
  | attack => "attack"
  | critRate => "crit_rate"
  | critDamage => "crit_damage"
  | triggerRate => "trigger_rate"
  | attackSpeed => "attack_speed"
  | multiShot => "multi_shot"
  | physical => "physical"
  | triggerMultiplier => "trigger_multiplier"
  | reload => "reload"
  | magazine => "magazine"
  | bonusDamage => "bonus_damage"
  | damageIncrease => "damage_increase"
  | independentDamageIncrease => "independent_damage_increase"
  | multiplier => "multiplier"

/-- The stat that a name or alias stands for. -/
def ofName? (s : String) : Option WeaponStat :=
  all.find? fun a => a.name == s || a.asciiName == s

/-- The place in `all`. -/
def index (a : WeaponStat) : Fin 14 := ⟨a.ctorIdx, by cases a <;> decide⟩

theorem index_injective {a b : WeaponStat} (h : a.index = b.index) : a = b := by
  have h : a.ctorIdx = b.ctorIdx := congrArg Fin.val h
  cases a <;> cases b <;> first | rfl | exact absurd h (by decide)

theorem mem_all (a : WeaponStat) : a ∈ all := by
  cases a <;> decide

theorem ofName?_name (a : WeaponStat) : ofName? a.name = some a := by
  cases a <;> decide

theorem ofName?_asciiName (a : WeaponStat) : ofName? a.asciiName = some a := by
  cases a <;> decide

end WeaponStat

/-- The kind of a weapon. A resonance weapon belongs to a character and counts as a weapon of its base
kind as well. -/
inductive WeaponKind
  | resonanceMelee
  | resonanceRanged
  | melee
  | ranged
deriving DecidableEq

namespace WeaponKind

/-- Every kind. A name that begins with another name comes first. -/
def all : List WeaponKind := [
  .resonanceMelee, .resonanceRanged, .melee, .ranged]

/-- The name used in data. -/
def name : WeaponKind → String
  | resonanceMelee => "同律近战"
  | resonanceRanged => "同律远程"
  | melee => "近战"
  | ranged => "远程"

/-- The name made of ASCII letters, accepted wherever the data name is. -/
def asciiName : WeaponKind → String
  | resonanceMelee => "resonance_melee"
  | resonanceRanged => "resonance_ranged"
  | melee => "melee"
  | ranged => "ranged"

/-- The kind that a name or alias stands for. -/
def ofName? (s : String) : Option WeaponKind :=
  all.find? fun a => a.name == s || a.asciiName == s

/-- The place in `all`. -/
def index (a : WeaponKind) : Fin 4 := ⟨a.ctorIdx, by cases a <;> decide⟩

theorem index_injective {a b : WeaponKind} (h : a.index = b.index) : a = b := by
  have h : a.ctorIdx = b.ctorIdx := congrArg Fin.val h
  cases a <;> cases b <;> first | rfl | exact absurd h (by decide)

theorem mem_all (a : WeaponKind) : a ∈ all := by
  cases a <;> decide

theorem ofName?_name (a : WeaponKind) : ofName? a.name = some a := by
  cases a <;> decide

theorem ofName?_asciiName (a : WeaponKind) : ofName? a.asciiName = some a := by
  cases a <;> decide

/-- The plain kind that a resonance weapon also counts as. -/
def base : WeaponKind → Option WeaponKind
  | resonanceMelee => some melee
  | resonanceRanged => some ranged
  | melee | ranged => none

/-- Whether a bonus scoped to `scope` reaches a weapon of this kind. -/
def accepts (kind scope : WeaponKind) : Bool :=
  kind == scope || kind.base == some scope

def isResonance (kind : WeaponKind) : Bool := kind.base.isSome

end WeaponKind

end Loadout
