import Loadout.Attribute.Name
import Loadout.Table

/-!
# Keys of bonuses

A bonus goes to an attribute of the character or to a stat of weapons. A stat may be scoped to one
kind of weapon, which is written as the name of the kind before the name of the stat.

Three names belong both to an attribute and to a stat. Such a name means the attribute, so the
unscoped stat is not written by it; `StatKey.parse?_text_of_ne` says that every other key is read
back from its own text.
-/

namespace Loadout

/-- What a bonus changes. -/
inductive StatKey
  | character (a : Attribute)
  | weapon (scope : Option WeaponKind) (stat : WeaponStat)
deriving DecidableEq

/-- What is left of a text behind a given beginning. -/
def dropStart? (start text : String) : Option String :=
  if start.toList.isPrefixOf text.toList then
    some (String.ofList (text.toList.drop start.length))
  else none

namespace StatKey

/-- Attributes come first, then unscoped stats, then stats by the kind they are scoped to. -/
def rank : StatKey → Nat
  | character a => a.index
  | weapon none stat => 25 + stat.index
  | weapon (some kind) stat => 39 + 14 * kind.index + stat.index

theorem rank_injective (a b : StatKey) (h : rank a = rank b) : a = b := by
  match a, b with
  | character a, character b =>
    exact congrArg character (Attribute.index_injective (Fin.ext h))
  | weapon none s, weapon none t =>
    have hs : s.index = t.index := Fin.ext (by simpa [rank] using h)
    rw [WeaponStat.index_injective hs]
  | weapon (some k) s, weapon (some l) t =>
    simp only [rank] at h
    have hs : s.index = t.index := Fin.ext (by omega)
    have hk : k.index = l.index := Fin.ext (by omega)
    rw [WeaponStat.index_injective hs, WeaponKind.index_injective hk]
  | character a, weapon none t => simp only [rank] at h; omega
  | character a, weapon (some l) t => simp only [rank] at h; omega
  | weapon none s, character b => simp only [rank] at h; omega
  | weapon none s, weapon (some l) t => simp only [rank] at h; omega
  | weapon (some k) s, character b => simp only [rank] at h; omega
  | weapon (some k) s, weapon none t => simp only [rank] at h; omega

instance : Key StatKey := Key.ofRank rank rank_injective

/-- The stat behind the name of a kind, for the first kind whose name begins the text and leaves
the name of a stat. -/
def scoped? (s : String) : List WeaponKind → Option StatKey
  | [] => none
  | kind :: rest =>
    match (dropStart? kind.name s).bind WeaponStat.ofName? with
    | some stat => some (weapon (some kind) stat)
    | none => scoped? s rest

/-- The key that a name in data stands for: an attribute, else an unscoped stat, else a stat scoped
to a kind of weapon. -/
def parse? (s : String) : Option StatKey :=
  match Attribute.ofName? s with
  | some a => some (character a)
  | none =>
    match WeaponStat.ofName? s with
    | some stat => some (weapon none stat)
    | none => scoped? s WeaponKind.all

/-- The name of a key in data. -/
def text : StatKey → String
  | character a => a.name
  | weapon none stat => stat.name
  | weapon (some kind) stat => kind.name ++ stat.name

theorem parse?_text_character (a : Attribute) : parse? (character a).text = some (character a) := by
  simp [parse?, text, Attribute.ofName?_name]

theorem parse?_text_scoped (kind : WeaponKind) (stat : WeaponStat) :
    parse? (weapon (some kind) stat).text = some (weapon (some kind) stat) := by
  have hAll : ∀ k ∈ WeaponKind.all, ∀ s ∈ WeaponStat.all,
      parse? (weapon (some k) s).text = some (weapon (some k) s) := by decide +kernel
  exact hAll kind (WeaponKind.mem_all kind) stat (WeaponStat.mem_all stat)

/-- An unscoped stat is read back from its text unless an attribute has the same name. -/
theorem parse?_text_of_ne {stat : WeaponStat} (h : ∀ a : Attribute, a.name ≠ stat.name) :
    parse? (weapon none stat).text = some (weapon none stat) := by
  cases stat
  case attack => exact absurd rfl (h .attack)
  case damageIncrease => exact absurd rfl (h .damageIncrease)
  case independentDamageIncrease => exact absurd rfl (h .independentDamageIncrease)
  all_goals decide +kernel

theorem ofName?_eq_some {s : String} {stat : WeaponStat} (h : WeaponStat.ofName? s = some stat) :
    s = stat.name ∨ s = stat.asciiName := by
  have hName := List.find?_some h
  simp only [Bool.or_eq_true, beq_iff_eq] at hName
  exact hName.imp Eq.symm Eq.symm

/-- An attribute and a stat of one name have one alias. -/
theorem asciiName_eq_of_name_eq {a : Attribute} {stat : WeaponStat} (h : a.name = stat.name) :
    a.asciiName = stat.asciiName := by
  have hAll : ∀ a ∈ Attribute.all, ∀ stat ∈ WeaponStat.all, a.name = stat.name →
      a.asciiName = stat.asciiName := by decide +kernel
  exact hAll a (Attribute.mem_all a) stat (WeaponStat.mem_all stat) h

/-- A key that any name stands for is read back from its own text: a name that an attribute shares with a
stat stands for the attribute. -/
theorem parse?_text_of_parse? {s : String} {k : StatKey} (h : parse? s = some k) :
    parse? k.text = some k := by
  match k with
  | character a => exact parse?_text_character a
  | weapon (some kind) stat => exact parse?_text_scoped kind stat
  | weapon none stat =>
    -- the name is that of an unscoped stat, and of no attribute
    have hScoped : ∀ kinds, scoped? s kinds ≠ some (weapon none stat) := by
      intro kinds
      induction kinds with
      | nil => simp [scoped?]
      | cons kind rest ih =>
        rw [scoped?]
        split
        · simp
        · exact ih
    unfold parse? at h
    cases hAttribute : Attribute.ofName? s with
    | some a =>
      rw [hAttribute] at h
      cases h
    | none =>
      rw [hAttribute] at h
      cases hStat : WeaponStat.ofName? s with
      | none =>
        rw [hStat] at h
        exact absurd h (hScoped _)
      | some stat' =>
        rw [hStat] at h
        cases h
        apply parse?_text_of_ne
        intro a hShared
        have hNone : Attribute.ofName? s ≠ none := by
          rcases ofName?_eq_some hStat with rfl | rfl
          · rw [← hShared, Attribute.ofName?_name]
            simp
          · rw [← asciiName_eq_of_name_eq hShared, Attribute.ofName?_asciiName]
            simp
        exact hNone hAttribute

end StatKey

end Loadout
