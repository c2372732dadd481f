import Loadout.Attribute.Stacking
import Loadout.Table

/-!
# Attribute sets

The attributes of one character with all bonuses counted, and the extras that came with them.
-/

namespace Loadout

/-- A value for every attribute, and extras by name. -/
structure AttributeSet (K : Type) where
  values : Vector K 25
  extra : Table String K

namespace AttributeSet

variable {K : Type}

/-- The set with given values and no extras. -/
def ofFn (f : Attribute → K) : AttributeSet K :=
  ⟨⟨(Attribute.all.map f).toArray, by simp [Attribute.all]⟩, .empty⟩

def get (s : AttributeSet K) (a : Attribute) : K := s.values[a.index]

def set (s : AttributeSet K) (a : Attribute) (x : K) : AttributeSet K :=
  { s with values := s.values.set a.index x a.index.isLt }

def addExtra (s : AttributeSet K) (name : String) (x : K) : AttributeSet K :=
  { s with extra := s.extra.insert name x }

@[simp] theorem get_ofFn (f : Attribute → K) (a : Attribute) : (ofFn f).get a = f a := by
  cases a <;> rfl

theorem get_set (s : AttributeSet K) (a b : Attribute) (x : K) :
    (s.set a x).get b = if a = b then x else s.get b := by
  by_cases h : a = b
  · subst h
    simp [get, set]
  · have hIndex : a.index.val ≠ b.index.val := fun hEq =>
      h (Attribute.index_injective (Fin.ext hEq))
    simp [get, set, h, Vector.getElem_set_ne, hIndex]

variable [Number K]

instance : Inhabited (AttributeSet K) := ⟨ofFn fun _ => 0.0⟩

/-- Every attribute at zero. -/
def zero : AttributeSet K := ofFn fun _ => 0.0

/-- Every attribute at its base value. -/
def base : AttributeSet K := ofFn Attribute.baseValue

def add (s : AttributeSet K) (a : Attribute) (x : K) : AttributeSet K := s.set a (s.get a + x)

def getExtra (s : AttributeSet K) (name : String) : K := s.extra.findD name 0.0

/-- The value under the name or alias of an attribute, else under the name of an extra. -/
def named? (s : AttributeSet K) (name : String) : Option K :=
  match Attribute.ofName? name with
  | some a => some (s.get a)
  | none => s.extra.find? name

end AttributeSet

end Loadout
