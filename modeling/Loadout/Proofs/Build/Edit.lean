import Loadout.Build.Edit

/-!
# Changes in place and changed builds

A change in place does what the function of builds with its name computes: it leaves the computed
build behind, or it fails and leaves the build as it was. For most changes this is because they
write last. Replacing a weapon and taking out mods write more than once, and fail, if at all, before
that.

* `equip_eq`, `setAura_eq`, `addBuff_eq`, `setWeapon_eq`: the changes that can fail;
* `unequip_eq`, `clear_eq`, `dropUnfit_eq`, `removeBuff_eq`: those that cannot.
-/

namespace Loadout

namespace Edit

variable {K α β γ : Type} {b : Build K}

/-- A value with a build that takes the place of `b`, or an error that leaves `b` there. -/
def outcome (b : Build K) : Except BuildError (α × Build K) → EStateM.Result BuildError (Build K) α
  | .ok (a, b') => .ok a b'
  | .error e => .error e b

theorem get_bind (f : Build K → Edit K α) (b : Build K) : (get >>= f) b = f b b := rfl

theorem ofExcept_bind {x : Except BuildError α} {f : α → Edit K β} {g : α → Except BuildError γ}
    {k : γ → β × Build K} (h : ∀ a, f a b = outcome b ((g a).map k)) :
    (ofExcept x >>= f) b = outcome b ((x >>= g).map k) := by
  cases x with
  | error e => rfl
  | ok a => exact h a

theorem discard_eq {x : Edit K α} {y : Except BuildError (α × Build K)} (h : x b = outcome b y) :
    (discard x) b = outcome b (y.map fun r => ((), r.2)) := by
  change EStateM.map _ x b = _
  rw [EStateM.map, h]
  cases y <;> rfl

/-! ## Changes that cannot fail -/

theorem unequipIn_eq (id : Nat) (cs : List ModCategory) (b : Build K) :
    unequipIn id cs b =
      match cs.findSome? fun c => (Build.without? id (b.mods.get c)).map fun rest =>
        { b with mods := b.mods.set c rest } with
      | some b' => .ok true b'
      | none => .ok false b := by
  induction cs with
  | nil => rfl
  | cons c rest ih =>
    rw [unequipIn, get_bind, List.findSome?_cons]
    cases Build.without? id (b.mods.get c) with
    | some ms => rfl
    | none => exact ih

theorem unequip_eq (id : Nat) (b : Build K) :
    unequip id b = .ok (b.unequip? id).isSome ((b.unequip? id).getD b) := by
  rw [unequip, unequipIn_eq]
  change (match b.unequip? id with
    | some b' => EStateM.Result.ok true b'
    | none => .ok false b) = _
  cases b.unequip? id <;> rfl

theorem clear_eq (c : ModCategory) (b : Build K) : clear c b = .ok () (b.clear c) := rfl

theorem dropUnfit_eq (b : Build K) : dropUnfit b = .ok b.dropUnfit.2 b.dropUnfit.1 := rfl

theorem removeBuff_eq (name : String) (b : Build K) :
    removeBuff name b = .ok (b.hasBuff name) (b.removeBuff name) := by
  have hFewer : (b.buffs.length + b.dynamicBuffs.length !=
      (b.buffs.filter (·.name != name)).length + (b.dynamicBuffs.filter (·.name != name)).length) =
      b.hasBuff name := by
    rw [← List.length_append, ← List.length_append, ← List.filter_append, Build.hasBuff,
      Bool.eq_iff_iff, bne_iff_ne, ne_comm, Ne, List.length_filter_eq_length_iff]
    simp only [bne_iff_ne, Classical.not_forall, Classical.not_not, ne_eq, exists_prop,
      List.any_eq_true, beq_iff_eq]
  change EStateM.Result.ok _ (b.removeBuff name) = _
  rw [hFewer]

/-! ## Changes that can fail -/

variable [Number K]

theorem equip_eq (id : Nat) (rank : Option Nat) (b : Build K) :
    equip id rank b = outcome b ((b.equip id rank).map fun b' => ((), b')) := by
  rw [equip, get_bind, Build.equip]
  refine ofExcept_bind fun record => ?_
  dsimp only
  split
  · rfl
  · split
    · rfl
    · split
      · rfl
      · exact ofExcept_bind fun m => rfl

theorem setAura_eq (choice : Option ModChoice) (b : Build K) :
    setAura choice b = outcome b ((b.setAura choice).map fun b' => ((), b')) := by
  rw [setAura, get_bind, Build.setAura.eq_def]
  cases choice with
  | none => rfl
  | some c =>
    exact ofExcept_bind fun record => ofExcept_bind fun m => rfl

theorem addBuff_eq (name : String) (level : Option Nat) (b : Build K) :
    addBuff name level b = outcome b ((b.addBuff name level).map fun b' => ((), b')) := by
  rw [addBuff, get_bind, Build.addBuff]
  refine ofExcept_bind fun record => ofExcept_bind fun buff => ?_
  split <;> rfl

theorem setWeapon_eq (slot : WeaponSlot) (name : String) (refine level : Option Nat)
    (b : Build K) :
    setWeapon slot name refine level b =
      outcome b ((b.setWeapon slot name refine level).map Prod.swap) := by
  rw [setWeapon, get_bind, Build.setWeapon]
  refine ofExcept_bind fun weapon => ?_
  cases slot <;> rfl

end Edit

open Edit

variable [Number K]

/-- A change in place takes effect as a whole, or it fails and changes nothing. -/
theorem Change.perform_eq (c : Change K) (b : Build K) :
    c.perform b = outcome b ((c.apply b).map fun b' => ((), b')) := by
  cases c with
  | equip id rank => exact equip_eq id rank b
  | unequip id => exact discard_eq (y := .ok (_, _)) (unequip_eq id b)
  | clear c => exact clear_eq c b
  | dropUnfit => exact discard_eq (y := .ok (_, _)) (dropUnfit_eq b)
  | setWeapon slot name refine level =>
    refine (discard_eq (setWeapon_eq slot name refine level b)).trans ?_
    rw [Change.apply]
    cases b.setWeapon slot name refine level <;> rfl
  | setAura choice => exact setAura_eq choice b
  | addBuff name level => exact addBuff_eq name level b
  | removeBuff name => exact discard_eq (y := .ok (_, _)) (removeBuff_eq name b)
  | setCharacterLevel n => rfl
  | setEnemy enemy => rfl
  | setHealth health => rfl
  | setActionName name => rfl
  | setTarget formula => rfl
  | setTimeline timeline => rfl

end Loadout
