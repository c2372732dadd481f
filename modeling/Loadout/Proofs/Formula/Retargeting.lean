import Loadout.Proofs.Build.WellFormed
import Loadout.Proofs.Formula.Validation
import Loadout.Proofs.Steps

/-!
# Formulas about another action

A name without a qualifier is about the action that a build selects. A formula can be turned to another
action without a change of what is built: as an argument of a call with the name of the action as its
qualifier, with that qualifier written in front of the names that have none, or on the build that selects the
action. All three come to the same resolver (`Resolver.under`), to which a qualifier that is written in the
formula means what it meant before.

* `Expr.qualify`: the qualifier in front of the names that have none, neither their own nor that of a call
  around them;
* `evalIn_under`, `validateIn_under`: what is asked under a qualifier is asked of the resolver under it;
* `evalIn_qualify`, `validateIn_qualify`: the same for the qualifier in front of the names;
* `resolver_selecting`: the scene of the build that selects the action has the resolver under its name.
-/

namespace Loadout.Formula

variable {K : Type}

/-- The resolver to which a name without a qualifier has the qualifier `q`. -/
def Resolver.under (r : Resolver K) (q : String) : Resolver K := fun qualifier => r (qualifier.or (some q))

namespace Expr

/-! ## Qualified formulas -/

mutual

/-- A formula with a qualifier at every name that none holds for. The names in a call that has one of its own
are left as they are. -/
def qualify (q : String) : Expr K → Expr K
  | number x => number x
  | binary o left right => binary o (left.qualify q) (right.qualify q)
  | unary o operand => unary o (operand.qualify q)
  | property qualifier name => property (qualifier.or (some q)) name
  | call none name arguments => call none name (qualifyAll q arguments)
  | call (some own) name arguments => call (some own) name arguments
  | member object selected => member (object.qualify q) selected

def qualifyAll (q : String) : List (Expr K) → List (Expr K)
  | [] => []
  | e :: rest => e.qualify q :: qualifyAll q rest

end

/-- Nothing but a name becomes a name. -/
theorem qualify_eq_property {e : Expr K} {q : String}
    (h : ∃ qualifier name, e.qualify q = property qualifier name) :
    ∃ qualifier name, e = property qualifier name := by
  obtain ⟨qualifier, name, h⟩ := h
  cases e with
  | property own name' => exact ⟨own, name', rfl⟩
  | call own name' arguments => cases own <;> simp [qualify] at h
  | _ => simp [qualify] at h

/-! ## Validation -/

theorem both_eq_ok_iff {x y : Except FormulaError Unit} :
    (x >>= fun _ => y) = .ok () ↔ x = .ok () ∧ y = .ok () :=
  bind_eq_ok_iff.trans ⟨fun ⟨_, h⟩ => h, fun h => ⟨(), h⟩⟩

theorem validateIn_property_eq_ok {r : Resolver K} {outer qualifier : Option String} {name : String} :
    (property qualifier name).validateIn r outer = .ok () ↔
      (r (qualifier.or outer) name .expected).isSome = true := by
  rw [validateIn]
  split <;> simp [*]

mutual

theorem validateIn_under (r : Resolver K) (q : String) (e : Expr K) (outer : Option String) :
    e.validateIn (r.under q) outer = .ok () ↔ e.validateIn r (outer.or (some q)) = .ok () := by
  match e with
  | number x => simp only [validateIn]
  | binary o left right =>
    rw [validateIn, validateIn, both_eq_ok_iff, both_eq_ok_iff, validateIn_under r q left outer,
      validateIn_under r q right outer]
  | unary o operand => rw [validateIn, validateIn, validateIn_under r q operand outer]
  | property qualifier name =>
    rw [validateIn_property_eq_ok, validateIn_property_eq_ok, Resolver.under, Option.or_assoc]
  | member object selected => rw [validateIn, validateIn, validateIn_under r q object outer]
  | call qualifier name arguments =>
    rw [validateIn, validateIn]
    split
    · rw [validateAllIn_under r q arguments (qualifier.or outer), Option.or_assoc]
    · exact Iff.rfl

theorem validateAllIn_under (r : Resolver K) (q : String) (es : List (Expr K)) (outer : Option String) :
    validateAllIn (r.under q) outer es = .ok () ↔ validateAllIn r (outer.or (some q)) es = .ok () := by
  match es with
  | [] => simp only [validateAllIn]
  | e :: rest =>
    rw [validateAllIn, validateAllIn, both_eq_ok_iff, both_eq_ok_iff, validateIn_under r q e outer,
      validateAllIn_under r q rest outer]

end

mutual

/-- With the qualifier in front of its names a formula has the faults that it has where the qualifier
holds. -/
theorem validateIn_qualify (r : Resolver K) (q : String) (e : Expr K) :
    (e.qualify q).validateIn r none = e.validateIn r (some q) := by
  match e with
  | number x => simp only [qualify, validateIn]
  | binary o left right =>
    rw [qualify, validateIn, validateIn, validateIn_qualify r q left, validateIn_qualify r q right]
  | unary o operand => rw [qualify, validateIn, validateIn, validateIn_qualify r q operand]
  | property qualifier name => rw [qualify, validateIn, validateIn, Option.or_none]
  | member object selected => rw [qualify, validateIn, validateIn, validateIn_qualify r q object]
  | call none name arguments =>
    rw [qualify, validateIn, validateIn, Option.none_or, Option.none_or, validateAllIn_qualify r q arguments]
  | call (some own) name arguments => rw [qualify, validateIn, validateIn, Option.some_or, Option.some_or]

theorem validateAllIn_qualify (r : Resolver K) (q : String) (es : List (Expr K)) :
    validateAllIn r none (qualifyAll q es) = validateAllIn r (some q) es := by
  match es with
  | [] => simp only [qualifyAll, validateAllIn]
  | e :: rest =>
    rw [qualifyAll, validateAllIn, validateAllIn, validateIn_qualify r q e, validateAllIn_qualify r q rest]

end

theorem validateAllIn_append_eq_ok {r : Resolver K} {q : Option String} {es es' : List (Expr K)} :
    validateAllIn r q (es ++ es') = .ok () ↔
      validateAllIn r q es = .ok () ∧ validateAllIn r q es' = .ok () := by
  induction es with
  | nil => simp [validateAllIn]
  | cons e rest ih =>
    rw [List.cons_append, validateAllIn, validateAllIn, both_eq_ok_iff, both_eq_ok_iff, ih, and_assoc]

/-! ## Evaluation -/

variable [Number K]

mutual

theorem evalIn_under (r : Resolver K) (q : String) (e : Expr K) (outer : Option String) :
    e.evalIn (r.under q) outer = e.evalIn r (outer.or (some q)) := by
  match e with
  | number x => simp only [evalIn]
  | binary o left right =>
    rw [evalIn, evalIn, evalIn_under r q left outer, evalIn_under r q right outer]
  | unary o operand => rw [evalIn, evalIn, evalIn_under r q operand outer]
  | property qualifier name => rw [evalIn, evalIn, Resolver.under, Option.or_assoc]
  | member object selected =>
    by_cases hProperty : ∃ qualifier name, object = property qualifier name
    · obtain ⟨qualifier, name, hObject⟩ := hProperty
      rw [hObject, evalIn, evalIn, Resolver.under, Option.or_assoc]
    · rw [evalIn_member hProperty, evalIn_member hProperty, evalIn_under r q object outer]
  | call qualifier name arguments =>
    rw [evalIn, evalIn, evalAllIn_under r q arguments (qualifier.or outer), Option.or_assoc]

theorem evalAllIn_under (r : Resolver K) (q : String) (es : List (Expr K)) (outer : Option String) :
    evalAllIn (r.under q) outer es = evalAllIn r (outer.or (some q)) es := by
  match es with
  | [] => simp only [evalAllIn]
  | e :: rest => rw [evalAllIn, evalAllIn, evalIn_under r q e outer, evalAllIn_under r q rest outer]

end

mutual

/-- With the qualifier in front of its names a formula has the value that it has where the qualifier
holds. -/
theorem evalIn_qualify (r : Resolver K) (q : String) (e : Expr K) :
    (e.qualify q).evalIn r none = e.evalIn r (some q) := by
  match e with
  | number x => simp only [qualify, evalIn]
  | binary o left right =>
    rw [qualify, evalIn, evalIn, evalIn_qualify r q left, evalIn_qualify r q right]
  | unary o operand => rw [qualify, evalIn, evalIn, evalIn_qualify r q operand]
  | property qualifier name => rw [qualify, evalIn, evalIn, Option.or_none]
  | member object selected =>
    by_cases hProperty : ∃ qualifier name, object = property qualifier name
    · obtain ⟨qualifier, name, hObject⟩ := hProperty
      rw [hObject, qualify, qualify, evalIn, evalIn, Option.or_none]
    · rw [qualify, evalIn_member hProperty, evalIn_member (mt qualify_eq_property hProperty),
        evalIn_qualify r q object]
  | call none name arguments =>
    rw [qualify, evalIn, evalIn, Option.none_or, Option.none_or, evalAllIn_qualify r q arguments]
  | call (some own) name arguments => rw [qualify, evalIn, evalIn, Option.some_or, Option.some_or]

theorem evalAllIn_qualify (r : Resolver K) (q : String) (es : List (Expr K)) :
    evalAllIn r none (qualifyAll q es) = evalAllIn r (some q) es := by
  match es with
  | [] => simp only [qualifyAll, evalAllIn]
  | e :: rest => rw [qualifyAll, evalAllIn, evalAllIn, evalIn_qualify r q e, evalAllIn_qualify r q rest]

end

theorem evalAllIn_append (r : Resolver K) (q : Option String) (es es' : List (Expr K)) :
    evalAllIn r q (es ++ es') = evalAllIn r q es ++ evalAllIn r q es' := by
  induction es with
  | nil => rw [evalAllIn, List.nil_append, List.nil_append]
  | cons e rest ih => rw [List.cons_append, evalAllIn, evalAllIn, ih, List.cons_append]

end Expr

theorem Builtin.ofName?_name (g : Builtin) : Builtin.ofName? g.name = some g := by
  cases g <;> rfl

end Loadout.Formula

/-! ## The build that selects another action -/

namespace Loadout.Build

open Formula Formula.Expr

variable {K : Type}

/-- The build that selects the action of a name. -/
def selecting (b : Build K) (name : String) : Build K := { b with actionName := name }

theorem selectedAction_selecting {b : Build K} {name : String} (hName : name ≠ "") {a : Action K}
    (h : b.lookupAction? name = some a) : (b.selecting name).selectedAction = a := by
  have hLookup : (b.selecting name).lookupAction? name = some a := h
  have hEmpty : ¬ name.isEmpty = true := by simpa using hName
  change (b.selecting name).action name = a
  rw [action, if_neg hEmpty, hLookup, Option.getD_some]

variable [Number K]

/-- The build that selects an action asks for it where a name has no qualifier, and for the same things as
before where it has one. -/
theorem resolver_selecting {b : Build K} {name : String} (hName : name ≠ "")
    (hKnown : (b.lookupAction? name).isSome = true) (s : AttributeSet K) :
    (Scene.ofSettlement (b.selecting name) (b.selecting name).settle s).resolver =
      (Scene.ofSettlement b b.settle s).resolver.under name := by
  obtain ⟨a, hAction⟩ := Option.isSome_iff_exists.mp hKnown
  funext qualifier key o
  cases qualifier with
  | some q => rfl
  | none =>
    have hUnder : (Scene.ofSettlement b b.settle s).resolver (some name) key o =
        (Scene.ofSettlement b b.settle s).valueFor? a key o := by
      have hLookup : (Scene.ofSettlement b b.settle s).build.lookupAction? name = some a := hAction
      simp only [Scene.resolver, hLookup]
    change (Scene.ofSettlement (b.selecting name) (b.selecting name).settle s).valueFor?
      (b.selecting name).selectedAction key o = (Scene.ofSettlement b b.settle s).resolver (some name) key o
    rw [hUnder, selectedAction_selecting hName hAction]
    rfl

/-- A formula has one value, and is valid or not, in whichever of three ways it is turned to an action that
has a name: as an argument of a function whose call has the name as its qualifier, with the qualifier in front
of its names, and on the build that selects the action. This is the value under the resolver to which a name
without a qualifier has this one, so a qualifier that is written in the formula wins in all three. -/
theorem retargetings_agree (b : Build K) {name : String} (hName : name ≠ "")
    (hKnown : (b.lookupAction? name).isSome = true) (s : AttributeSet K) (f : Expr K) :
    let r := (Scene.ofSettlement b b.settle s).resolver
    let r' := (Scene.ofSettlement (b.selecting name) (b.selecting name).settle s).resolver
    (∀ (g : Builtin) (before after : List (Expr K)),
      (call (some name) g.name (before ++ f :: after)).eval r =
          g.apply (evalAllIn r (some name) before ++
            f.eval (r.under name) :: evalAllIn r (some name) after) ∧
        ((call (some name) g.name (before ++ f :: after)).validate r = .ok () ↔
          validateAllIn r (some name) before = .ok () ∧ f.validate (r.under name) = .ok () ∧
            validateAllIn r (some name) after = .ok ())) ∧
    ((f.qualify name).eval r = f.eval (r.under name) ∧
      ((f.qualify name).validate r = .ok () ↔ f.validate (r.under name) = .ok ())) ∧
    (f.eval r' = f.eval (r.under name) ∧
      (f.validate r' = .ok () ↔ f.validate (r.under name) = .ok ())) ∧
    (f.qualify name = f → f.eval (r.under name) = f.eval r ∧
      (f.validate (r.under name) = .ok () ↔ f.validate r = .ok ())) := by
  intro r r'
  have hValue : f.evalIn r (some name) = f.eval (r.under name) := (evalIn_under r name f none).symm
  have hValid : f.validateIn r (some name) = .ok () ↔ f.validate (r.under name) = .ok () :=
    (validateIn_under r name f none).symm
  have hQualified : (f.qualify name).eval r = f.eval (r.under name) ∧
      ((f.qualify name).validate r = .ok () ↔ f.validate (r.under name) = .ok ()) := by
    rw [eval, evalIn_qualify, validate, validateIn_qualify]
    exact ⟨hValue, hValid⟩
  refine ⟨fun g before after => ⟨?_, ?_⟩, hQualified, ?_, fun hSame => ?_⟩
  · rw [eval, evalIn, Builtin.ofName?_name, Option.or_none, evalAllIn_append, evalAllIn, hValue]
  · rw [validate, validateIn, Builtin.ofName?_name, Option.isSome_some, if_pos rfl, Option.or_none,
      validateAllIn_append_eq_ok, validateAllIn, both_eq_ok_iff, hValid]
  · have hResolver : r' = r.under name := resolver_selecting hName hKnown s
    rw [hResolver]
    exact ⟨rfl, Iff.rfl⟩
  · rw [hSame] at hQualified
    exact ⟨hQualified.1.symm, hQualified.2.symm⟩

/-- The damage of a critical hit, and the hits of one weapon or the attack of another, whichever is more. -/
def damageAndHits : Expr Float :=
  .binary .add (.member (.property none "伤害") "暴击")
    (.call (some "远程") "max" [.property none "攻击", .property (some "刀") "段数"])

/-- Turned to the melee weapon, the first name gets the qualifier and the names in the call keep theirs. -/
theorem retargetings_agree_melee : ∃ b : Build Float, ofOptions armory .default swordsman = .ok b ∧
    "近战" ≠ "" ∧ (b.lookupAction? "近战").isSome = true ∧
    damageAndHits.qualify "近战" =
      .binary .add (.member (.property (some "近战") "伤害") "暴击")
        (.call (some "远程") "max" [.property none "攻击", .property (some "刀") "段数"]) ∧
    (damageAndHits.qualify "近战").eval (Scene.ofSettlement b b.settle .base).resolver =
      damageAndHits.eval
        (Scene.ofSettlement (b.selecting "近战") (b.selecting "近战").settle .base).resolver := by
  have h : ofOptions armory .default swordsman = .ok _ := rfl
  have hName : "近战" ≠ "" := by decide
  have hKnown (b : Build Float) (hb : ofOptions armory .default swordsman = .ok b) :
      (b.lookupAction? "近战").isSome = true := by
    cases hb
    rfl
  obtain ⟨-, hQualified, hSelecting, -⟩ := retargetings_agree _ hName (hKnown _ h) .base damageAndHits
  exact ⟨_, h, hName, hKnown _ h, rfl, hQualified.1.trans hSelecting.1.symm⟩

end Loadout.Build
