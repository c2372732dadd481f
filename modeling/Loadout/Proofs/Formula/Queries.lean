import Loadout.Script

/-!
# What a formula looks up

Evaluation asks the resolver for names, each with the qualifier that holds for it and the outcome that
was selected. Nothing else about the resolver goes into the value of a formula, and so a step of a
script depends on the attributes that its formula names and on no others.

* `Expr.queries`: the questions, in the order in which evaluation asks them;
* `Expr.evalIn_congr`: resolvers that answer them alike give the same value;
* `Step.eval_congr`: the same for the attributes under a step of a script.
-/

namespace Loadout

namespace Formula

/-- A question to a resolver. -/
structure Query where
  qualifier : Option String
  name : String
  outcome : Outcome
deriving DecidableEq

/-- The answer of a resolver. -/
def Query.answer {K : Type} (k : Query) (r : Resolver K) : Option K :=
  r k.qualifier k.name k.outcome

namespace Expr

variable {K : Type}

mutual

/-- What evaluation asks for where names without a qualifier have the qualifier `q`. The arguments of a
function that is not built in are not looked at. -/
def queries (q : Option String) : Expr K → List Query
  | number _ => []
  | binary _ left right => left.queries q ++ right.queries q
  | unary _ operand => operand.queries q
  | property qualifier name => [⟨qualifier.or q, name, .expected⟩]
  | member (property qualifier name) selected =>
    [⟨qualifier.or q, name, (Outcome.ofName? selected).getD .expected⟩]
  | member object _ => object.queries q
  | call qualifier name arguments =>
    if (Builtin.ofName? name).isSome then queriesAll (qualifier.or q) arguments else []

def queriesAll (q : Option String) : List (Expr K) → List Query
  | [] => []
  | e :: rest => e.queries q ++ queriesAll q rest

end

/-- An outcome that is selected of anything but a name is ignored. -/
theorem queries_member {object : Expr K} {selected : String} {q : Option String}
    (h : ¬ ∃ qualifier name, object = property qualifier name) :
    (member object selected).queries q = object.queries q := by
  cases object with
  | property qualifier name => exact absurd ⟨qualifier, name, rfl⟩ h
  | _ => simp only [queries]

variable [Number K] {r r' : Resolver K}

theorem evalIn_member {object : Expr K} {selected : String} {q : Option String}
    (h : ¬ ∃ qualifier name, object = property qualifier name) :
    (member object selected).evalIn r q = object.evalIn r q := by
  cases object with
  | property qualifier name => exact absurd ⟨qualifier, name, rfl⟩ h
  | _ => simp only [evalIn]

mutual

/-- The value of a formula depends on the answers to its questions alone. -/
theorem evalIn_congr (e : Expr K) (q : Option String)
    (h : ∀ k ∈ e.queries q, k.answer r = k.answer r') : e.evalIn r q = e.evalIn r' q := by
  match e with
  | number x => simp only [evalIn]
  | binary o left right =>
    rw [queries] at h
    simp only [evalIn]
    rw [evalIn_congr left q fun k hk => h k (List.mem_append_left _ hk),
      evalIn_congr right q fun k hk => h k (List.mem_append_right _ hk)]
  | unary o operand =>
    rw [queries] at h
    simp only [evalIn]
    rw [evalIn_congr operand q h]
  | property qualifier name =>
    have hk := h ⟨qualifier.or q, name, .expected⟩ (by simp [queries])
    simp only [Query.answer] at hk
    simp only [evalIn, hk]
  | member object selected =>
    by_cases hProperty : ∃ qualifier name, object = property qualifier name
    · obtain ⟨qualifier, name, hObject⟩ := hProperty
      have hk := h ⟨qualifier.or q, name, (Outcome.ofName? selected).getD .expected⟩
        (by simp [hObject, queries])
      simp only [Query.answer] at hk
      simp only [hObject, evalIn, hk]
    · rw [queries_member hProperty] at h
      rw [evalIn_member hProperty, evalIn_member hProperty, evalIn_congr object q h]
  | call qualifier name arguments =>
    simp only [queries] at h
    simp only [evalIn]
    cases hName : Builtin.ofName? name with
    | none => rfl
    | some f =>
      rw [hName, Option.isSome_some, if_pos rfl] at h
      simp only [evalAllIn_congr arguments (qualifier.or q) h]

theorem evalAllIn_congr (es : List (Expr K)) (q : Option String)
    (h : ∀ k ∈ queriesAll q es, k.answer r = k.answer r') :
    evalAllIn r q es = evalAllIn r' q es := by
  match es with
  | [] => simp only [evalAllIn]
  | e :: rest =>
    rw [queriesAll] at h
    simp only [evalAllIn]
    rw [evalIn_congr e q fun k hk => h k (List.mem_append_left _ hk),
      evalAllIn_congr rest q fun k hk => h k (List.mem_append_right _ hk)]

end

end Expr

end Formula

/-! ## Scripts -/

open Formula

/-- The attribute that a question is about when a script asks it. -/
def Script.attribute? (k : Query) : Option Attribute :=
  if k.qualifier.isSome then none
  else if levelNames.contains k.name then none
  else Attribute.ofName? k.name

namespace Step

variable {K : Type}

/-- The attributes that the formula of a step reads. -/
def reads (step : Step K) : List Attribute :=
  (step.formula.queries none).filterMap Script.attribute?

variable [Number K] {s s' : AttributeSet K}

/-- An answer that differs between two attribute sets is about an attribute that does. -/
theorem answer_resolver_congr (level : Nat) (k : Query)
    (h : ∀ a, Script.attribute? k = some a → s.get a = s'.get a) :
    k.answer (Script.resolver s level) = k.answer (Script.resolver s' level) := by
  obtain ⟨qualifier, name, outcome⟩ := k
  simp only [Query.answer, Script.resolver]
  simp only [Script.attribute?] at h
  split
  · rfl
  · rename_i hQualifier
    split
    · rfl
    · rename_i hLevel
      rw [if_neg hQualifier, if_neg hLevel] at h
      cases hName : Attribute.ofName? name with
      | none => rfl
      | some a => simp only [Option.map_some, h a hName]

/-- The value of the formula of a step depends on the attributes that it reads alone. -/
theorem eval_congr (step : Step K) (level : Nat) (h : ∀ a ∈ step.reads, s.get a = s'.get a) :
    step.formula.eval (Script.resolver s level) =
      step.formula.eval (Script.resolver s' level) := by
  apply Expr.evalIn_congr
  intro k hk
  apply answer_resolver_congr
  intro a ha
  exact h a (List.mem_filterMap.mpr ⟨k, hk, ha⟩)

end Step

end Loadout
