import Loadout.Number.Binary
import Loadout.Build.Scene
import Loadout.Proofs.Formula.Queries

/-!
# What validation tells about evaluation

A formula is validated by asking for the expected value of each of its names. Evaluation asks for more:
a member selects any of the outcomes. That one question stands for all is due to the resolvers that there
are, none of which lets the outcome decide whether a name is known. So in a formula that is valid nothing
counts as zero for want of an answer.

* `Expr.sites`: the names and functions of a formula from left to right, a function before its arguments,
  each name with the calls around it. The qualifier that holds for a name is read off these calls;
* `validateIn_eq`: validation reports the first site that is not known. The induction is on the formula, and
  the one qualifier that validation hands down is that of the nearest call that has one;
* `strictIn_eq`: evaluation that fails where there is no answer. It does not fail if all sites are known, and
  has the same value under every resolver that knows more;
* `Resolver.Native`: the resolvers that there are;
* `validate_spec`: when a formula is valid, what that says of its value, and which fault it has otherwise.
-/

namespace Loadout.Formula

/-! ## Sites -/

/-- A place of a formula that something must be known about: a name, with the qualifiers of the calls around
it, the innermost first, or a function. -/
inductive Site
  | property (calls : List (Option String)) (qualifier : Option String) (name : String)
  | function (qualifier : Option String) (name : String)
deriving DecidableEq

/-- The qualifier of the nearest call that has one. -/
def nearest (calls : List (Option String)) : Option String := calls.findSome? id

theorem nearest_cons (qualifier : Option String) (calls : List (Option String)) :
    nearest (qualifier :: calls) = qualifier.or (nearest calls) := by
  cases qualifier <;> rfl

variable {K : Type}

namespace Site

/-- Whether a resolver knows a name under the qualifier that holds for it, for an outcome, or a function is
built in. -/
def known (r : Resolver K) (o : Outcome) : Site → Bool
  | property calls qualifier name => (r (qualifier.or (nearest calls)) name o).isSome
  | function _ name => (Builtin.ofName? name).isSome

/-- What is reported of a site that is not known. -/
def fault : Site → FormulaError
  | property calls qualifier name => .unknownIdentifier (qualifier.or (nearest calls)) name
  | function qualifier name => .unknownFunction qualifier name

end Site

namespace Expr

mutual

/-- The sites of a formula inside some calls. -/
def sites (calls : List (Option String)) : Expr K → List Site
  | number _ => []
  | binary _ left right => left.sites calls ++ right.sites calls
  | unary _ operand => operand.sites calls
  | property qualifier name => [.property calls qualifier name]
  | member object _ => object.sites calls
  | call qualifier name arguments => .function qualifier name :: sitesAll (qualifier :: calls) arguments

def sitesAll (calls : List (Option String)) : List (Expr K) → List Site
  | [] => []
  | e :: rest => e.sites calls ++ sitesAll calls rest

end

end Expr

/-- The fault of the first site that is not known. -/
def report (r : Resolver K) (sites : List Site) : Except FormulaError Unit :=
  match sites.find? fun site => !site.known r .expected with
  | some site => .error site.fault
  | none => .ok ()

section

variable {r : Resolver K} {sites : List Site}

theorem report_cons (site : Site) (sites : List Site) :
    report r (site :: sites) =
      if site.known r .expected then report r sites else .error site.fault := by
  unfold report
  rw [List.find?_cons]
  cases site.known r .expected <;> rfl

theorem report_append (sites sites' : List Site) :
    report r (sites ++ sites') = (report r sites >>= fun _ => report r sites') := by
  unfold report
  rw [List.find?_append]
  cases sites.find? fun site => !site.known r .expected <;> rfl

theorem report_eq_ok_iff : report r sites = .ok () ↔ ∀ site ∈ sites, site.known r .expected = true := by
  unfold report
  split
  · rename_i site hFind
    have hUnknown := List.find?_some hFind
    refine ⟨fun h => (by cases h), fun h => ?_⟩
    rw [h site (List.mem_of_find?_eq_some hFind)] at hUnknown
    cases hUnknown
  · rename_i hNone
    simpa using hNone

theorem report_eq_error_iff {fault : FormulaError} :
    report r sites = .error fault ↔ ∃ before site after, sites = before ++ site :: after ∧
      (∀ s ∈ before, s.known r .expected = true) ∧ site.known r .expected = false ∧
        site.fault = fault := by
  unfold report
  split
  · rename_i site hFind
    obtain ⟨hUnknown, before, after, hSplit, hBefore⟩ := List.find?_eq_some_iff_append.mp hFind
    rw [Except.error.injEq]
    constructor
    · intro hFault
      exact ⟨before, site, after, hSplit, by simpa using hBefore, by simpa using hUnknown, hFault⟩
    · rintro ⟨before', site', after', hSplit', hBefore', hUnknown', hFault⟩
      have hFind' : sites.find? (fun site => !site.known r .expected) = some site' :=
        List.find?_eq_some_iff_append.mpr
          ⟨by simpa using hUnknown', before', after', hSplit', by simpa using hBefore'⟩
      rw [hFind, Option.some.injEq] at hFind'
      rw [hFind', hFault]
  · rename_i hNone
    refine ⟨fun h => (by cases h), ?_⟩
    rintro ⟨before, site, after, rfl, -, hUnknown, -⟩
    have hKnown := List.find?_eq_none.mp hNone site (by simp)
    simp [hUnknown] at hKnown

end

/-! ## Validation visits the sites -/

namespace Expr

mutual

/-- Validation reports the first site that is not known. -/
theorem validateIn_eq (r : Resolver K) (e : Expr K) (calls : List (Option String)) :
    e.validateIn r (nearest calls) = report r (e.sites calls) := by
  match e with
  | number x => simp only [validateIn, sites, report, List.find?_nil]
  | binary o left right =>
    rw [validateIn, sites, report_append, validateIn_eq r left calls, validateIn_eq r right calls]
  | unary o operand => rw [validateIn, sites, validateIn_eq r operand calls]
  | property qualifier name =>
    rw [validateIn, sites, report_cons]
    rfl
  | member object selected => rw [validateIn, sites, validateIn_eq r object calls]
  | call qualifier name arguments =>
    rw [validateIn, sites, ← nearest_cons, validateAllIn_eq r arguments (qualifier :: calls), report_cons]
    rfl

theorem validateAllIn_eq (r : Resolver K) (es : List (Expr K)) (calls : List (Option String)) :
    validateAllIn r (nearest calls) es = report r (sitesAll calls es) := by
  match es with
  | [] => simp only [validateAllIn, sitesAll, report, List.find?_nil]
  | e :: rest =>
    rw [validateAllIn, sitesAll, report_append, validateIn_eq r e calls, validateAllIn_eq r rest calls]

end

theorem validate_eq (r : Resolver K) (e : Expr K) : e.validate r = report r (e.sites []) :=
  validateIn_eq r e []

/-! ## Evaluation that may fail -/

variable [Number K]

mutual

/-- The value where names without a qualifier have the qualifier `q`, if the resolver knows all that it is
asked for and all functions are built in. Nothing counts as zero for want of an answer. -/
def strictIn (r : Resolver K) (q : Option String) : Expr K → Option K
  | number x => some x
  | binary o left right => do
    let x ← left.strictIn r q
    let y ← right.strictIn r q
    return o.apply x y
  | unary o operand => (operand.strictIn r q).map o.apply
  | property qualifier name => r (qualifier.or q) name .expected
  | member (property qualifier name) selected =>
    r (qualifier.or q) name ((Outcome.ofName? selected).getD .expected)
  | member object _ => object.strictIn r q
  | call qualifier name arguments => do
    let f ← Builtin.ofName? name
    let xs ← strictAllIn r (qualifier.or q) arguments
    return f.apply xs

def strictAllIn (r : Resolver K) (q : Option String) : List (Expr K) → Option (List K)
  | [] => some []
  | e :: rest => do
    let x ← e.strictIn r q
    let xs ← strictAllIn r q rest
    return x :: xs

end

/-- The value of a formula that needs no answer but those of the resolver. -/
def strict (r : Resolver K) (e : Expr K) : Option K := e.strictIn r none

theorem strictIn_member {r : Resolver K} {object : Expr K} {selected : String} {q : Option String}
    (h : ¬ ∃ qualifier name, object = property qualifier name) :
    (member object selected).strictIn r q = object.strictIn r q := by
  cases object with
  | property qualifier name => exact absurd ⟨qualifier, name, rfl⟩ h
  | _ => simp only [strictIn]

end Expr

/-- One resolver gives all the answers of another one, and maybe more. -/
def Resolver.Extends (r' r : Resolver K) : Prop :=
  ∀ qualifier name o x, r qualifier name o = some x → r' qualifier name o = some x

/-- A resolver that knows a name for an outcome gives the answer that evaluation has under an extension of
it. -/
theorem Resolver.Extends.eq_some_getD {r r' : Resolver K} (h : r'.Extends r) {qualifier : Option String}
    {name : String} {o : Outcome} (hKnown : (r qualifier name o).isSome = true) (default : K) :
    r qualifier name o = some ((r' qualifier name o).getD default) := by
  obtain ⟨x, hAnswer⟩ := Option.isSome_iff_exists.mp hKnown
  rw [hAnswer, h _ _ _ x hAnswer, Option.getD_some]

namespace Expr

variable [Number K] {r r' : Resolver K}

mutual

/-- If all sites are known for all outcomes, evaluation does not fail, and it has the value of any
resolver that extends the one it uses. -/
theorem strictIn_eq (hExtends : r'.Extends r) (e : Expr K) (calls : List (Option String))
    (h : ∀ site ∈ e.sites calls, ∀ o, site.known r o = true) :
    e.strictIn r (nearest calls) = some (e.evalIn r' (nearest calls)) := by
  match e with
  | number x => simp only [strictIn, evalIn]
  | binary o left right =>
    rw [sites] at h
    rw [strictIn, evalIn,
      strictIn_eq hExtends left calls fun site hMem => h site (List.mem_append_left _ hMem),
      strictIn_eq hExtends right calls fun site hMem => h site (List.mem_append_right _ hMem)]
    rfl
  | unary o operand =>
    rw [sites] at h
    rw [strictIn, evalIn, strictIn_eq hExtends operand calls h]
    rfl
  | property qualifier name =>
    rw [strictIn, evalIn]
    exact hExtends.eq_some_getD (h (.property calls qualifier name) (by simp [sites]) .expected) _
  | member object selected =>
    by_cases hProperty : ∃ qualifier name, object = property qualifier name
    · obtain ⟨qualifier, name, hObject⟩ := hProperty
      have hKnown := h (.property calls qualifier name) (by simp [hObject, sites])
        ((Outcome.ofName? selected).getD .expected)
      rw [hObject, strictIn, evalIn]
      exact hExtends.eq_some_getD hKnown _
    · rw [sites] at h
      rw [strictIn_member hProperty, evalIn_member hProperty, strictIn_eq hExtends object calls h]
  | call qualifier name arguments =>
    rw [sites] at h
    obtain ⟨f, hName⟩ := Option.isSome_iff_exists.mp
      (h (.function qualifier name) List.mem_cons_self .expected)
    have hArguments := strictAllIn_eq hExtends arguments (qualifier :: calls) fun site hMem =>
      h site (List.mem_cons_of_mem _ hMem)
    rw [nearest_cons] at hArguments
    rw [strictIn, evalIn, hName, hArguments]
    rfl

theorem strictAllIn_eq (hExtends : r'.Extends r) (es : List (Expr K)) (calls : List (Option String))
    (h : ∀ site ∈ sitesAll calls es, ∀ o, site.known r o = true) :
    strictAllIn r (nearest calls) es = some (evalAllIn r' (nearest calls) es) := by
  match es with
  | [] => simp only [strictAllIn, evalAllIn]
  | e :: rest =>
    rw [sitesAll] at h
    rw [strictAllIn, evalAllIn,
      strictIn_eq hExtends e calls fun site hMem => h site (List.mem_append_left _ hMem),
      strictAllIn_eq hExtends rest calls fun site hMem => h site (List.mem_append_right _ hMem)]
    rfl

end

end Expr

end Loadout.Formula

/-! ## The resolvers that there are -/

namespace Loadout

variable {K : Type} [Number K]

/-- Whether a name is known for an action does not depend on the outcome. -/
theorem Scene.isSome_valueFor? (c : Scene K) (a : Action K) (name : String) (o o' : Outcome) :
    (c.valueFor? a name o).isSome = (c.valueFor? a name o').isSome := by
  unfold valueFor?
  split
  · rfl
  · split
    · rfl
    · split <;> rfl

namespace Formula

/-- The resolvers of formulas: some attributes, what a script may read, and any scene of a score. -/
inductive Resolver.Native : Resolver K → Prop
  | attributes (s : AttributeSet K) : Native s.resolver
  | script (s : AttributeSet K) (level : Nat) : Native (Script.resolver s level)
  | scene (c : Scene K) : Native c.resolver

/-- They know a name for all outcomes or for none. -/
theorem Resolver.Native.isSome_eq {r : Resolver K} (h : Native r) (qualifier : Option String)
    (name : String) (o o' : Outcome) : (r qualifier name o).isSome = (r qualifier name o').isSome := by
  cases h with
  | attributes s => rfl
  | script s level => rfl
  | scene c =>
    unfold Scene.resolver
    cases qualifier with
    | none => exact c.isSome_valueFor? _ name o o'
    | some q =>
      dsimp only
      split
      · exact c.isSome_valueFor? _ name o o'
      · rfl

theorem Resolver.Native.known_eq {r : Resolver K} (h : Native r) (o o' : Outcome) (site : Site) :
    site.known r o = site.known r o' := by
  cases site with
  | property calls qualifier name => exact h.isSome_eq _ name o o'
  | function qualifier name => rfl

/-- A formula is valid just when all its sites are known, for whichever outcome. Then evaluation needs no
answer but those of the resolver, and the value is the same under every other resolver that gives these
answers. Otherwise the fault is that of the first site that is not known. -/
theorem validate_spec {r : Resolver K} (h : Resolver.Native r) (e : Expr K) (o : Outcome) :
    (e.validate r = .ok () ↔ ∀ site ∈ e.sites [], site.known r o = true) ∧
    (e.validate r = .ok () → e.strict r = some (e.eval r) ∧
      ∀ r' : Resolver K, r'.Extends r → e.eval r' = e.eval r) ∧
    (∀ fault, e.validate r = .error fault ↔ ∃ before site after, e.sites [] = before ++ site :: after ∧
      (∀ s ∈ before, s.known r o = true) ∧ site.known r o = false ∧ site.fault = fault) := by
  have hOutcome : Site.known r o = Site.known r .expected := funext (h.known_eq o .expected)
  rw [Expr.validate_eq, hOutcome]
  refine ⟨report_eq_ok_iff, fun hOk => ?_, fun fault => report_eq_error_iff⟩
  have hKnown : ∀ site ∈ e.sites [], ∀ o, site.known r o = true := fun site hMem o =>
    (h.known_eq o .expected site).trans (report_eq_ok_iff.mp hOk site hMem)
  have hStrict {r' : Resolver K} (hExtends : r'.Extends r) : e.strict r = some (e.eval r') :=
    Expr.strictIn_eq hExtends e [] hKnown
  have hSelf := hStrict fun _ _ _ _ hAnswer => hAnswer
  refine ⟨hSelf, fun r' hExtends => ?_⟩
  exact Option.some.inj ((hStrict hExtends).symm.trans hSelf)

/-- The greater of the attack on a critical hit and the level. -/
def attackOrLevel : Expr Float :=
  .call none "max" [.member (.property none "攻击") "crit", .property none "level"]

/-- The same, and the attack inside a call with a qualifier, before a function that is not built in. -/
def qualifiedAttack : Expr Float :=
  .binary .add attackOrLevel (.call (some "近战") "min" [.unary .neg (.property none "攻击"),
    .call none "sqrt" [.number 2.0]])

/-- A script may read the first of them, and no answer beyond those of the script changes its value. Of the
second one the name in the call is reported, with the qualifier of the call. -/
theorem validate_attackOrLevel :
    Resolver.Native (Script.resolver (.base : AttributeSet Float) 3) ∧
      attackOrLevel.validate (Script.resolver .base 3) = .ok () ∧
      (attackOrLevel.eval fun q name o => (Script.resolver .base 3 q name o).or (some 1.0)) =
        attackOrLevel.eval (Script.resolver .base 3) ∧
      qualifiedAttack.validate (Script.resolver .base 3) =
        .error (.unknownIdentifier (some "近战") "攻击") := by
  have hNative : Resolver.Native (Script.resolver (.base : AttributeSet Float) 3) := .script .base 3
  obtain ⟨hValid, hValue, -⟩ := validate_spec hNative attackOrLevel .crit
  obtain ⟨-, -, hFault⟩ := validate_spec hNative qualifiedAttack .crit
  have hOk := hValid.mpr (by decide +kernel)
  refine ⟨hNative, hOk, (hValue hOk).2 _ fun q name o x h => by rw [h, Option.some_or], ?_⟩
  refine (hFault _).mpr ⟨attackOrLevel.sites [] ++ [.function (some "近战") "min"],
    .property [some "近战"] none "攻击", [.function none "sqrt"], ?_, ?_, ?_, rfl⟩
  · decide +kernel
  · decide +kernel
  · decide +kernel

end Formula

end Loadout
