import Loadout.Formula.Expr
import Loadout.Formula.Token

/-!
# The grammar of formulas

Which tokens spell out which tree, said without regard to how they are read:

    expr   := term (('+' | '-') term)*
    term   := unary (('*' | '/' | '//' | '%') unary)*
    unary  := ('+' | '-') unary | factor
    factor := (number | name ('(' arguments ')')? | '(' expr ')') ('.' ident)*
    name   := ident ('::' ident)?

A repetition is derived from its front part and its last member, so the tree of a chain of binary
operators has the whole front part for its left operand: the operators of one level group to the
left. Arguments are separated by commas, with none behind the last one.
-/

namespace Loadout.Formula

variable {K : Type}

/-- The tokens of a name. -/
def nameTokens (qualifier : Option String) (name : String) : List (Token K) :=
  match qualifier with
  | none => [.ident name]
  | some q => [.ident q, .colons, .ident name]

def sumOps : List BinaryOp := [.add, .sub]

def productOps : List BinaryOp := [.mul, .div, .floorDiv, .rem]

/-- What tokens may spell out: the tree of one level of the grammar, or the arguments of a call, of
which there is at least one. -/
inductive Phrase (K : Type)
  | expr (e : Expr K)
  | term (e : Expr K)
  | unary (e : Expr K)
  | factor (e : Expr K)
  | arguments (es : List (Expr K))

/-- Some tokens spell out a phrase. -/
inductive Derives : List (Token K) → Phrase K → Prop
  | number (x : K) : Derives [.number x] (.factor (.number x))
  | property (qualifier : Option String) (name : String) :
    Derives (nameTokens qualifier name) (.factor (.property qualifier name))
  | emptyCall (qualifier : Option String) (name : String) :
    Derives (nameTokens qualifier name ++ [.openParen, .closeParen])
      (.factor (.call qualifier name []))
  | call (qualifier : Option String) (name : String) {ts : List (Token K)} {es : List (Expr K)} :
    Derives ts (.arguments es) →
    Derives (nameTokens qualifier name ++ .openParen :: ts ++ [.closeParen])
      (.factor (.call qualifier name es))
  | group {ts : List (Token K)} {e : Expr K} :
    Derives ts (.expr e) → Derives (.openParen :: ts ++ [.closeParen]) (.factor e)
  | member {ts : List (Token K)} {e : Expr K} (name : String) :
    Derives ts (.factor e) → Derives (ts ++ [.dot, .ident name]) (.factor (.member e name))
  | factor {ts : List (Token K)} {e : Expr K} : Derives ts (.factor e) → Derives ts (.unary e)
  | plus {ts : List (Token K)} {e : Expr K} :
    Derives ts (.unary e) → Derives (.op .add :: ts) (.unary (.unary .plus e))
  | neg {ts : List (Token K)} {e : Expr K} :
    Derives ts (.unary e) → Derives (.op .sub :: ts) (.unary (.unary .neg e))
  | unary {ts : List (Token K)} {e : Expr K} : Derives ts (.unary e) → Derives ts (.term e)
  | product {ls rs : List (Token K)} {l r : Expr K} {o : BinaryOp} :
    o ∈ productOps → Derives ls (.term l) → Derives rs (.unary r) →
    Derives (ls ++ .op o :: rs) (.term (.binary o l r))
  | term {ts : List (Token K)} {e : Expr K} : Derives ts (.term e) → Derives ts (.expr e)
  | sum {ls rs : List (Token K)} {l r : Expr K} {o : BinaryOp} :
    o ∈ sumOps → Derives ls (.expr l) → Derives rs (.term r) →
    Derives (ls ++ .op o :: rs) (.expr (.binary o l r))
  | argument {ts : List (Token K)} {e : Expr K} : Derives ts (.expr e) → Derives ts (.arguments [e])
  | arguments {ts us : List (Token K)} {es : List (Expr K)} {e : Expr K} :
    Derives ts (.arguments es) → Derives us (.expr e) →
    Derives (ts ++ .comma :: us) (.arguments (es ++ [e]))

theorem nameTokens_ne_nil (qualifier : Option String) (name : String) :
    (nameTokens qualifier name : List (Token K)) ≠ [] := by
  cases qualifier <;> simp [nameTokens]

theorem Derives.tokens_ne_nil {ts : List (Token K)} {phrase : Phrase K} (h : Derives ts phrase) :
    ts ≠ [] := by
  induction h with
  | property qualifier name => exact nameTokens_ne_nil qualifier name
  | factor _ ih | unary _ ih | term _ ih | argument _ ih => exact ih
  | _ => simp

theorem Derives.ne_nil {ts : List (Token K)} {es : List (Expr K)}
    (h : Derives ts (.arguments es)) : es ≠ [] := by
  cases h with
  | argument => simp
  | arguments => simp

/-! ## The two kinds of operators -/

theorem sign?_of_mem_sumOps {o : BinaryOp} (h : o ∈ sumOps) : ∃ s, o.sign? = some s := by
  simp only [sumOps, List.mem_cons, List.not_mem_nil, or_false] at h
  rcases h with rfl | rfl
  · exact ⟨.plus, rfl⟩
  · exact ⟨.neg, rfl⟩

theorem sign?_of_mem_productOps {o : BinaryOp} (h : o ∈ productOps) : o.sign? = none := by
  simp only [productOps, List.mem_cons, List.not_mem_nil, or_false] at h
  rcases h with rfl | rfl | rfl | rfl <;> rfl

theorem mem_sumOps_of_sign? {o : BinaryOp} {s : UnaryOp} (h : o.sign? = some s) : o ∈ sumOps := by
  cases o with
  | add | sub => decide
  | mul | div | floorDiv | rem => cases h

theorem mem_productOps_of_sign? {o : BinaryOp} (h : o.sign? = none) : o ∈ productOps := by
  cases o with
  | add | sub => cases h
  | mul | div | floorDiv | rem => decide

/-- A sign in front of what it applies to. -/
theorem Derives.sign {ts : List (Token K)} {e : Expr K} {o : BinaryOp} {s : UnaryOp}
    (h : o.sign? = some s) (he : Derives ts (.unary e)) :
    Derives (.op o :: ts) (.unary (.unary s e)) := by
  cases o with
  | add =>
    cases h
    exact he.plus
  | sub =>
    cases h
    exact he.neg
  | mul | div | floorDiv | rem => cases h

end Loadout.Formula
