import Loadout.Formula.Parser
import Loadout.Proofs.Formula.Grammar

/-!
# What is read is derived

An unfinished formula keeps in three places what has been read. `Unfinished.Reads` says for each of
them which of the tokens it stands for, in terms of the grammar; the tokens of the open parentheses
come first, then those of the pending operators, then those of the operand.

* `Reads.next`: one more token keeps this up;
* `Reads.run`: so do any number of tokens;
* `Reads.result`: what is left at the end is a derivation of all tokens.
-/

namespace Loadout.Formula

variable {K : Type}

/-! ## Pending operators -/

/-- What waits for a right operand: nothing, or an operator behind a left operand of its level. -/
inductive LeftReads (level : Expr K → Phrase K) (ops : List BinaryOp) :
    Option (Expr K × BinaryOp) → List (Token K) → Prop
  | none : LeftReads level ops none []
  | some {ts : List (Token K)} {l : Expr K} {o : BinaryOp} :
    o ∈ ops → Derives ts (level l) → LeftReads level ops (some (l, o)) (ts ++ [.op o])

/-- The tokens of signs of which the last written stands first. -/
def signTokens (signs : List UnaryOp) : List (Token K) :=
  signs.reverse.map fun s => .op s.binary

/-- The tokens of pending operators: the sum, the product and the signs. -/
def Pending.Reads (p : Pending K) (ts : List (Token K)) : Prop :=
  ∃ as bs, ts = as ++ bs ++ signTokens p.signs ∧
    LeftReads .expr sumOps p.sum as ∧ LeftReads .term productOps p.product bs

namespace Pending

variable {p : Pending K} {ts us : List (Token K)} {e : Expr K}

theorem reads_none : (none : Pending K).Reads [] := ⟨[], [], rfl, .none, .none⟩

theorem Reads.eq_nil (h : (none : Pending K).Reads ts) : ts = [] := by
  obtain ⟨as, bs, rfl, hSum, hProduct⟩ := h
  cases hSum
  cases hProduct
  rfl

theorem sign?_binary (s : UnaryOp) : s.binary.sign? = some s := by
  cases s <;> rfl

theorem derives_signs (signs : List UnaryOp) (h : Derives us (.unary e)) :
    Derives (signTokens signs ++ us) (.unary (signs.foldl (fun e s => .unary s e) e)) := by
  induction signs generalizing us e with
  | nil => exact h
  | cons s rest ih =>
    have hTokens : signTokens (s :: rest) ++ us = signTokens rest ++ .op s.binary :: us := by
      simp [signTokens]
    rw [hTokens, List.foldl_cons]
    exact ih (h.sign (sign?_binary s))

theorem derives_joinProduct {left : Option (Expr K × BinaryOp)}
    (h : LeftReads .term productOps left ts) (he : Derives us (.unary e)) :
    Derives (ts ++ us) (.term (join left e)) := by
  cases h with
  | none => exact he.unary
  | some ho hl =>
    rw [List.append_assoc]
    exact .product ho hl he

theorem derives_joinSum {left : Option (Expr K × BinaryOp)}
    (h : LeftReads .expr sumOps left ts) (he : Derives us (.term e)) :
    Derives (ts ++ us) (.expr (join left e)) := by
  cases h with
  | none => exact he.term
  | some ho hl =>
    rw [List.append_assoc]
    exact .sum ho hl he

/-- The operand closes the product, which leaves what the sum waits with in front. -/
theorem Reads.closeProduct (h : p.Reads ts) (he : Derives us (.factor e)) :
    ∃ as bs, ts ++ us = as ++ bs ∧ LeftReads .expr sumOps p.sum as ∧
      Derives bs (.term (p.closeProduct e)) := by
  obtain ⟨as, bs, rfl, hSum, hProduct⟩ := h
  refine ⟨as, bs ++ (signTokens p.signs ++ us), by simp, hSum, ?_⟩
  exact derives_joinProduct hProduct (derives_signs p.signs he.factor)

theorem Reads.close (h : p.Reads ts) (he : Derives us (.factor e)) :
    Derives (ts ++ us) (.expr (p.close e)) := by
  obtain ⟨as, bs, hSplit, hSum, hTerm⟩ := h.closeProduct he
  rw [hSplit]
  exact derives_joinSum hSum hTerm

theorem Reads.push (h : p.Reads ts) (he : Derives us (.factor e)) (o : BinaryOp) :
    (p.push e o).Reads (ts ++ us ++ [.op o]) := by
  unfold Pending.push
  cases ho : o.sign? with
  | some s =>
    have hSum := LeftReads.some (mem_sumOps_of_sign? ho) (h.close he)
    exact ⟨_, [], by simp [signTokens], hSum, .none⟩
  | none =>
    obtain ⟨as, bs, hSplit, hSum, hTerm⟩ := h.closeProduct he
    have hProduct := LeftReads.some (mem_productOps_of_sign? ho) hTerm
    exact ⟨as, bs ++ [.op o], by rw [hSplit]; simp [signTokens], hSum, hProduct⟩

theorem Reads.pushSign (h : p.Reads ts) {o : BinaryOp} {s : UnaryOp} (ho : o.sign? = some s) :
    (p.pushSign s).Reads (ts ++ [.op o]) := by
  have hBinary : s.binary = o := by
    cases o <;> cases ho <;> rfl
  obtain ⟨as, bs, rfl, hSum, hProduct⟩ := h
  exact ⟨as, bs, by simp [signTokens, Pending.pushSign, hBinary], hSum, hProduct⟩

end Pending

/-! ## Open parentheses -/

/-- The tokens from an open parenthesis on: for a call also its name and the arguments that are
followed by a comma. -/
inductive Enclosure.Reads : Enclosure K → List (Token K) → Prop
  | group : Enclosure.Reads .group [.openParen]
  | call (qualifier : Option String) (name : String) :
    Enclosure.Reads (.call qualifier name []) (nameTokens qualifier name ++ [.openParen])
  | arguments (qualifier : Option String) (name : String) {ts : List (Token K)}
    {es : List (Expr K)} : Derives ts (.arguments es.reverse) →
    Enclosure.Reads (.call qualifier name es)
      (nameTokens qualifier name ++ .openParen :: ts ++ [.comma])

/-- With one more argument the tokens since the parenthesis are arguments. -/
theorem Enclosure.Reads.argument {qualifier : Option String} {name : String}
    {es : List (Expr K)} {e : Expr K} {ts us : List (Token K)}
    (h : (Enclosure.call qualifier name es).Reads ts) (he : Derives us (.expr e)) :
    ∃ vs, ts ++ us = nameTokens qualifier name ++ .openParen :: vs ∧
      Derives vs (.arguments (e :: es).reverse) := by
  cases h with
  | call => exact ⟨us, by simp, he.argument⟩
  | arguments _ _ hArguments =>
    rename_i vs
    refine ⟨vs ++ .comma :: us, by simp, ?_⟩
    rw [List.reverse_cons]
    exact hArguments.arguments he

/-- The tokens of all open parentheses and of what is pending outside each of them, the innermost
last. -/
inductive EnclosingReads : List (Enclosure K × Pending K) → List (Token K) → Prop
  | nil : EnclosingReads [] []
  | cons {enclosing : List (Enclosure K × Pending K)} {enclosure : Enclosure K} {p : Pending K}
    {as bs cs : List (Token K)} : EnclosingReads enclosing as → p.Reads bs → enclosure.Reads cs →
    EnclosingReads ((enclosure, p) :: enclosing) (as ++ bs ++ cs)

/-! ## Operands -/

/-- The tokens of an operand so far. -/
inductive Phase.Reads : Phase K → List (Token K) → Prop
  | operand (before : Before) : Phase.Reads (.operand before) []
  | firstArgument : Phase.Reads .firstArgument []
  | bareName (name : String) : Phase.Reads (.bareName name) [.ident name]
  | qualifier (q : String) : Phase.Reads (.qualifier q) [.ident q, .colons]
  | qualifiedName (q name : String) :
    Phase.Reads (.qualifiedName q name) [.ident q, .colons, .ident name]
  | memberName {ts : List (Token K)} {e : Expr K} :
    Derives ts (.factor e) → Phase.Reads (.memberName e) (ts ++ [.dot])
  | finished {ts : List (Token K)} {e : Expr K} :
    Derives ts (.factor e) → Phase.Reads (.finished e) ts

/-- Right behind the parenthesis of a call nothing is pending, and the call has no arguments. -/
def Unfinished.AtFirstArgument (s : Unfinished K) : Prop :=
  s.pending = .none ∧ ∃ qualifier name p rest, s.enclosing = (.call qualifier name [], p) :: rest

/-- The tokens of an unfinished formula. -/
structure Unfinished.Reads (s : Unfinished K) (ts : List (Token K)) : Prop where
  split : ∃ as bs cs, ts = as ++ bs ++ cs ∧ EnclosingReads s.enclosing as ∧ s.pending.Reads bs ∧
    s.phase.Reads cs
  firstArgument : s.phase = .firstArgument → s.AtFirstArgument

namespace Unfinished

theorem reads_start : (start : Unfinished K).Reads [] :=
  ⟨⟨[], [], [], rfl, .nil, Pending.reads_none, .operand _⟩, fun h => by cases h⟩

variable {s s' : Unfinished K} {as bs cs : List (Token K)}

/-- Away from the first argument of a call the three parts may be put together freely. -/
theorem reads_mk {enclosing : List (Enclosure K × Pending K)} {pending : Pending K}
    {phase : Phase K} {ts : List (Token K)} (hEnclosing : EnclosingReads enclosing as)
    (hPending : pending.Reads bs) (hPhase : phase.Reads cs) (hne : phase ≠ .firstArgument)
    (hSplit : ts = as ++ bs ++ cs) : (⟨enclosing, pending, phase⟩ : Unfinished K).Reads ts :=
  ⟨⟨as, bs, cs, hSplit, hEnclosing, hPending, hPhase⟩, fun h => absurd h hne⟩

theorem reads_openCall (qualifier : Option String) (name : String)
    (hEnclosing : EnclosingReads s.enclosing as) (hPending : s.pending.Reads bs) :
    (s.openCall qualifier name).Reads (as ++ bs ++ (nameTokens qualifier name ++ [.openParen])) :=
  ⟨⟨_, [], [], by simp, hEnclosing.cons hPending (.call qualifier name), Pending.reads_none,
    .firstArgument⟩, fun _ => ⟨rfl, qualifier, name, s.pending, s.enclosing, rfl⟩⟩

theorem derives_of_finish {operand e : Expr K} (hEnclosing : EnclosingReads s.enclosing as)
    (hPending : s.pending.Reads bs) (he : Derives cs (.factor operand))
    (h : s.finish operand = .ok e) : Derives (as ++ bs ++ cs) (.expr e) := by
  obtain ⟨enclosing, pending, phase⟩ := s
  cases hEnclosing with
  | nil =>
    cases h
    exact hPending.close he
  | cons => cases h

theorem Reads.result {ts : List (Token K)} {e : Expr K} (hs : s.Reads ts)
    (h : s.result = .ok e) : Derives ts (.expr e) := by
  obtain ⟨⟨as, bs, cs, rfl, hEnclosing, hPending, hPhase⟩, -⟩ := hs
  obtain ⟨enclosing, pending, phase⟩ := s
  cases hPhase with
  | operand before => cases before <;> cases h
  | firstArgument | qualifier q | memberName he => cases h
  | bareName name => exact derives_of_finish hEnclosing hPending (.property none name) h
  | qualifiedName q name => exact derives_of_finish hEnclosing hPending (.property (some q) name) h
  | finished he => exact derives_of_finish hEnclosing hPending he h

variable [Number K]

/-! ## One token -/

theorem reads_beginOperand (before : Before) {t : Token K}
    (hEnclosing : EnclosingReads s.enclosing as) (hPending : s.pending.Reads bs)
    (h : s.beginOperand before t = .ok s') : s'.Reads (as ++ bs ++ [t]) := by
  cases t with
  | number x =>
    cases h
    exact reads_mk hEnclosing hPending (.finished (.number x)) (by simp) rfl
  | ident name =>
    cases h
    exact reads_mk hEnclosing hPending (.bareName name) (by simp) rfl
  | openParen =>
    cases h
    exact reads_mk (hEnclosing.cons hPending .group) Pending.reads_none (.operand _) (by simp)
      (by simp)
  | op o =>
    rw [beginOperand] at h
    cases ho : o.sign? with
    | some sign =>
      rw [ho] at h
      cases h
      exact reads_mk hEnclosing (hPending.pushSign ho) (.operand _) (by simp) (by simp)
    | none =>
      rw [ho] at h
      cases h
  | closeParen | comma | dot | colons => cases h

theorem reads_closeParen {operand : Expr K} (hEnclosing : EnclosingReads s.enclosing as)
    (hPending : s.pending.Reads bs) (he : Derives cs (.factor operand))
    (h : s.closeParen operand = .ok s') : s'.Reads (as ++ bs ++ cs ++ [.closeParen]) := by
  have hInner := hPending.close he
  obtain ⟨enclosing, pending, phase⟩ := s
  cases hEnclosing with
  | nil => cases h
  | cons hOuter hBefore hParen =>
    rename_i enclosing enclosure p as ps vs
    cases enclosure with
    | group =>
      cases h
      cases hParen
      exact reads_mk hOuter hBefore (.finished hInner.group) (by simp) (by simp)
    | call qualifier name es =>
      cases h
      obtain ⟨us, hTokens, hArguments⟩ := hParen.argument hInner
      refine reads_mk hOuter hBefore (.finished (hArguments.call qualifier name)) (by simp) ?_
      have hCut : as ++ ps ++ vs ++ bs ++ cs ++ [.closeParen] =
          as ++ ps ++ (vs ++ (bs ++ cs) ++ [.closeParen]) := by simp
      rw [hCut, hTokens]

theorem reads_follow {operand : Expr K} {t : Token K} (hEnclosing : EnclosingReads s.enclosing as)
    (hPending : s.pending.Reads bs) (he : Derives cs (.factor operand))
    (h : s.follow operand t = .ok s') : s'.Reads (as ++ bs ++ cs ++ [t]) := by
  cases t with
  | dot =>
    cases h
    exact reads_mk hEnclosing hPending (.memberName he) (by simp) (by simp)
  | op o =>
    cases h
    exact reads_mk hEnclosing (hPending.push he o) (.operand _) (by simp) (by simp)
  | closeParen => exact reads_closeParen hEnclosing hPending he h
  | comma =>
    obtain ⟨enclosing, pending, phase⟩ := s
    cases hEnclosing with
    | nil => cases h
    | cons hOuter hBefore hParen =>
      rename_i enclosing enclosure p as ps vs
      cases enclosure with
      | group => cases h
      | call qualifier name es =>
        cases h
        obtain ⟨us, hTokens, hArguments⟩ := hParen.argument (hPending.close he)
        refine reads_mk (hOuter.cons hBefore (.arguments qualifier name hArguments))
          Pending.reads_none (.operand _) (by simp) ?_
        have hCut : as ++ ps ++ vs ++ bs ++ cs ++ [.comma] =
            as ++ ps ++ (vs ++ (bs ++ cs) ++ [.comma]) := by simp
        rw [hCut, hTokens]
        simp
  | number _ | ident _ | openParen | colons =>
    obtain ⟨enclosing, pending, phase⟩ := s
    match enclosing with
    | [] => cases h
    | (.group, _) :: _ | (.call .., _) :: _ => cases h

/-- One more token. A bare name or a qualified one is an operand as soon as anything but a
parenthesis follows. -/
theorem Reads.next {t : Token K} {ts : List (Token K)} (hs : s.Reads ts)
    (h : s.next t = .ok s') : s'.Reads (ts ++ [t]) := by
  obtain ⟨⟨as, bs, cs, rfl, hEnclosing, hPending, hPhase⟩, hFirst⟩ := hs
  obtain ⟨enclosing, pending, phase⟩ := s
  cases hPhase with
  | operand before =>
    rw [List.append_nil]
    exact reads_beginOperand before hEnclosing hPending h
  | firstArgument =>
    obtain ⟨rfl, qualifier, name, p, rest, rfl⟩ := hFirst rfl
    rw [List.append_nil]
    cases t with
    | closeParen =>
      cases h
      obtain rfl := hPending.eq_nil
      cases hEnclosing with
      | cons hOuter hBefore hParen =>
        cases hParen with
        | call =>
          exact reads_mk hOuter hBefore (.finished (.emptyCall qualifier name)) (by simp) (by simp)
        | arguments _ _ hArguments => exact absurd rfl hArguments.ne_nil
    | number _ | ident _ | op _ | dot | colons | openParen | comma =>
      exact reads_beginOperand .start hEnclosing hPending h
  | bareName name =>
    cases t with
    | colons =>
      cases h
      exact reads_mk hEnclosing hPending (.qualifier name) (by simp) (by simp)
    | openParen =>
      cases h
      rw [List.append_assoc]
      exact reads_openCall none name hEnclosing hPending
    | number _ | ident _ | op _ | dot | closeParen | comma =>
      exact reads_follow hEnclosing hPending (.property none name) h
  | qualifier q =>
    cases t with
    | ident name =>
      cases h
      exact reads_mk hEnclosing hPending (.qualifiedName q name) (by simp) (by simp)
    | number _ | op _ | dot | colons | openParen | closeParen | comma => cases h
  | qualifiedName q name =>
    cases t with
    | openParen =>
      cases h
      rw [List.append_assoc]
      exact reads_openCall (some q) name hEnclosing hPending
    | number _ | ident _ | op _ | dot | colons | closeParen | comma =>
      exact reads_follow hEnclosing hPending (.property (some q) name) h
  | memberName he =>
    cases t with
    | ident name =>
      cases h
      exact reads_mk hEnclosing hPending (.finished (he.member name)) (by simp) (by simp)
    | number _ | op _ | dot | colons | openParen | closeParen | comma => cases h
  | finished he => exact reads_follow hEnclosing hPending he h

/-! ## All tokens -/

theorem Reads.run {ts us : List (Token K)} (hs : s.Reads ts)
    (h : us.foldlM Unfinished.next s = .ok s') : s'.Reads (ts ++ us) := by
  induction us generalizing s ts with
  | nil =>
    cases h
    rw [List.append_nil]
    exact hs
  | cons t rest ih =>
    rw [List.foldlM_cons] at h
    cases hNext : s.next t with
    | error e =>
      rw [hNext] at h
      cases h
    | ok middle =>
      rw [hNext] at h
      rw [List.append_cons]
      exact ih (hs.next hNext) h

end Unfinished

variable [Number K]

/-- What is read from some tokens is spelled out by them. -/
theorem derives_of_parseTokens {ts : List (Token K)} {e : Expr K}
    (h : parseTokens ts = .ok e) : Derives ts (.expr e) := by
  unfold parseTokens at h
  split at h
  · cases h
  · cases hRun : ts.foldlM Unfinished.next Unfinished.start with
    | error fault =>
      rw [hRun] at h
      cases h
    | ok s =>
      rw [hRun] at h
      exact (Unfinished.reads_start.run hRun).result h

end Loadout.Formula
