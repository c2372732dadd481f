import Loadout.Number.Binary
import Loadout.Proofs.Formula.Soundness

/-!
# What is derived is read

The tokens of a phrase take an unfinished formula from a place where an operand may begin to one
behind an operand; what is open around it stays as it is. How much becomes pending depends on the
level of the phrase, and so does what closes it (`Readable`). One induction on the derivation goes
through all levels.

* `Derives.readable`: every phrase is read;
* `Derives.unique`: the grammar is not ambiguous;
* `parse_eq_ok_iff_derives`: reading a text gives the formula that its tokens spell out, or fails.
-/

namespace Loadout.Formula

variable {K : Type}

/-! ## Operands -/

namespace Phase

/-- Whether an operand may begin here. -/
inductive Ready : Phase K → Prop
  | operand (before : Before) : Ready (.operand before)
  | firstArgument : Ready .firstArgument

/-- The operand that has been read, if it may end here. -/
def value? : Phase K → Option (Expr K)
  | .bareName name => some (.property none name)
  | .qualifiedName q name => some (.property (some q) name)
  | .finished e => some e
  | _ => none

end Phase

namespace Unfinished

variable [Number K] {enclosing : List (Enclosure K × Pending K)} {pending : Pending K}
  {phase : Phase K}

/-- Takes tokens one after another. -/
def run (s : Unfinished K) (ts : List (Token K)) : Except FormulaError (Unfinished K) :=
  ts.foldlM next s

theorem run_cons {s s' : Unfinished K} {t : Token K} (h : s.next t = .ok s')
    (ts : List (Token K)) : s.run (t :: ts) = s'.run ts := by
  rw [run, List.foldlM_cons, h]
  rfl

theorem run_append {s s' : Unfinished K} {ts : List (Token K)} (h : s.run ts = .ok s')
    (us : List (Token K)) : s.run (ts ++ us) = s'.run us := by
  rw [run] at h
  rw [run, List.foldlM_append, h]
  rfl

/-! ### Where an operand may begin -/

theorem next_number (h : phase.Ready) (x : K) :
    next ⟨enclosing, pending, phase⟩ (.number x) =
      .ok ⟨enclosing, pending, .finished (.number x)⟩ := by
  cases h <;> rfl

theorem next_ident (h : phase.Ready) (name : String) :
    next ⟨enclosing, pending, phase⟩ (.ident name) =
      .ok ⟨enclosing, pending, .bareName name⟩ := by
  cases h <;> rfl

theorem next_openParen (h : phase.Ready) :
    next ⟨enclosing, pending, phase⟩ .openParen =
      .ok ⟨(.group, pending) :: enclosing, .none, .operand .start⟩ := by
  cases h <;> rfl

theorem next_sign (h : phase.Ready) {o : BinaryOp} {s : UnaryOp} (ho : o.sign? = some s) :
    next ⟨enclosing, pending, phase⟩ (.op o) =
      .ok ⟨enclosing, pending.pushSign s, .operand (.sign s)⟩ := by
  cases o <;> cases ho <;> cases h <;> rfl

variable (enclosing pending) in
/-- A name is an operand, until a parenthesis makes it a call. -/
theorem run_nameTokens (h : phase.Ready) (qualifier : Option String) (name : String) :
    ∃ phase', run ⟨enclosing, pending, phase⟩ (nameTokens qualifier name) =
        .ok ⟨enclosing, pending, phase'⟩ ∧ phase'.value? = some (.property qualifier name) ∧
      next ⟨enclosing, pending, phase'⟩ .openParen =
        .ok ⟨(.call qualifier name [], pending) :: enclosing, .none, .firstArgument⟩ := by
  cases qualifier with
  | none => exact ⟨.bareName name, by rw [nameTokens, run_cons (next_ident h name)]; rfl, rfl, rfl⟩
  | some q =>
    exact ⟨.qualifiedName q name, by rw [nameTokens, run_cons (next_ident h q)]; rfl, rfl, rfl⟩

/-! ### Where an operand may end -/

theorem next_dot {e : Expr K} (h : phase.value? = some e) :
    next ⟨enclosing, pending, phase⟩ .dot = .ok ⟨enclosing, pending, .memberName e⟩ := by
  cases phase <;> cases h <;> rfl

theorem next_op {e : Expr K} (h : phase.value? = some e) (o : BinaryOp) :
    next ⟨enclosing, pending, phase⟩ (.op o) =
      .ok ⟨enclosing, pending.push e o, .operand (.binary o)⟩ := by
  cases phase <;> cases h <;> rfl

theorem next_closeGroup {e : Expr K} (h : phase.value? = some e) (p : Pending K) :
    next ⟨(.group, p) :: enclosing, pending, phase⟩ .closeParen =
      .ok ⟨enclosing, p, .finished (pending.close e)⟩ := by
  cases phase <;> cases h <;> rfl

theorem next_closeCall {e : Expr K} (h : phase.value? = some e) (p : Pending K)
    (qualifier : Option String) (name : String) (es : List (Expr K)) :
    next ⟨(.call qualifier name es, p) :: enclosing, pending, phase⟩ .closeParen =
      .ok ⟨enclosing, p, .finished (.call qualifier name (pending.close e :: es).reverse)⟩ := by
  cases phase <;> cases h <;> rfl

theorem next_comma {e : Expr K} (h : phase.value? = some e) (p : Pending K)
    (qualifier : Option String) (name : String) (es : List (Expr K)) :
    next ⟨(.call qualifier name es, p) :: enclosing, pending, phase⟩ .comma =
      .ok ⟨(.call qualifier name (pending.close e :: es), p) :: enclosing, .none,
        .operand .start⟩ := by
  cases phase <;> cases h <;> rfl

omit [Number K] in
theorem result_of_value {e : Expr K} (h : phase.value? = some e) (pending : Pending K) :
    result ⟨[], pending, phase⟩ = .ok (pending.close e) := by
  cases phase <;> cases h <;> rfl

/-! ## Phrases -/

/-- What reading the tokens of a phrase does. A factor leaves the pending operators alone, and the
looser a phrase binds, the more of them it adds: signs first, then a product, then a sum. Arguments
that are followed by a comma go to the call they stand in. -/
def Readable (ts : List (Token K)) : Phrase K → Prop
  | .factor e => ∀ enclosing pending phase, Phase.Ready phase →
    ∃ phase', run ⟨enclosing, pending, phase⟩ ts = .ok ⟨enclosing, pending, phase'⟩ ∧
      phase'.value? = some e
  | .unary e => ∀ enclosing sum product signs phase, Phase.Ready phase →
    ∃ signs' phase' operand, run ⟨enclosing, ⟨sum, product, signs⟩, phase⟩ ts =
        .ok ⟨enclosing, ⟨sum, product, signs' ++ signs⟩, phase'⟩ ∧
      phase'.value? = some operand ∧ signs'.foldl (fun e s => .unary s e) operand = e
  | .term e => ∀ enclosing sum phase, Phase.Ready phase →
    ∃ product signs phase' operand, run ⟨enclosing, ⟨sum, none, []⟩, phase⟩ ts =
        .ok ⟨enclosing, ⟨sum, product, signs⟩, phase'⟩ ∧
      phase'.value? = some operand ∧ (Pending.mk sum product signs).closeProduct operand = e
  | .expr e => ∀ enclosing phase, Phase.Ready phase →
    ∃ pending phase' operand, run ⟨enclosing, .none, phase⟩ ts = .ok ⟨enclosing, pending, phase'⟩ ∧
      phase'.value? = some operand ∧ pending.close operand = e
  | .arguments es => ∀ enclosing qualifier name before p phase, Phase.Ready phase →
    ∃ finished pending phase' operand,
      run ⟨(.call qualifier name before, p) :: enclosing, .none, phase⟩ ts =
        .ok ⟨(.call qualifier name finished, p) :: enclosing, pending, phase'⟩ ∧
      phase'.value? = some operand ∧
      (pending.close operand :: finished).reverse = before.reverse ++ es

variable {ts us : List (Token K)} {e l r : Expr K} {o : BinaryOp}

theorem readable_call {es : List (Expr K)} (qualifier : Option String) (name : String)
    (h : Readable ts (.arguments es)) :
    Readable (nameTokens qualifier name ++ .openParen :: ts ++ [.closeParen])
      (.factor (.call qualifier name es)) := by
  intro enclosing pending phase hReady
  obtain ⟨phase₁, hName, -, hOpen⟩ := run_nameTokens enclosing pending hReady qualifier name
  obtain ⟨finished, inner, phase₂, operand, hRun, hValue, hEs⟩ :=
    h enclosing qualifier name [] pending .firstArgument .firstArgument
  refine ⟨.finished (.call qualifier name es), ?_, rfl⟩
  rw [List.append_assoc, run_append hName, List.cons_append, run_cons hOpen, run_append hRun,
    run_cons (next_closeCall hValue _ _ _ _), hEs]
  rfl

theorem readable_group (h : Readable ts (.expr e)) :
    Readable (.openParen :: ts ++ [.closeParen]) (.factor e) := by
  intro enclosing pending phase hReady
  obtain ⟨inner, phase', operand, hRun, hValue, hClose⟩ :=
    h ((.group, pending) :: enclosing) (.operand .start) (.operand .start)
  refine ⟨.finished e, ?_, rfl⟩
  rw [List.cons_append, run_cons (next_openParen hReady), run_append hRun,
    run_cons (next_closeGroup hValue _), hClose]
  rfl

theorem readable_member (name : String) (h : Readable ts (.factor e)) :
    Readable (ts ++ [.dot, .ident name]) (.factor (.member e name)) := by
  intro enclosing pending phase hReady
  obtain ⟨phase', hRun, hValue⟩ := h enclosing pending phase hReady
  refine ⟨.finished (.member e name), ?_, rfl⟩
  rw [run_append hRun, run_cons (next_dot hValue)]
  rfl

theorem readable_sign {s : UnaryOp} (ho : o.sign? = some s) (h : Readable ts (.unary e)) :
    Readable (.op o :: ts) (.unary (.unary s e)) := by
  intro enclosing sum product signs phase hReady
  obtain ⟨signs', phase', operand, hRun, hValue, hSigns⟩ :=
    h enclosing sum product (s :: signs) (.operand (.sign s)) (.operand _)
  refine ⟨signs' ++ [s], phase', operand, ?_, hValue, ?_⟩
  · rw [run_cons (next_sign hReady ho), List.append_assoc]
    exact hRun
  · rw [List.foldl_append, hSigns]
    rfl

theorem readable_product (ho : o ∈ productOps) (hl : Readable ts (.term l))
    (hr : Readable us (.unary r)) : Readable (ts ++ .op o :: us) (.term (.binary o l r)) := by
  intro enclosing sum phase hReady
  obtain ⟨product, signs, phase₁, left, hLeft, hValue, hClose⟩ := hl enclosing sum phase hReady
  obtain ⟨signs', phase₂, right, hRight, hValue', hSigns⟩ :=
    hr enclosing sum (some (l, o)) [] (.operand (.binary o)) (.operand _)
  have hPush : (Pending.mk sum product signs).push left o = ⟨sum, some (l, o), []⟩ := by
    rw [Pending.push, sign?_of_mem_productOps ho, hClose]
  refine ⟨some (l, o), signs' ++ [], phase₂, right, ?_, hValue', ?_⟩
  · rw [run_append hLeft, run_cons (next_op hValue o), hPush]
    exact hRight
  · rw [List.append_nil, Pending.closeProduct, hSigns]
    rfl

theorem readable_sum (ho : o ∈ sumOps) (hl : Readable ts (.expr l)) (hr : Readable us (.term r)) :
    Readable (ts ++ .op o :: us) (.expr (.binary o l r)) := by
  intro enclosing phase hReady
  obtain ⟨s, hSign⟩ := sign?_of_mem_sumOps ho
  obtain ⟨pending, phase₁, left, hLeft, hValue, hClose⟩ := hl enclosing phase hReady
  obtain ⟨product, signs, phase₂, right, hRight, hValue', hProduct⟩ :=
    hr enclosing (some (l, o)) (.operand (.binary o)) (.operand _)
  have hPush : pending.push left o = ⟨some (l, o), none, []⟩ := by
    rw [Pending.push, hSign, hClose]
  refine ⟨⟨some (l, o), product, signs⟩, phase₂, right, ?_, hValue', ?_⟩
  · rw [run_append hLeft, run_cons (next_op hValue o), hPush]
    exact hRight
  · rw [Pending.close, hProduct]
    rfl

theorem readable_arguments {es : List (Expr K)} (hs : Readable ts (.arguments es))
    (he : Readable us (.expr e)) : Readable (ts ++ .comma :: us) (.arguments (es ++ [e])) := by
  intro enclosing qualifier name before p phase hReady
  obtain ⟨finished, pending, phase₁, last, hRun, hValue, hEs⟩ :=
    hs enclosing qualifier name before p phase hReady
  obtain ⟨pending', phase₂, operand, hRun', hValue', hClose⟩ :=
    he ((.call qualifier name (pending.close last :: finished), p) :: enclosing) (.operand .start)
      (.operand _)
  refine ⟨pending.close last :: finished, pending', phase₂, operand, ?_, hValue', ?_⟩
  · rw [run_append hRun, run_cons (next_comma hValue _ _ _ _)]
    exact hRun'
  · rw [List.reverse_cons, hEs, hClose, List.append_assoc]

end Unfinished

open Unfinished

variable [Number K]

theorem Derives.readable {ts : List (Token K)} {phrase : Phrase K} (h : Derives ts phrase) :
    Readable ts phrase := by
  induction h with
  | number x =>
    intro enclosing pending phase hReady
    exact ⟨.finished (.number x), by rw [run_cons (next_number hReady x)]; rfl, rfl⟩
  | property qualifier name =>
    intro enclosing pending phase hReady
    obtain ⟨phase', hRun, hValue, -⟩ := run_nameTokens enclosing pending hReady qualifier name
    exact ⟨phase', hRun, hValue⟩
  | emptyCall qualifier name =>
    intro enclosing pending phase hReady
    obtain ⟨phase', hRun, -, hOpen⟩ := run_nameTokens enclosing pending hReady qualifier name
    refine ⟨.finished (.call qualifier name []), ?_, rfl⟩
    rw [run_append hRun, run_cons hOpen]
    rfl
  | call qualifier name _ ih => exact readable_call qualifier name ih
  | group _ ih => exact readable_group ih
  | member name _ ih => exact readable_member name ih
  | factor _ ih =>
    intro enclosing sum product signs phase hReady
    obtain ⟨phase', hRun, hValue⟩ := ih enclosing ⟨sum, product, signs⟩ phase hReady
    exact ⟨[], phase', _, hRun, hValue, rfl⟩
  | plus _ ih => exact readable_sign rfl ih
  | neg _ ih => exact readable_sign rfl ih
  | unary _ ih =>
    intro enclosing sum phase hReady
    obtain ⟨signs, phase', operand, hRun, hValue, hSigns⟩ := ih enclosing sum none [] phase hReady
    exact ⟨none, signs ++ [], phase', operand, hRun, hValue, by rw [List.append_nil]; exact hSigns⟩
  | product ho _ _ ihl ihr => exact readable_product ho ihl ihr
  | term _ ih =>
    intro enclosing phase hReady
    obtain ⟨product, signs, phase', operand, hRun, hValue, hClose⟩ := ih enclosing none phase hReady
    exact ⟨⟨none, product, signs⟩, phase', operand, hRun, hValue, hClose⟩
  | sum ho _ _ ihl ihr => exact readable_sum ho ihl ihr
  | argument _ ih =>
    intro enclosing qualifier name before p phase hReady
    obtain ⟨pending, phase', operand, hRun, hValue, hClose⟩ :=
      ih ((.call qualifier name before, p) :: enclosing) phase hReady
    exact ⟨before, pending, phase', operand, hRun, hValue, by rw [List.reverse_cons, hClose]⟩
  | arguments _ _ ihs ih => exact readable_arguments ihs ih

/-- What some tokens spell out is read from them. -/
theorem Derives.parseTokens_eq {ts : List (Token K)} {e : Expr K} (h : Derives ts (.expr e)) :
    parseTokens ts = .ok e := by
  obtain ⟨pending, phase, operand, hRun, hValue, hClose⟩ :=
    h.readable [] (.operand .start) (.operand _)
  have hResult := result_of_value hValue pending
  rw [hClose] at hResult
  rw [parseTokens, List.isEmpty_eq_false_iff.mpr h.tokens_ne_nil]
  rw [run] at hRun
  show (ts.foldlM next ⟨[], .none, .operand .start⟩ >>= result) = _
  rw [hRun]
  exact hResult

theorem parseTokens_eq_ok_iff (ts : List (Token K)) (e : Expr K) :
    parseTokens ts = .ok e ↔ Derives ts (.expr e) :=
  ⟨derives_of_parseTokens, Derives.parseTokens_eq⟩

/-- Some tokens spell out at most one formula. -/
theorem Derives.unique {ts : List (Token K)} {e e' : Expr K} (h : Derives ts (.expr e))
    (h' : Derives ts (.expr e')) : e = e' := by
  have hOk : (Except.ok e : Except FormulaError (Expr K)) = .ok e' :=
    h.parseTokens_eq.symm.trans h'.parseTokens_eq
  exact Except.ok.inj hOk

/-- A text with these tokens is read as the formula that they spell out. There is at most one; where
there is none, reading fails. -/
theorem parse_eq_ok_iff_derives {table : Shorthands} {text : String} {tokens : List (Token K)}
    (h : tokenize table text = .ok tokens) :
    (∀ e, parse table text = .ok e ↔ Derives tokens (.expr e)) ∧
    (∀ e e', Derives tokens (.expr e) → Derives tokens (.expr e') → e = e') ∧
    ((∀ e, ¬ Derives tokens (.expr e)) → ∃ fault, parse (K := K) table text = .error fault) := by
  have hParse : parse table text = parseTokens tokens := by
    rw [parse, h]
    rfl
  rw [hParse]
  refine ⟨parseTokens_eq_ok_iff tokens, fun _ _ => Derives.unique, fun hNone => ?_⟩
  cases hTokens : parseTokens tokens with
  | ok e => exact absurd (derives_of_parseTokens hTokens) (hNone e)
  | error fault => exact ⟨fault, rfl⟩

/-- The shorthand makes a group, a member of which is taken before the sign and the sign before the
product. -/
theorem parse_negated_member :
    tokenize (Table.ofList [("base", "atk + hp")]) "-base.crit * 2" =
      .ok [.op .sub, .openParen, .ident "atk", .op .add, .ident "hp", .closeParen, .dot,
        .ident "crit", .op .mul, .number (literal ['2'] : Float)] ∧
    parse (Table.ofList [("base", "atk + hp")]) "-base.crit * 2" =
      .ok (.binary .mul (.unary .neg (.member (.binary .add (.property none "atk")
        (.property none "hp")) "crit")) (.number (literal ['2'] : Float))) := by
  have hTokens : tokenize (Table.ofList [("base", "atk + hp")]) "-base.crit * 2" =
      .ok [.op .sub, .openParen, .ident "atk", .op .add, .ident "hp", .closeParen, .dot,
        .ident "crit", .op .mul, .number (literal ['2'] : Float)] := by
    with_unfolding_all rfl
  have hLeft : Derives [.ident "atk"] (.expr (.property none "atk") : Phrase Float) :=
    (Derives.property none "atk").factor.unary.term
  have hRight : Derives [.ident "hp"] (.term (.property none "hp") : Phrase Float) :=
    (Derives.property none "hp").factor.unary
  have hGroup := (hLeft.sum (.head _) hRight).group
  have hNeg := (hGroup.member "crit").factor.neg
  have hTwo := (Derives.number (literal ['2'] : Float)).factor
  have hProduct := hNeg.unary.product (.head _) hTwo
  exact ⟨hTokens, ((parse_eq_ok_iff_derives hTokens).1 _).mpr hProduct.term⟩

end Loadout.Formula
