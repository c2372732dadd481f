import Loadout.Proofs.Formula.Blanks
import Loadout.Proofs.Formula.Completeness

/-!
# Formulas that are spoilt at one end

A formula that can be read can no longer be read when an operator or a parenthesis that lacks its other side is
put to it, or another number, and what is wrong is named. Reading takes the formula as before, whatever follows
it and whatever parenthesis it stands in, up to a place behind an operand where everything that it opened is
closed. Only then does the token come that spoils it.

* `parseTokens_append`, `parseTokens_openParen_cons`: reading a formula that more tokens follow, or that stands
  in a parenthesis;
* `parse_refusals`: what this says of texts, with their shorthands.
-/

namespace Loadout.Formula

variable {K : Type} [Number K] {ts : List (Token K)} {e : Expr K}

open Unfinished

/-! ## Tokens -/

/-- What follows a formula is read from behind its last operand, with no parenthesis open. -/
theorem parseTokens_append (h : Derives ts (.expr e)) (us : List (Token K)) :
    ∃ pending phase operand, Phase.value? phase = some operand ∧
      parseTokens (ts ++ us) = run ⟨[], pending, phase⟩ us >>= result := by
  obtain ⟨pending, phase, operand, hRun, hValue, -⟩ := h.readable [] (.operand .start) (.operand _)
  have hSome : (ts ++ us).isEmpty = false := by simp [h.tokens_ne_nil]
  refine ⟨pending, phase, operand, hValue, ?_⟩
  rw [parseTokens, hSome, ← run_append hRun]
  rfl

theorem parseTokens_append_op (h : Derives ts (.expr e)) (o : BinaryOp) :
    parseTokens (ts ++ [.op o]) = .error (.missingOperand o.symbol) := by
  obtain ⟨pending, phase, operand, hValue, hParse⟩ := parseTokens_append h [.op o]
  rw [hParse, run_cons (next_op hValue o)]
  rfl

theorem parseTokens_append_closeParen (h : Derives ts (.expr e)) :
    parseTokens (ts ++ [.closeParen]) = .error (.trailingToken ")") := by
  obtain ⟨pending, phase, operand, hValue, hParse⟩ := parseTokens_append h [.closeParen]
  rw [hParse]
  cases phase <;> cases hValue <;> rfl

theorem parseTokens_append_number (h : Derives ts (.expr e)) (x : K) :
    parseTokens (ts ++ [.number x]) = .error (.trailingToken (Number.text x)) := by
  obtain ⟨pending, phase, operand, hValue, hParse⟩ := parseTokens_append h [.number x]
  rw [hParse]
  cases phase <;> cases hValue <;> rfl

/-- A parenthesis that is open at the end is missed. -/
theorem parseTokens_openParen_cons (h : Derives ts (.expr e)) :
    parseTokens (.openParen :: ts) = .error (.unterminated .closeGroup) := by
  obtain ⟨pending, phase, operand, hRun, hValue, -⟩ :=
    h.readable [(.group, .none)] (.operand .start) (.operand _)
  change run ⟨[], .none, .operand .start⟩ (.openParen :: ts) >>= result = _
  rw [run_cons (next_openParen (.operand .start)), hRun]
  cases phase <;> cases hValue <;> rfl

/-! ## Texts -/

theorem parting_space : Parting ' ' := parting_of_isBlank (by decide)

theorem parting_closeParen : Parting ')' := ⟨by decide, by decide +kernel, by decide, by decide⟩

variable {table : Shorthands} {text : String}

theorem tokenize_nil (table : Shorthands) : tokenize table "" = .ok ([] : List (Token K)) := by
  rw [tokenize, maxDepth, tokensWithin, String.toList_empty, scan]
  rfl

/-- Operators are tokens of their own. -/
theorem tokenize_symbol (table : Shorthands) (o : BinaryOp) :
    tokenize table o.symbol = .ok [(.op o : Token K)] := by
  have hCut : ∃ c rest, o.symbol.toList = c :: rest ∧
      (cut 0 c rest : Except FormulaError (Option (Token K) × Nat)) = .ok (some (.op o), rest.length) := by
    cases o with
    | floorDiv => exact ⟨'/', ['/'], rfl, by with_unfolding_all rfl⟩
    | _ => exact ⟨_, [], rfl, by with_unfolding_all rfl⟩
  obtain ⟨c, rest, hSymbol, hCut⟩ := hCut
  exact tokenize_cut hSymbol hCut (by simp) (by simp [Token.name?]) (tokenize_nil table)

/-- A digit is a number with the digits and points behind it. -/
theorem tokenize_numeral (table : Shorthands) {c : Char} {rest : List Char} (hc : c.isDigit = true)
    (hRest : ∀ d ∈ rest, isLiteralChar d = true) :
    tokenize table (String.ofList (c :: rest)) = .ok [(.number (literal (c :: rest)) : Token K)] := by
  have hBlank : Text.isBlank c = false := by
    have hTable : ∀ n < 58, 48 ≤ n → Text.within Text.blank n = false := by decide
    have hRange : 48 ≤ c.toNat ∧ c.toNat ≤ 57 := Char.isDigit_iff_toNat.mp hc
    exact hTable _ (by omega) hRange.1
  have hAll : ∀ d ∈ c :: rest, isLiteralChar d = true :=
    List.forall_mem_cons.mpr ⟨by simp [isLiteralChar, hc], hRest⟩
  have hCut : (cut 0 c rest : Except FormulaError (Option (Token K) × Nat)) =
      .ok (some (.number (literal (c :: rest))), rest.length) := by
    unfold cut
    rw [if_neg (by simp [hBlank]), if_pos hc, List.takeWhile_eq_self_iff.mpr hRest]
    dsimp only
    rw [literal?_eq_some (by simpa using hc) hAll]
  exact tokenize_cut (String.toList_ofList ..) hCut (by simp) (by simp [Token.name?]) (tokenize_nil table)

/-- A formula in front of more text, from which it is divided. -/
theorem parse_append {c : Char} {rest : List Char} {more : String} {us : List (Token K)} {e : Expr K}
    (h : parse table text = .ok e) (hc : Parting c) (hMore : more.toList = c :: rest)
    (hTokens : tokenize table more = .ok us) :
    ∃ ts, Derives ts (.expr e) ∧ parse table (text ++ more) = parseTokens (ts ++ us) := by
  obtain ⟨ts, hText, hDerives⟩ := derives_of_parse h
  refine ⟨ts, hDerives, ?_⟩
  rw [parse, tokenize_append hc hMore hTokens, hText]
  rfl

/-- A blank divides what stands on both sides of it. -/
theorem tokenize_space {more : String} {us : List (Token K)} (h : tokenize table more = .ok us) :
    tokenize table (" " ++ more) = .ok us :=
  tokenize_cut (t := none) (n := 0) (String.toList_append ..) (by with_unfolding_all rfl) rfl (by simp) h

/-- A formula with an operator behind it lacks an operand, with a parenthesis before it lacks the other one, and
goes on where it has ended with a parenthesis or a number behind it. -/
theorem parse_refusals {table : Shorthands} {text : String} {e : Expr K} (h : parse table text = .ok e) :
    (∀ o : BinaryOp, parse (K := K) table (text ++ " " ++ o.symbol) = .error (.missingOperand o.symbol)) ∧
    parse (K := K) table ("(" ++ text) = .error (.unterminated .closeGroup) ∧
    parse (K := K) table (text ++ ")") = .error (.trailingToken ")") ∧
    ∀ (c : Char) (rest : List Char), c.isDigit = true → (∀ d ∈ rest, isLiteralChar d = true) →
      parse (K := K) table (text ++ " " ++ String.ofList (c :: rest)) =
        .error (.trailingToken (Number.text (literal (c :: rest) : K))) := by
  refine ⟨fun o => ?_, ?_, ?_, fun c rest hc hRest => ?_⟩
  · obtain ⟨ts, hDerives, hParse⟩ := parse_append h parting_space (String.toList_append ..)
      (tokenize_space (tokenize_symbol table o))
    rw [String.append_assoc, hParse, parseTokens_append_op hDerives]
  · obtain ⟨ts, hText, hDerives⟩ := derives_of_parse h
    have hTokens : tokenize table ("(" ++ text) = .ok (Token.openParen :: ts) :=
      tokenize_cut (t := some .openParen) (String.toList_append ..) (by with_unfolding_all rfl) rfl
        (by simp [Token.name?]) hText
    rw [parse, hTokens]
    exact parseTokens_openParen_cons hDerives
  · have hTokens : tokenize table ")" = .ok [(.closeParen : Token K)] :=
      tokenize_cut (t := some .closeParen) (n := 0) rfl (by with_unfolding_all rfl) rfl
        (by simp [Token.name?]) (tokenize_nil table)
    obtain ⟨ts, hDerives, hParse⟩ := parse_append h parting_closeParen rfl hTokens
    rw [hParse, parseTokens_append_closeParen hDerives]
  · obtain ⟨ts, hDerives, hParse⟩ := parse_append h parting_space (String.toList_append ..)
      (tokenize_space (tokenize_numeral table hc hRest))
    rw [String.append_assoc, hParse, parseTokens_append_number hDerives]

set_option maxRecDepth 20000 in
/-- A formula that ends inside a shorthand, as far as its text goes. -/
theorem parse_refusals_dps :
    parse damageShorthands "hp - -dps" =
      .ok (.binary .sub (.property none "hp") (.unary .neg (damageTree "dps"))) ∧
    parse (K := Float) damageShorthands "hp - -dps //" = .error (.missingOperand "//") ∧
    parse (K := Float) damageShorthands "(hp - -dps" = .error (.unterminated .closeGroup) ∧
    parse (K := Float) damageShorthands "hp - -dps)" = .error (.trailingToken ")") ∧
    parse (K := Float) damageShorthands "hp - -dps 2.5" = .error (.trailingToken "2.5") := by
  have h : parse damageShorthands "hp - -dps" =
      .ok (.binary .sub (.property none "hp") (.unary .neg (damageTree "dps"))) := by
    with_unfolding_all rfl
  obtain ⟨hOp, hOpen, hClose, hNumber⟩ := parse_refusals h
  have hText : Number.text (literal ['2', '.', '5'] : Float) = "2.5" := by decide +kernel
  have hDigits : ∀ d ∈ ['.', '5'], isLiteralChar d = true :=
    List.forall_mem_cons.mpr ⟨rfl, List.forall_mem_singleton.mpr rfl⟩
  have hTrailing := hNumber '2' ['.', '5'] rfl hDigits
  rw [hText] at hTrailing
  exact ⟨h, hOp .floorDiv, hOpen, hClose, hTrailing⟩

end Loadout.Formula
