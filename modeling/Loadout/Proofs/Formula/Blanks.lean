import Loadout.Number.Binary
import Loadout.Proofs.Formula.Expansion
import Loadout.Proofs.Formula.Joining

/-!
# Texts with a blank between them

No character of a name or of a number is white space in any script, and the two signs that are written with two
characters have none in them. So a blank ends the token before it, begins none, and leaves no trace: the
tokens on its left and on its right are those of the two texts, with all their expansions.

* `Apart`: classes of characters without a common member, told by their ranges;
* `parting_of_isBlank`: a text may be divided in front of any blank;
* `tokenize_join`: what becomes of two texts, whether they have tokens or not;
* `tokenize_blank`: the tokens of both, and the faults of either.
-/

namespace Loadout

/-! ## Blanks among the characters -/

namespace Text

theorem exists_of_within {ranges : List (Nat × Nat)} {n : Nat} (h : within ranges n = true) :
    ∃ r ∈ ranges, r.1 ≤ n ∧ n ≤ r.2 := by
  induction ranges with
  | nil => cases h
  | cons r rest ih =>
    rw [within] at h
    split at h
    · cases h
    · rename_i hFirst
      rcases Bool.or_eq_true_iff.mp h with hLast | hRest
      · exact ⟨r, List.mem_cons_self, not_lt.mp hFirst, of_decide_eq_true hLast⟩
      · obtain ⟨s, hs, hRange⟩ := ih hRest
        exact ⟨s, List.mem_cons_of_mem _ hs, hRange⟩

/-- No range of one class meets a range of the other. -/
def Apart (ranges others : List (Nat × Nat)) : Prop :=
  ∀ r ∈ ranges, ∀ s ∈ others, r.2 < s.1 ∨ s.2 < r.1

instance (ranges others : List (Nat × Nat)) : Decidable (Apart ranges others) :=
  inferInstanceAs (Decidable (∀ r ∈ ranges, ∀ s ∈ others, r.2 < s.1 ∨ s.2 < r.1))

theorem Apart.within_eq_false {ranges others : List (Nat × Nat)} {n : Nat} (h : Apart ranges others)
    (hn : within ranges n = true) : within others n = false := by
  rw [Bool.eq_false_iff]
  intro hOther
  obtain ⟨r, hr, hLow, hHigh⟩ := exists_of_within hn
  obtain ⟨s, hs, hLow', hHigh'⟩ := exists_of_within hOther
  have hApart := h r hr s hs
  omega

/-- No letter is white space. -/
theorem apart_blank_alphabetic : Apart blank alphabetic := by decide +kernel

/-- No numeral is white space. -/
theorem apart_blank_numeric : Apart blank numeric := by decide +kernel

end Text

namespace Formula

variable {c : Char}

theorem ne_of_isBlank (h : Text.isBlank c = true) {d : Char} (hd : Text.isBlank d = false) : c ≠ d := by
  rintro rfl
  rw [h] at hd
  cases hd

/-- White space of any kind belongs to no token. -/
theorem parting_of_isBlank (h : Text.isBlank c = true) : Parting c := by
  have hLetter : Text.isLetter c = false := Text.apart_blank_alphabetic.within_eq_false h
  have hNumeral : Text.isNumeral c = false := Text.apart_blank_numeric.within_eq_false h
  have hDigit : c.isDigit = false :=
    Bool.eq_false_iff.mpr fun hDigit => by simp [Text.isNumeral_of_isDigit hDigit] at hNumeral
  have hOther {d : Char} (hd : Text.isBlank d = false) : (c == d) = false :=
    beq_eq_false_iff_ne.mpr (ne_of_isBlank h hd)
  refine ⟨?_, ?_, ne_of_isBlank h (by decide), ne_of_isBlank h (by decide)⟩
  · rw [isLiteralChar, hDigit, hOther (by decide)]
    rfl
  · rw [isNameChar, hLetter, hNumeral, hOther (by decide), hOther (by decide), hOther (by decide)]
    rfl

/-! ## Two texts -/

variable {K : Type} [Number K]

/-- A blank is cut off and has no token. -/
theorem scan_blank (h : Text.isBlank c = true) (position : Nat) (text : List Char) :
    (scan position (c :: text) : Scan K) = scan (position + 1) text := by
  have hCut : (cut position c text : Except FormulaError (Option (Token K) × Nat)) = .ok (none, 0) := by
    unfold cut
    rw [if_pos h]
  rw [scan, hCut]
  rfl

/-- Two texts with a blank between them are read one after the other. A fault of the first one is met first, and
a fault of the second one may be told to stand so much further right. -/
theorem tokenize_join (table : Shorthands) (h : Text.isBlank c = true) (a b : String) :
    ∃ r : Except FormulaError (List (Token K)),
      (r = tokenize table b ∨ r = (tokenize table b).mapError (FormulaError.moved (a.length + 1))) ∧
      tokenize table (a ++ String.singleton c ++ b) = (tokenize table a).bind fun ts => r.map (ts ++ ·) := by
  have hScan : (scan 0 (a ++ String.singleton c ++ b).toList : Scan K) =
      (scan 0 a.toList).append ((scan 0 b.toList).moved (a.length + 1)) := by
    rw [String.toList_append, String.toList_append, String.toList_singleton, List.append_assoc,
      List.singleton_append, scan_append (parting_of_isBlank h), scan_blank h, ← scan_add, String.length_toList,
      Nat.zero_add, Nat.zero_add]
  rw [tokenize, tokenize, tokenize, maxDepth, tokensWithin, tokensWithin, tokensWithin, hScan, expandScan_append]
  exact ⟨_, expandScan_moved _ _, rfl⟩

/-- Whatever the shorthands, a blank between two texts that have tokens divides the tokens of the one from those
of the other. If the first text is refused, so are both, for the same fault; if only the second one is, so are
both, for its fault, of which only the place may be another one. -/
theorem tokenize_blank (table : Shorthands) (h : Text.isBlank c = true) (a b : String) :
    (∀ ts us : List (Token K), tokenize table a = .ok ts → tokenize table b = .ok us →
      tokenize table (a ++ String.singleton c ++ b) = .ok (ts ++ us)) ∧
    (∀ e, tokenize (K := K) table a = .error e →
      tokenize (K := K) table (a ++ String.singleton c ++ b) = .error e) ∧
    ∀ (ts : List (Token K)) (e : FormulaError), tokenize table a = .ok ts → tokenize (K := K) table b = .error e →
      tokenize (K := K) table (a ++ String.singleton c ++ b) = .error e ∨
        tokenize (K := K) table (a ++ String.singleton c ++ b) = .error (e.moved (a.length + 1)) := by
  obtain ⟨r, hSecond, hJoin⟩ := tokenize_join (K := K) table h a b
  rw [hJoin]
  refine ⟨?both, ?first, ?second⟩
  case both =>
    intro ts us ha hb
    have hRest : r = .ok us := by
      rw [hb] at hSecond
      rcases hSecond with rfl | rfl <;> rfl
    rw [ha, hRest]
    rfl
  case first =>
    intro e ha
    rw [ha]
    rfl
  case second =>
    intro ts e ha hb
    rw [hb] at hSecond
    rw [ha]
    rcases hSecond with rfl | rfl
    · exact .inl rfl
    · exact .inr rfl

set_option maxRecDepth 20000 in
/-- A slash on both sides of an ideographic space, and a colon on either side. -/
theorem tokenize_blank_slashes :
    Text.isBlank '\u3000' = true ∧
    tokenize damageShorthands "hp/" = .ok [.ident "hp", (.op .div : Token Float)] ∧
    tokenize damageShorthands "/base" =
      .ok [(.op .div : Token Float), .openParen, .ident "atk", .op .add, .ident "base", .closeParen] ∧
    tokenize damageShorthands "hp/\u3000/base" =
      .ok [.ident "hp", (.op .div : Token Float), .op .div, .openParen, .ident "atk", .op .add, .ident "base",
        .closeParen] ∧
    tokenize (K := Float) damageShorthands "hp:" = .error (.singleColon 2) ∧
    tokenize (K := Float) damageShorthands "hp:\u3000/base" = .error (.singleColon 2) ∧
    tokenize (K := Float) damageShorthands ":base" = .error (.singleColon 0) ∧
    (tokenize (K := Float) damageShorthands "hp/\u3000:base" = .error (.singleColon 0) ∨
      tokenize (K := Float) damageShorthands "hp/\u3000:base" = .error (.singleColon 4)) := by
  have h : Text.isBlank '\u3000' = true := by decide
  have hLeft : tokenize damageShorthands "hp/" = .ok [.ident "hp", (.op .div : Token Float)] := by
    with_unfolding_all rfl
  have hRight : tokenize damageShorthands "/base" =
      .ok [(.op .div : Token Float), .openParen, .ident "atk", .op .add, .ident "base", .closeParen] := by
    with_unfolding_all rfl
  have hColon : tokenize (K := Float) damageShorthands "hp:" = .error (.singleColon 2) := by
    with_unfolding_all rfl
  have hColon' : tokenize (K := Float) damageShorthands ":base" = .error (.singleColon 0) := by
    with_unfolding_all rfl
  obtain ⟨hBoth, -, -⟩ := tokenize_blank (K := Float) damageShorthands h "hp/" "/base"
  obtain ⟨-, hFirst, -⟩ := tokenize_blank (K := Float) damageShorthands h "hp:" "/base"
  obtain ⟨-, -, hSecond⟩ := tokenize_blank (K := Float) damageShorthands h "hp/" ":base"
  exact ⟨h, hLeft, hRight, hBoth _ _ hLeft hRight, hColon, hFirst _ hColon, hColon', hSecond _ _ hLeft hColon'⟩

end Formula

end Loadout
