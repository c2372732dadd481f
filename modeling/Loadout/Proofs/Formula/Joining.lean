import Loadout.Proofs.Formula.Unfolding

/-!
# Texts behind one another

A token takes in all characters that can belong to it, and it does not matter to it what stands before. So a
text may be divided in front of any character that belongs to no token begun before it: both parts have the
tokens that they have on their own. Only positions are counted from the start of the whole text, and nothing
but faults tells them.

* `Parting`: a character in front of which a text may be divided;
* `scan_append`: the cutting of both parts. The induction is on the first of them, token by token;
* `scan_add`: a text that stands further right has the same tokens, and its fault is moved;
* `tokenize_append`: the tokens of both parts, with their expansions;
* `tokenize_cut`: the tokens of a text from its first one on.
-/

namespace Loadout

/-- The same fault in a text that stands so much further right. -/
def FormulaError.moved (n : Nat) : FormulaError → FormulaError
  | unexpectedChar c position => unexpectedChar c (position + n)
  | singleColon position => singleColon (position + n)
  | e => e

namespace Formula

variable {K : Type} [Number K]

/-! ## Cutting -/

/-- A character that belongs to no token which has begun before it. -/
structure Parting (c : Char) : Prop where
  literal : isLiteralChar c = false
  name : isNameChar c = false
  slash : c ≠ '/'
  colon : c ≠ ':'

section

variable {c : Char} {first : Char} {rest more : List Char} {position : Nat}

theorem takeWhile_append_cons {p : Char → Bool} (h : p c = false) (rest more : List Char) :
    (rest ++ c :: more).takeWhile p = rest.takeWhile p := by
  induction rest with
  | nil => simp [h]
  | cons d rest ih => simp only [List.cons_append, List.takeWhile_cons, ih]

theorem head?_append_cons {d : Char} (h : c ≠ d) (rest more : List Char) :
    ((rest ++ c :: more).head? = some d) = (rest.head? = some d) := by
  cases rest <;> simp [h]

/-- A token ends in front of a parting character. -/
theorem cut_append (hc : Parting c) (position : Nat) (first : Char) (rest more : List Char) :
    (cut position first (rest ++ c :: more) : Except FormulaError (Option (Token K) × Nat)) =
      cut position first rest := by
  unfold cut
  simp only [takeWhile_append_cons hc.literal, takeWhile_append_cons hc.name,
    head?_append_cons hc.slash, head?_append_cons hc.colon]

/-- A token takes no more than there is. -/
theorem cut_le {token : Option (Token K)} {n : Nat} (h : cut position first rest = .ok (token, n)) :
    n ≤ rest.length := by
  have hHead {d : Char} (hd : rest.head? = some d) : 1 ≤ rest.length :=
    List.length_pos_iff.mpr fun hNil => by simp [hNil] at hd
  unfold cut at h
  split at h
  · cases h
    exact Nat.zero_le _
  · split at h
    · dsimp only at h
      split at h <;> cases h
      exact (List.takeWhile_sublist _).length_le
    · split at h
      · cases h
        exact (List.takeWhile_sublist _).length_le
      · split at h <;> try cases h
        all_goals try exact Nat.zero_le _
        · split at h <;> cases h
          · exact hHead ‹_›
          · exact Nat.zero_le _
        · split at h <;> cases h
          exact hHead ‹_›

/-- Where a token stands matters only to faults. -/
theorem cut_add (position n : Nat) (first : Char) (rest : List Char) :
    (cut (position + n) first rest : Except FormulaError (Option (Token K) × Nat)) =
      (cut position first rest).mapError (FormulaError.moved n) := by
  unfold cut
  split
  · rfl
  · split
    · dsimp only
      split <;> rfl
    · split
      · rfl
      · split <;> try rfl
        all_goals split <;> rfl

end

/-- The cuts of a text that is followed by another one. Behind a fault nothing is cut. -/
def Scan.append (s t : Scan K) : Scan K :=
  match s.fault with
  | some _ => s
  | none => ⟨s.tokens ++ t.tokens, t.fault⟩

omit [Number K] in
theorem Scan.append_cons (ts : List (Token K)) (s t : Scan K) :
    ({ s with tokens := ts ++ s.tokens } : Scan K).append t =
      { s.append t with tokens := ts ++ (s.append t).tokens } := by
  obtain ⟨tokens, fault⟩ := s
  cases fault with
  | some e => rfl
  | none => simp [append]

/-- A text may be divided in front of a parting character. -/
theorem scan_append {c : Char} (hc : Parting c) (position : Nat) (text more : List Char) :
    (scan position (text ++ c :: more) : Scan K) =
      (scan position text).append (scan (position + text.length) (c :: more)) := by
  fun_induction scan (K := K) position text with
  | case1 => rfl
  | case2 position first rest e hCut =>
    rw [List.cons_append, scan, cut_append hc, hCut]
    rfl
  | case3 position first rest token n hCut tail ih =>
    have hLength := cut_le hCut
    rw [List.cons_append, scan, cut_append hc, hCut]
    dsimp only
    rw [List.drop_append_of_le_length hLength, ih]
    have hPlace : position + 1 + n + (rest.drop n).length = position + (first :: rest).length := by
      rw [List.length_drop, List.length_cons]
      omega
    rw [hPlace]
    exact (Scan.append_cons token.toList tail _).symm

/-- The cuts of a text that stands so much further right. -/
def Scan.moved (n : Nat) (s : Scan K) : Scan K := { s with fault := s.fault.map (FormulaError.moved n) }

/-- Where a text stands does not matter to its tokens. -/
theorem scan_add (position n : Nat) (text : List Char) :
    (scan (position + n) text : Scan K) = (scan position text).moved n := by
  fun_induction scan (K := K) position text with
  | case1 =>
    rw [scan]
    rfl
  | case2 position first rest e hCut =>
    rw [scan, cut_add, hCut]
    rfl
  | case3 position first rest token more hCut tail ih =>
    have hPlace : position + n + 1 + more = position + 1 + more + n := by omega
    rw [scan, cut_add, hCut]
    dsimp only [Except.mapError]
    rw [hPlace, ih]
    rfl

/-! ## Expansions -/

section

variable {table : Shorthands} {active : List String}
  {expand : String → String → Except FormulaError (List (Token K))}

omit [Number K] in
theorem expandScan_append (s t : Scan K) :
    expandScan table active expand (s.append t) =
      (expandScan table active expand s).bind fun ts =>
        (expandScan table active expand t).map (ts ++ ·) := by
  obtain ⟨tokens, fault⟩ := s
  cases fault with
  | some e =>
    change expandScan table active expand ⟨tokens, some e⟩ = _
    rw [expandScan]
    cases tokens.mapM (expandToken table active expand) <;> rfl
  | none =>
    rw [expandScan, expandScan, Scan.append]
    dsimp only
    rw [List.mapM_append]
    cases tokens.mapM (expandToken table active expand) with
    | error e => rfl
    | ok parts =>
      rw [expandScan]
      cases t.tokens.mapM (expandToken table active expand) with
      | error e => rfl
      | ok parts' =>
        cases t.fault with
        | some e => rfl
        | none => exact congrArg Except.ok List.flatten_append

omit [Number K] in
/-- Further right a text fails where it did, if at all. Only its own fault is moved, not one in an expansion. -/
theorem expandScan_moved (n : Nat) (s : Scan K) :
    expandScan table active expand (s.moved n) = expandScan table active expand s ∨
      expandScan table active expand (s.moved n) =
        (expandScan table active expand s).mapError (FormulaError.moved n) := by
  obtain ⟨tokens, fault⟩ := s
  rw [Scan.moved, expandScan, expandScan]
  cases tokens.mapM (expandToken table active expand) with
  | error e => exact .inl rfl
  | ok parts =>
    right
    cases fault <;> rfl

omit [Number K] in
theorem expandScan_moved_of_ok (n : Nat) {s : Scan K} {us : List (Token K)}
    (h : expandScan table active expand s = .ok us) : expandScan table active expand (s.moved n) = .ok us := by
  rcases expandScan_moved n s with hSame | hMoved
  · rw [hSame, h]
  · rw [hMoved, h]
    rfl

end

/-- Two texts have the tokens of both, if the second one begins with a parting character and has tokens. A fault
of the first one is met first. -/
theorem tokenize_append {table : Shorthands} {c : Char} {a b : String} {more : List Char} {us : List (Token K)}
    (hc : Parting c) (hb : b.toList = c :: more) (h : tokenize table b = .ok us) :
    tokenize table (a ++ b) = (tokenize table a).map (· ++ us) := by
  rw [tokenize, maxDepth, tokensWithin] at h ⊢
  rw [hb] at h
  rw [String.toList_append, hb, scan_append hc, scan_add, expandScan_append, expandScan_moved_of_ok _ h,
    tokenize, maxDepth, tokensWithin]
  rfl

/-- The first token of a text, unless it is a name, stands in front of those of the rest. A blank is none. -/
theorem tokenize_cut {table : Shorthands} {c : Char} {rest : List Char} {n : Nat} {t : Option (Token K)}
    {a b : String} {us : List (Token K)} (hb : b.toList = c :: rest) (hCut : cut 0 c rest = .ok (t, n))
    (ha : a.toList = rest.drop n) (hName : ∀ s ∈ t, s.name? = none) (h : tokenize table a = .ok us) :
    tokenize table b = .ok (t.toList ++ us) := by
  have hScan : (scan 0 (c :: rest) : Scan K) =
      (⟨t.toList, none⟩ : Scan K).append ((scan 0 (rest.drop n)).moved (1 + n)) := by
    rw [← scan_add, ← Nat.add_assoc, scan, hCut]
    rfl
  have hFirst (expand : String → String → Except FormulaError (List (Token K))) :
      expandScan table [] expand ⟨t.toList, none⟩ = .ok t.toList := by
    rcases t with _ | s
    · rfl
    · have hNone := hName s rfl
      cases s with
      | ident name => cases hNone
      | _ => rfl
  rw [tokenize, maxDepth, tokensWithin] at h ⊢
  rw [hb, hScan, expandScan_append, hFirst, ← ha, expandScan_moved_of_ok _ h]
  rfl

end Formula

end Loadout
