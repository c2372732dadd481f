import Loadout.Number.Binary
import Loadout.Proofs.Formula.Shorthands
import Mathlib.Data.List.TakeWhile

/-!
# Texts unfold in finitely many steps

An expansion need not be shorter than the text that holds it, and a table may lead back to itself. What
bounds the work is that no expansion lies in itself: the shorthands that a text lies in are told apart from
those that it may still hold, and no more than `maxDepth` expansions lie in one another.

* `literal?_eq_some`: a literal is a number wherever its points are, so that a text is refused only for a
  character that begins no token (`Stray`);
* `Unfolds`: how a text is read with its expansions, token by token and without any measure. Every token
  comes with the expansions around it;
* `exists_unfolds_tokens`, `exists_unfolds`: every text is read to its end. The induction is on the tokens of
  one text, and around it on the number of expansions that may still be opened;
* `Unfolds.mem_around`, `Unfolds.error_cases`: which names are left over, and which chain of expansions was
  too long;
* `tokenize_unfolds`: what all this says of the tokens of a formula.
-/

namespace Loadout.Formula

variable {K : Type} [Number K]

/-! ## Literals -/

section

variable {whole fraction : List Char}

theorem not_isDigit_point : Char.isDigit '.' = false := by decide

theorem any_isDigit (hNe : whole ≠ []) (h : ∀ c ∈ whole, c.isDigit = true) :
    whole.any Char.isDigit = true := by
  obtain ⟨c, hc⟩ := List.exists_mem_of_ne_nil whole hNe
  exact List.any_eq_true.mpr ⟨c, hc, h c hc⟩

/-- What follows the digits behind the first point is not part of the number. -/
theorem literal_point (h : ∀ c ∈ whole, c.isDigit = true) (rest : List Char) :
    (literal (whole ++ '.' :: rest) : K) = literal (whole ++ '.' :: rest.takeWhile Char.isDigit) := by
  unfold literal
  simp only [List.takeWhile_append_of_pos h, List.dropWhile_append_of_pos h]
  simp [not_isDigit_point, List.takeWhile_idem]

/-- A point without digits behind it is not part of the number either. -/
theorem literal_append_point (h : ∀ c ∈ whole, c.isDigit = true) :
    (literal (whole ++ ['.']) : K) = literal whole := by
  have hTake := List.takeWhile_eq_self_iff.mpr h
  have hDrop := List.dropWhile_eq_nil_iff.mpr h
  unfold literal
  simp only [List.takeWhile_append_of_pos h, List.dropWhile_append_of_pos h, hTake, hDrop]
  simp [not_isDigit_point]

theorem decimal?_digits (hNe : whole ≠ []) (h : ∀ c ∈ whole, c.isDigit = true) :
    (decimal? whole : Option K) = some (literal whole) := by
  simp [decimal?, List.dropWhile_eq_nil_iff.mpr h, any_isDigit hNe h]

theorem decimal?_point (hNe : whole ≠ []) (h : ∀ c ∈ whole, c.isDigit = true) (rest : List Char) :
    (decimal? (whole ++ '.' :: rest) : Option K) =
      if rest.all Char.isDigit then some (literal (whole ++ '.' :: rest)) else none := by
  simp [decimal?, List.dropWhile_append_of_pos h, any_isDigit hNe h, not_isDigit_point]

theorem ne_point_of_isDigit {c : Char} (h : c.isDigit = true) : (c != '.') = true := by
  have hne : c ≠ '.' := fun hEq => absurd h (by rw [hEq]; decide)
  simpa using hne

/-- Points at the end are dropped down to the last digit. -/
theorem trimPoints {text : List Char} (hNe : text ≠ []) (hLast : (text.getLast hNe).isDigit = true) (n : Nat) :
    ((text ++ List.replicate n '.').reverse.dropWhile (· == '.')).reverse = text := by
  have hPoints : ∀ c ∈ List.replicate n '.', (c == '.') = true := by simp
  have hStop : (text.getLast hNe == '.') = false := by simpa using ne_point_of_isDigit hLast
  rw [List.reverse_append, List.reverse_replicate, List.dropWhile_append_of_pos hPoints,
    ← List.dropLast_append_getLast hNe]
  simp [hStop]

/-- A text of digits and points begins with some digits, which go up to its end or to a point. -/
theorem exists_digits {text : List Char} (h : ∀ c ∈ text, isLiteralChar c = true) :
    ∃ digits : List Char, (∀ c ∈ digits, c.isDigit = true) ∧
      (text = digits ∨ ∃ rest, text = digits ++ '.' :: rest) := by
  induction text with
  | nil => exact ⟨[], by simp, .inl rfl⟩
  | cons c rest ih =>
    by_cases hc : c.isDigit = true
    · obtain ⟨digits, hDigits, hRest⟩ := ih fun d hd => h d (List.mem_cons_of_mem _ hd)
      refine ⟨c :: digits, List.forall_mem_cons.mpr ⟨hc, hDigits⟩, ?_⟩
      rcases hRest with rfl | ⟨rest', rfl⟩
      · exact .inl rfl
      · exact .inr ⟨rest', rfl⟩
    · have hPoint : c = '.' := by simpa [isLiteralChar, hc] using h c List.mem_cons_self
      exact ⟨[], by simp, .inr ⟨rest, by rw [hPoint, List.nil_append]⟩⟩

theorem beforeSecondPoint_eq (hWhole : ∀ c ∈ whole, c.isDigit = true)
    (hFraction : ∀ c ∈ fraction, c.isDigit = true) (more : List Char) :
    beforeSecondPoint (whole ++ '.' :: (fraction ++ '.' :: more)) = whole ++ '.' :: fraction := by
  have hFirst : ∀ c ∈ whole, (c != '.') = true := fun c hc => ne_point_of_isDigit (hWhole c hc)
  have hSecond : ∀ c ∈ fraction, (c != '.') = true := fun c hc => ne_point_of_isDigit (hFraction c hc)
  simp [beforeSecondPoint, List.takeWhile_append_of_pos hFirst, List.dropWhile_append_of_pos hFirst,
    List.takeWhile_append_of_pos hSecond]

/-- However many points there are among its characters, a literal that begins with a digit is a number. -/
theorem literal?_eq_some {text : List Char} (hDigit : text.head?.any Char.isDigit = true)
    (h : ∀ c ∈ text, isLiteralChar c = true) : (literal? text : Option K) = some (literal text) := by
  obtain ⟨whole, hWhole, hText⟩ := exists_digits h
  have hNe : whole ≠ [] := by
    rintro rfl
    rcases hText with rfl | ⟨rest, rfl⟩ <;> simp [not_isDigit_point] at hDigit
  rcases hText with rfl | ⟨rest, rfl⟩
  · rw [literal?, decimal?_digits hNe hWhole]
  · obtain ⟨fraction, hFraction, hRest⟩ := exists_digits
      fun c hc => h c (List.mem_append_right _ (List.mem_cons_of_mem _ hc))
    rcases hRest with rfl | ⟨more, rfl⟩
    · rw [literal?, decimal?_point hNe hWhole, if_pos (List.all_eq_true.mpr hFraction)]
    · have hSeveral : (decimal? (whole ++ '.' :: (fraction ++ '.' :: more)) : Option K) = none := by
        rw [decimal?_point hNe hWhole, if_neg (by simp [not_isDigit_point])]
      have hValue : (literal (whole ++ '.' :: (fraction ++ '.' :: more)) : K) =
          literal (whole ++ '.' :: fraction) := by
        rw [literal_point hWhole, List.takeWhile_append_of_pos hFraction]
        simp [not_isDigit_point]
      rw [literal?, hSeveral, beforeSecondPoint_eq hWhole hFraction, hValue]
      by_cases hEnd : fraction = []
      · subst hEnd
        have hTrim := trimPoints hNe (hWhole _ (List.getLast_mem hNe)) 1
        rw [List.replicate_one] at hTrim
        rw [hTrim, decimal?_digits hNe hWhole, literal_append_point hWhole]
      · have hLast : ((whole ++ '.' :: fraction).getLast (by simp)).isDigit = true := by
          simpa [List.getLast_append, List.getLast_cons hEnd] using hFraction _ (List.getLast_mem hEnd)
        have hTrim := trimPoints (by simp) hLast 0
        rw [List.replicate_zero, List.append_nil] at hTrim
        rw [hTrim, decimal?_point hNe hWhole, if_pos (List.all_eq_true.mpr hFraction)]

end

/-! ## Faults of a text -/

/-- A character that begins no token. -/
inductive Stray : FormulaError → Prop
  | char (c : Char) (position : Nat) : Stray (.unexpectedChar c position)
  | colon (position : Nat) : Stray (.singleColon position)

/-- The only characters that a text is refused for are those that begin no token. A literal is always read. -/
theorem cut_error {position : Nat} {c : Char} {rest : List Char} {e : FormulaError}
    (h : (cut position c rest : Except FormulaError (Option (Token K) × Nat)) = .error e) : Stray e := by
  unfold cut at h
  split at h
  · cases h
  · split at h
    · rename_i hDigit
      dsimp only at h
      rw [literal?_eq_some (by simpa using hDigit)] at h
      · cases h
      · intro d hd
        rcases List.mem_cons.mp hd with rfl | hd
        · simp [isLiteralChar, hDigit]
        · exact List.mem_takeWhile_imp hd
    · split at h
      · cases h
      · split at h <;> try cases h
        · split at h <;> cases h
        · split at h <;> cases h
          exact .colon position
        · exact .char _ position

theorem stray_of_scan {position : Nat} {text : List Char} {e : FormulaError}
    (h : (scan position text : Scan K).fault = some e) : Stray e := by
  fun_induction scan (K := K) position text with
  | case1 => cases h
  | case2 position c rest e' hCut =>
    cases h
    exact cut_error hCut
  | case3 position c rest token more hCut tail ih => exact ih h

/-! ## Reading without a measure -/

/-- The shorthand that a token is, with its expansion, unless the token lies in that expansion. -/
def fresh? (table : Shorthands) (active : List String) : Token K → Option (String × String)
  | .ident name => if name ∈ active then none else (table.find? name).map (name, ·)
  | _ => none

omit [Number K] in
theorem fresh?_eq_some {table : Shorthands} {active : List String} {t : Token K} {name text : String}
    (h : fresh? table active t = some (name, text)) :
    t = .ident name ∧ name ∉ active ∧ table.find? name = some text := by
  cases t with
  | ident name' =>
    rw [fresh?] at h
    split at h
    · cases h
    · rename_i hFresh
      obtain ⟨text', hFind, hEq⟩ := Option.map_eq_some_iff.mp h
      cases hEq
      exact ⟨rfl, hFresh, hFind⟩
  | _ => cases h

/-- A token with the shorthands in whose expansions it lies, the innermost first. -/
structure Placed (K : Type) where
  around : List String
  token : Token K

/-- Some tokens in the expansions of `active`, behind which a text has a fault or ends, are read with the
expansions of their shorthands, up to the first fault. -/
inductive Unfolds (table : Shorthands) : (active : List String) → (ts : List (Token K)) →
    (fault : Option FormulaError) → Except FormulaError (List (Placed K)) → Prop
  | done (active : List String) : Unfolds table active [] none (.ok [])
  | fault (active : List String) (e : FormulaError) : Unfolds table active [] (some e) (.error e)
  | plain {active : List String} {t : Token K} {ts : List (Token K)} {fault : Option FormulaError}
      {r : Except FormulaError (List (Placed K))} :
    fresh? table active t = none → Unfolds table active ts fault r →
    Unfolds table active (t :: ts) fault (r.map (⟨active, t⟩ :: ·))
  | expansion {active : List String} {t : Token K} {ts : List (Token K)} {fault : Option FormulaError}
      {name text : String} {inner : List (Placed K)} {r : Except FormulaError (List (Placed K))} :
    fresh? table active t = some (name, text) → active.length < maxDepth →
    Unfolds table (name :: active) (scan 0 text.toList).tokens (scan 0 text.toList : Scan K).fault
      (.ok inner) →
    Unfolds table active ts fault r →
    Unfolds table active (t :: ts) fault
      (r.map (⟨active, .openParen⟩ :: inner ++ ⟨active, .closeParen⟩ :: ·))
  | failure {active : List String} {t : Token K} {ts : List (Token K)} {fault : Option FormulaError}
      {name text : String} {e : FormulaError} :
    fresh? table active t = some (name, text) → active.length < maxDepth →
    Unfolds table (name :: active) (scan 0 text.toList).tokens (scan 0 text.toList : Scan K).fault
      (.error e) →
    Unfolds table active (t :: ts) fault (.error e)
  | tooDeep {active : List String} {t : Token K} {ts : List (Token K)} {fault : Option FormulaError}
      {name text : String} :
    fresh? table active t = some (name, text) → maxDepth ≤ active.length →
    Unfolds table active (t :: ts) fault (.error (.shorthandDepth name))

variable {table : Shorthands} {active : List String} {ts : List (Token K)} {fault : Option FormulaError}
  {r r' : Except FormulaError (List (Placed K))}

/-- A text is read in one way only. -/
theorem Unfolds.unique (h : Unfolds table active ts fault r) (h' : Unfolds table active ts fault r') :
    r = r' := by
  induction h generalizing r' with
  | done => cases h'; rfl
  | fault => cases h'; rfl
  | plain hPlain _ ih =>
    cases h' with
    | plain _ hRest => rw [ih hRest]
    | expansion hFresh | failure hFresh | tooDeep hFresh => cases hPlain.symm.trans hFresh
  | expansion hFresh hRoom _ _ ihInner ih =>
    cases h' with
    | plain hPlain => cases hFresh.symm.trans hPlain
    | expansion hFresh' _ hInner hRest =>
      cases hFresh.symm.trans hFresh'
      cases ihInner hInner
      rw [ih hRest]
    | failure hFresh' _ hInner =>
      cases hFresh.symm.trans hFresh'
      cases ihInner hInner
    | tooDeep _ hFull => omega
  | failure hFresh hRoom _ ihInner =>
    cases h' with
    | plain hPlain => cases hFresh.symm.trans hPlain
    | expansion hFresh' _ hInner =>
      cases hFresh.symm.trans hFresh'
      cases ihInner hInner
    | failure hFresh' _ hInner =>
      cases hFresh.symm.trans hFresh'
      exact ihInner hInner
    | tooDeep _ hFull => omega
  | tooDeep hFresh hFull =>
    cases h' with
    | plain hPlain => cases hFresh.symm.trans hPlain
    | expansion _ hRoom => omega
    | failure _ hRoom => omega
    | tooDeep hFresh' =>
      cases hFresh.symm.trans hFresh'
      rfl

/-! ## Every text is read to its end -/

section

variable {expand : String → String → Except FormulaError (List (Token K))}

omit [Number K] in
theorem expandToken_eq (t : Token K) :
    expandToken table active expand t = match fresh? table active t with
      | none => .ok [t]
      | some (name, text) => (expand name text).map (.openParen :: · ++ [.closeParen]) := by
  cases t with
  | ident name =>
    unfold expandToken fresh?
    by_cases hActive : name ∈ active <;> cases hFind : table.find? name <;> simp [hActive, hFind]
    cases expand name _ <;> rfl
  | _ => rfl

omit [Number K] in
theorem expandScan_nil : expandScan table active expand (⟨[], fault⟩ : Scan K) =
    match fault with
    | some e => .error e
    | none => .ok [] := by
  cases fault <;> rfl

omit [Number K] in
theorem expandScan_cons (t : Token K) (ts : List (Token K)) :
    expandScan table active expand ⟨t :: ts, fault⟩ =
      (expandToken table active expand t).bind fun part =>
        (expandScan table active expand ⟨ts, fault⟩).map (part ++ ·) := by
  unfold expandScan
  rw [List.mapM_cons]
  cases expandToken table active expand t with
  | error e => rfl
  | ok part =>
    cases ts.mapM (expandToken table active expand) with
    | error e => rfl
    | ok parts => cases fault <;> rfl

/-- The tokens of one text are read to their end if the expansions that may be opened are. -/
theorem exists_unfolds_tokens
    (hDeep : maxDepth ≤ active.length → ∀ name text, expand name text = .error (.shorthandDepth name))
    (hExpand : active.length < maxDepth → ∀ name text, ∃ r, Unfolds table (name :: active)
      (scan 0 text.toList).tokens (scan 0 text.toList : Scan K).fault r ∧
      expand name text = r.map (List.map Placed.token))
    (ts : List (Token K)) (fault : Option FormulaError) :
    ∃ r, Unfolds table active ts fault r ∧
      expandScan table active expand ⟨ts, fault⟩ = r.map (List.map Placed.token) := by
  induction ts with
  | nil =>
    cases fault with
    | none => exact ⟨_, .done active, expandScan_nil⟩
    | some e => exact ⟨_, .fault active e, expandScan_nil⟩
  | cons t ts ih =>
    obtain ⟨r, hRest, hTokens⟩ := ih
    rw [expandScan_cons, expandToken_eq, hTokens]
    cases hFresh : fresh? table active t with
    | none =>
      refine ⟨_, .plain hFresh hRest, ?_⟩
      cases r <;> rfl
    | some shorthand =>
      obtain ⟨name, text⟩ := shorthand
      dsimp only
      rcases Nat.lt_or_ge active.length maxDepth with hRoom | hFull
      · obtain ⟨inner, hInner, hExpansion⟩ := hExpand hRoom name text
        rw [hExpansion]
        cases inner with
        | error e => exact ⟨_, .failure hFresh hRoom hInner, rfl⟩
        | ok inner =>
          refine ⟨_, .expansion hFresh hRoom hInner hRest, ?_⟩
          cases r <;> simp [Except.map, Except.bind]
      · rw [hDeep hFull]
        exact ⟨_, .tooDeep hFresh hFull, rfl⟩

end

/-- Every text is read to its end, from any expansions. -/
theorem exists_unfolds (table : Shorthands) {room : Nat} (hRoom : active.length + room = maxDepth) (text : String) :
    ∃ r : Except FormulaError (List (Placed K)),
      Unfolds table active (scan 0 text.toList).tokens (scan 0 text.toList : Scan K).fault r ∧
      tokensWithin table room active text = r.map (List.map Placed.token) := by
  induction room generalizing active text with
  | zero =>
    rw [tokensWithin]
    exact exists_unfolds_tokens (fun _ _ _ => rfl) (fun hLess => absurd hLess (by omega)) _ _
  | succ room ih =>
    rw [tokensWithin]
    refine exists_unfolds_tokens (fun hFull => absurd hFull (by omega)) (fun _ name expansion => ?_) _ _
    exact ih (by rw [List.length_cons]; omega) expansion

/-! ## Names that are left, and chains that are too long -/

omit [Number K] in
/-- A name that is no shorthand to be replaced is none of the table, or lies in its own expansion. -/
theorem mem_active_of_fresh? {name : String} (h : fresh? table active (.ident name : Token K) = none)
    (hName : name ∈ table.keys) : name ∈ active := by
  by_contra hFresh
  rw [fresh?, if_neg hFresh, Option.map_eq_none_iff] at h
  exact Table.mem_keys_iff.mp hName h

/-- A shorthand is left over as a name only within its own expansion. -/
theorem Unfolds.mem_around (h : Unfolds table active ts fault r) {placed : List (Placed K)}
    (hOk : r = .ok placed) {p : Placed K} (hp : p ∈ placed) {name : String} (hName : name ∈ table.keys)
    (hToken : p.token = .ident name) : name ∈ p.around := by
  induction h generalizing placed with
  | done =>
    cases hOk
    cases hp
  | fault | failure | tooDeep => cases hOk
  | @plain _ _ _ _ r hPlain _ ih =>
    cases r with
    | error e => cases hOk
    | ok rest =>
      cases hOk
      rcases List.mem_cons.mp hp with rfl | hp
      · dsimp only at hToken
        subst hToken
        exact mem_active_of_fresh? hPlain hName
      · exact ih rfl hp
  | @expansion _ _ _ _ _ _ inner r _ _ _ _ ihInner ih =>
    cases r with
    | error e => cases hOk
    | ok rest =>
      cases hOk
      -- the parentheses are no names, and the rest lies inside or behind the expansion
      rcases List.mem_append.mp hp with hp | hp
      · rcases List.mem_cons.mp hp with rfl | hp
        · cases hToken
        · exact ihInner rfl hp
      · rcases List.mem_cons.mp hp with rfl | hp
        · cases hToken
        · exact ih rfl hp

/-- A chain names no shorthand twice. -/
theorem Nested.nodup {chain : List String} {text : String} (h : Nested K table active text chain)
    (hNodup : active.Nodup) : chain.Nodup := by
  induction h with
  | here => exact hNodup
  | expand _ _ hFresh _ ih => exact ih (List.nodup_cons.mpr ⟨hFresh, hNodup⟩)

/-- A text is refused for a stray character in it or in one of its expansions, or for a chain of expansions
with one more than there may be. -/
theorem Unfolds.error_cases (h : Unfolds table active ts fault r) {e : FormulaError} (hError : r = .error e)
    {text : String} (hFault : ∀ e, fault = some e → Stray e)
    (hTokens : ∀ name, Token.ident name ∈ ts → name ∈ identifiers K text)
    (hActive : active.length ≤ maxDepth) :
    Stray e ∨ ∃ name chain, e = .shorthandDepth name ∧ chain.length = maxDepth ∧
      Nested K table active text (name :: chain) := by
  induction h generalizing e text with
  | done => cases hError
  | fault active e =>
    cases hError
    exact .inl (hFault e rfl)
  | @plain _ _ _ _ r _ _ ih =>
    cases r with
    | ok rest => cases hError
    | error e =>
      cases hError
      exact ih rfl hFault (fun name hMem => hTokens name (List.mem_cons_of_mem _ hMem)) hActive
  | @expansion _ _ _ _ _ _ _ r _ _ _ _ _ ih =>
    cases r with
    | ok rest => cases hError
    | error e =>
      cases hError
      exact ih rfl hFault (fun name hMem => hTokens name (List.mem_cons_of_mem _ hMem)) hActive
  | @failure _ _ _ _ name expansion _ hFresh hRoom _ ih =>
    cases hError
    obtain ⟨rfl, hOutside, hFind⟩ := fresh?_eq_some hFresh
    have hInner := ih rfl (fun e => stray_of_scan) (fun name => mem_identifiers.mpr) hRoom
    refine hInner.imp_right ?_
    rintro ⟨name', chain, hEq, hLength, hNested⟩
    exact ⟨name', chain, hEq, hLength, .expand (hTokens name List.mem_cons_self) hFind hOutside hNested⟩
  | @tooDeep active _ _ _ name expansion hFresh hFull =>
    cases hError
    obtain ⟨rfl, hOutside, hFind⟩ := fresh?_eq_some hFresh
    refine .inr ⟨name, active, rfl, Nat.le_antisymm hActive hFull, ?_⟩
    exact .expand (hTokens name List.mem_cons_self) hFind hOutside (.here _ expansion)

/-! ## The tokens of a formula -/

/-- Whatever a table leads to, a formula is read to its end in one way. If it has tokens, a name among them
that is a shorthand lies in the expansion of that shorthand. Otherwise it is refused for a character that
begins no token, or for a chain of seventeen shorthands, no two of them the same, each in the expansion of
the one that follows it. A table of sixteen shorthands has no such chain. A literal is never refused. -/
theorem tokenize_unfolds (table : Shorthands) (text : String) :
    ∃ r : Except FormulaError (List (Placed K)),
      (∀ r', Unfolds table [] (scan 0 text.toList).tokens (scan 0 text.toList : Scan K).fault r' ↔ r' = r) ∧
      tokenize table text = r.map (List.map Placed.token) ∧
      (∀ placed, r = .ok placed → ∀ p ∈ placed, ∀ name ∈ table.keys,
        p.token = .ident name → name ∈ p.around) ∧
      (∀ e, r = .error e → (∃ c position, e = .unexpectedChar c position) ∨
        (∃ position, e = .singleColon position) ∨
        ∃ name chain, e = .shorthandDepth name ∧ (name :: chain).length = 17 ∧ (name :: chain).Nodup ∧
          Nested K table [] text (name :: chain)) ∧
      (table.keys.length ≤ 16 → ∀ name, r ≠ .error (.shorthandDepth name)) := by
  have hRoom : ([] : List String).length + maxDepth = maxDepth := Nat.zero_add _
  obtain ⟨r, hUnfolds, hTokens⟩ := exists_unfolds (K := K) table hRoom text
  have hCases (e : FormulaError) (hError : r = .error e) := hUnfolds.error_cases hError
    (fun e => stray_of_scan) (fun name => mem_identifiers.mpr) (Nat.zero_le _)
  refine ⟨r, fun r' => ⟨fun h => h.unique hUnfolds, fun h => h ▸ hUnfolds⟩, hTokens,
    fun placed hOk p hp name hName => hUnfolds.mem_around hOk hp hName, ?_, ?_⟩
  · intro e hError
    rcases hCases e hError with hStray | ⟨name, chain, rfl, hLength, hNested⟩
    · cases hStray with
      | char c position => exact .inl ⟨c, position, rfl⟩
      | colon position => exact .inr (.inl ⟨position, rfl⟩)
    · refine .inr (.inr ⟨name, chain, rfl, ?_, hNested.nodup List.nodup_nil, hNested⟩)
      rw [List.length_cons, hLength, maxDepth]
  · intro hFew name hError
    rcases hCases _ hError with hStray | ⟨name', chain, -, hLength, hNested⟩
    · cases hStray
    · have hShort := hNested.length_le List.nodup_nil (List.nil_subset _)
      rw [List.length_cons, hLength, maxDepth] at hShort
      omega

/-- Seventeen shorthands, each for the next one, and the last for the first. -/
def ladder : Shorthands := Table.ofList [("a", "b"), ("b", "c"), ("c", "d"), ("d", "e"), ("e", "f"), ("f", "g"),
  ("g", "h"), ("h", "i"), ("i", "j"), ("j", "k"), ("k", "l"), ("l", "m"), ("m", "n"), ("n", "o"), ("o", "p"),
  ("p", "q"), ("q", "1..5 + a")]

/-- The last of them is one expansion too deep. -/
theorem tokenize_ladder :
    (tokenize ladder "a" : Except FormulaError (List (Token Float))) = .error (.shorthandDepth "q") ∧
      ∃ chain, ("q" :: chain).length = 17 ∧ ("q" :: chain).Nodup ∧
        Nested Float ladder [] "a" ("q" :: chain) := by
  have hError : (tokenize ladder "a" : Except FormulaError (List (Token Float))) =
      .error (.shorthandDepth "q") := by with_unfolding_all rfl
  refine ⟨hError, ?_⟩
  obtain ⟨r, -, hTokens, -, hCases, -⟩ := tokenize_unfolds (K := Float) ladder "a"
  rw [hError] at hTokens
  cases r with
  | ok placed => cases hTokens
  | error e =>
    cases hTokens
    rcases hCases _ rfl with ⟨c, position, hEq⟩ | ⟨position, hEq⟩ | ⟨name, chain, hEq, hChain⟩
    · cases hEq
    · cases hEq
    · cases hEq
      exact ⟨chain, hChain⟩

end Loadout.Formula
