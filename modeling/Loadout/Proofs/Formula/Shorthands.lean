import Loadout.Formula.Token
import Mathlib.Data.List.Perm.Subperm

/-!
# How far shorthands reach

The tokens of a text under a table of shorthands are made text by text: an identifier that is a shorthand
stands for the tokens of its expansion, which may hold further shorthands, but never one that it lies in.

* `Nested`: which shorthands may lie in one another in a text. Such a chain names no shorthand twice, so a
  table bounds its length (`Nested.length_le`);
* `tokensWithin_without`: to lie in an expansion is to be read with a table that lacks the shorthand;
* `tokensWithin_succ`: more room makes no difference where no chain is longer than the room there is. The
  induction is on the room, and the chains from an expansion are chains from the text that holds it;
* `tokenize_empty`: without shorthands a text has the tokens that it was cut into.
-/

namespace Loadout.Formula

/-- A table without one of its shorthands. -/
def Shorthands.without (table : Shorthands) (name : String) : Shorthands := table.filter (· != name)

theorem Shorthands.find?_without_self (table : Shorthands) (name : String) :
    (table.without name).find? name = none := by
  simp [without, Table.find?_filter]

theorem Shorthands.find?_without_of_ne (table : Shorthands) {name name' : String} (h : name' ≠ name) :
    (table.without name).find? name' = table.find? name' := by
  simp [without, Table.find?_filter, h]

variable {K : Type}

/-- The name of an identifier. -/
def Token.name? : Token K → Option String
  | .ident name => some name
  | _ => none

variable [Number K]

variable (K) in
/-- The identifiers of a text. -/
def identifiers (text : String) : List String :=
  (scan 0 text.toList : Scan K).tokens.filterMap Token.name?

theorem mem_identifiers {text name : String} :
    name ∈ identifiers K text ↔ Token.ident name ∈ (scan 0 text.toList : Scan K).tokens := by
  rw [identifiers, List.mem_filterMap]
  constructor
  · rintro ⟨t, hMem, hName⟩
    cases t <;> cases hName
    exact hMem
  · exact fun hMem => ⟨_, hMem, rfl⟩

/-! ## Chains of shorthands -/

variable (K) in
/-- A text that lies in the expansions of `active` holds shorthands that lead to a chain of expansions, each
in the one that follows it. -/
inductive Nested (table : Shorthands) : (active : List String) → (text : String) →
    (chain : List String) → Prop
  | here (active : List String) (text : String) : Nested table active text active
  | expand {active chain : List String} {text name expansion : String} :
    name ∈ identifiers K text → table.find? name = some expansion → name ∉ active →
    Nested table (name :: active) expansion chain → Nested table active text chain

/-- A chain is no longer than its table. -/
theorem Nested.length_le {table : Shorthands} {active chain : List String} {text : String}
    (h : Nested K table active text chain) (hNodup : active.Nodup) (hActive : active ⊆ table.keys) :
    chain.length ≤ table.keys.length := by
  induction h with
  | here => exact (List.subperm_of_subset hNodup hActive).length_le
  | expand _ hFind hFresh _ ih =>
    have hMem := Table.mem_keys_iff.mpr (hFind ▸ Option.some_ne_none _)
    exact ih (List.nodup_cons.mpr ⟨hFresh, hNodup⟩) (List.cons_subset.mpr ⟨hMem, hActive⟩)

/-! ## Tokens of one text -/

section

variable {table table' : Shorthands} {active active' : List String}
  {expand expand' : String → String → Except FormulaError (List (Token K))}

omit [Number K] in
theorem mapM_congr {α β ε : Type} {f g : α → Except ε β} {l : List α} (h : ∀ a ∈ l, f a = g a) :
    l.mapM f = l.mapM g := by
  induction l with
  | nil => rfl
  | cons a rest ih =>
    rw [List.mapM_cons, List.mapM_cons, h a List.mem_cons_self,
      ih fun b hb => h b (List.mem_cons_of_mem _ hb)]

omit [Number K] in
/-- A text has the same tokens wherever its identifiers stand for the same. -/
theorem expandScan_congr {s : Scan K}
    (h : ∀ name, Token.ident name ∈ s.tokens →
      expandToken table active expand (.ident name) = expandToken table' active' expand' (.ident name)) :
    expandScan table active expand s = expandScan table' active' expand' s := by
  have hParts : s.tokens.mapM (expandToken table active expand) =
      s.tokens.mapM (expandToken table' active' expand') := by
    apply mapM_congr
    intro t hMem
    cases t with
    | ident name => exact h name hMem
    | _ => rfl
  rw [expandScan, hParts, expandScan]

/-- A text has the same tokens if the shorthands that it holds have the same expansions. -/
theorem expandScan_congr_expand {text : String}
    (h : ∀ name ∈ identifiers K text, ∀ expansion, table.find? name = some expansion → name ∉ active →
      expand name expansion = expand' name expansion) :
    expandScan table active expand (scan 0 text.toList) =
      expandScan table active expand' (scan 0 text.toList) := by
  apply expandScan_congr
  intro name hMem
  unfold expandToken
  dsimp only
  split
  · rfl
  · rename_i expansion hFind
    split
    · rfl
    · rename_i hFresh
      rw [h name (mem_identifiers.mpr hMem) expansion hFind (by simpa using hFresh)]

end

/-! ## Tokens of a text and its expansions -/

/-- A shorthand that a text lies in might as well be missing from the table. -/
theorem tokensWithin_without (table : Shorthands) (outer : String) (room : Nat) (active : List String)
    (text : String) :
    (tokensWithin (table.without outer) room active text : Except FormulaError (List (Token K))) =
      tokensWithin table room (active ++ [outer]) text := by
  -- an identifier stands for the same on both sides if the expansions do
  have hToken {expand expand' : String → String → Except FormulaError (List (Token K))}
      (active : List String) (h : expand = expand') (name : String) :
      expandToken (table.without outer) active expand (.ident name) =
        expandToken table (active ++ [outer]) expand' (.ident name) := by
    unfold expandToken
    dsimp only
    by_cases hName : name = outer
    · subst hName
      rw [Shorthands.find?_without_self]
      cases table.find? name <;> simp
    · rw [Shorthands.find?_without_of_ne table hName, h]
      simp [hName]
  induction room generalizing active text with
  | zero =>
    rw [tokensWithin, tokensWithin]
    exact expandScan_congr fun name _ => hToken active rfl name
  | succ room ih =>
    rw [tokensWithin, tokensWithin]
    refine expandScan_congr fun name _ => hToken active ?_ name
    funext name' expansion
    exact ih (name' :: active) expansion

/-- Room beyond the longest chain of expansions is not used. -/
theorem tokensWithin_succ {table : Shorthands} {room : Nat} {active : List String} {text : String}
    (h : ∀ chain, Nested K table active text chain → chain.length ≤ active.length + room) :
    (tokensWithin table (room + 1) active text : Except FormulaError (List (Token K))) =
      tokensWithin table room active text := by
  induction room generalizing active text with
  | zero =>
    rw [tokensWithin, tokensWithin]
    refine expandScan_congr_expand fun name hMem expansion hFind hFresh => ?_
    have hLong := h _ (.expand hMem hFind hFresh (.here _ expansion))
    exact absurd hLong (by simp)
  | succ room ih =>
    rw [tokensWithin, tokensWithin]
    refine expandScan_congr_expand fun name hMem expansion hFind hFresh => ?_
    refine ih fun chain hChain => ?_
    have := h chain (.expand hMem hFind hFresh hChain)
    rw [List.length_cons]
    omega

theorem tokenize_empty (text : String) :
    tokenize .empty text = match (scan 0 text.toList : Scan K).fault with
      | some e => .error e
      | none => .ok (scan 0 text.toList : Scan K).tokens := by
  have hToken (expand : String → String → Except FormulaError (List (Token K))) (t : Token K) :
      expandToken .empty [] expand t = pure [t] := by
    cases t <;> rfl
  have hParts (expand : String → String → Except FormulaError (List (Token K))) (ts : List (Token K)) :
      ts.mapM (expandToken .empty [] expand) = pure (ts.map fun t => [t]) := by
    rw [mapM_congr fun t _ => hToken expand t, List.mapM_pure]
  rw [tokenize, maxDepth, tokensWithin, expandScan, hParts]
  cases (scan 0 text.toList : Scan K).fault with
  | some e => rfl
  | none => exact congrArg Except.ok (List.flatMap_singleton' _)

end Loadout.Formula
