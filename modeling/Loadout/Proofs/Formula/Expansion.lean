import Loadout.Proofs.Formula.Completeness
import Loadout.Proofs.Formula.Shorthands

/-!
# Shorthands stand for formulas

Shorthands are replaced among the tokens, before anything is known of the tree. That is still a replacement
in the tree: the parentheses around an expansion make a factor of it, and a factor may stand wherever a
name may, so the formula around it is derived as before. What else a name may be (a qualifier, a qualified
name, a function or a member) is no shorthand by assumption.

* `Expr.leaves`, `Expr.reserved`: the names of a formula that may be shorthands, and those that may not;
* `Expr.replace`: puts formulas in the places of leaves;
* `Derives.expands`: what some tokens spell out, with the leaves replaced, is spelt out by what the tokens
  stand for. The induction is on the derivation;
* `parse_of_shorthands`: the formula that a text spells out under a table. The expansions are read with a
  table that lacks the shorthand itself, and room is no matter as long as no chain is too long.
-/

namespace Loadout.Formula

variable {K : Type}

/-! ## Names in a formula -/

namespace Expr

mutual

/-- The names without a qualifier that are to be looked up. -/
def leaves : Expr K → List String
  | number _ => []
  | binary _ left right => left.leaves ++ right.leaves
  | unary _ operand => operand.leaves
  | property none name => [name]
  | property (some _) _ => []
  | call _ _ arguments => leavesAll arguments
  | member object _ => object.leaves

def leavesAll : List (Expr K) → List String
  | [] => []
  | e :: rest => e.leaves ++ leavesAll rest

end

mutual

/-- All other names: qualifiers, names that have one, functions and members. -/
def reserved : Expr K → List String
  | number _ => []
  | binary _ left right => left.reserved ++ right.reserved
  | unary _ operand => operand.reserved
  | property none _ => []
  | property (some q) name => [q, name]
  | call qualifier name arguments => qualifier.toList ++ name :: reservedAll arguments
  | member object name => name :: object.reserved

def reservedAll : List (Expr K) → List String
  | [] => []
  | e :: rest => e.reserved ++ reservedAll rest

end

mutual

/-- A formula with other formulas in the places of some of its leaves. -/
def replace (f : String → Option (Expr K)) : Expr K → Expr K
  | number x => number x
  | binary o left right => binary o (left.replace f) (right.replace f)
  | unary o operand => unary o (operand.replace f)
  | property none name => (f name).getD (property none name)
  | property (some q) name => property (some q) name
  | call qualifier name arguments => call qualifier name (replaceAll f arguments)
  | member object name => member (object.replace f) name

def replaceAll (f : String → Option (Expr K)) : List (Expr K) → List (Expr K)
  | [] => []
  | e :: rest => e.replace f :: replaceAll f rest

end

theorem leavesAll_append (es es' : List (Expr K)) :
    leavesAll (es ++ es') = leavesAll es ++ leavesAll es' := by
  induction es with
  | nil => rfl
  | cons e rest ih => rw [List.cons_append, leavesAll, leavesAll, ih, List.append_assoc]

theorem reservedAll_append (es es' : List (Expr K)) :
    reservedAll (es ++ es') = reservedAll es ++ reservedAll es' := by
  induction es with
  | nil => rfl
  | cons e rest ih => rw [List.cons_append, reservedAll, reservedAll, ih, List.append_assoc]

theorem replaceAll_append (f : String → Option (Expr K)) (es es' : List (Expr K)) :
    replaceAll f (es ++ es') = replaceAll f es ++ replaceAll f es' := by
  induction es with
  | nil => rfl
  | cons e rest ih => rw [List.cons_append, replaceAll, replaceAll, ih, List.cons_append]

end Expr

namespace Phrase

def leaves : Phrase K → List String
  | expr e | term e | unary e | factor e => e.leaves
  | arguments es => Expr.leavesAll es

def reserved : Phrase K → List String
  | expr e | term e | unary e | factor e => e.reserved
  | arguments es => Expr.reservedAll es

def replace (f : String → Option (Expr K)) : Phrase K → Phrase K
  | expr e => .expr (e.replace f)
  | term e => .term (e.replace f)
  | unary e => .unary (e.replace f)
  | factor e => .factor (e.replace f)
  | arguments es => .arguments (Expr.replaceAll f es)

end Phrase

/-! ## What tokens stand for -/

/-- Some tokens stand for others outside all expansions, where `expand` gives the tokens of expansions. -/
def Expands (table : Shorthands) (expand : String → String → Except FormulaError (List (Token K)))
    (ts us : List (Token K)) : Prop :=
  ∃ parts, ts.mapM (expandToken table [] expand) = .ok parts ∧ parts.flatten = us

section

variable {table : Shorthands} {expand : String → String → Except FormulaError (List (Token K))}
  {ts ts' us us' : List (Token K)}

theorem expands_single {t : Token K} (h : expandToken table [] expand t = .ok us) :
    Expands table expand [t] us :=
  ⟨[us], by rw [List.mapM_cons, h]; rfl, by simp⟩

theorem Expands.append (h : Expands table expand ts us) (h' : Expands table expand ts' us') :
    Expands table expand (ts ++ ts') (us ++ us') := by
  obtain ⟨parts, hParts, rfl⟩ := h
  obtain ⟨parts', hParts', rfl⟩ := h'
  exact ⟨parts ++ parts', by rw [List.mapM_append, hParts, hParts']; rfl, List.flatten_append⟩

/-- A token that is not a name stands for itself. -/
theorem expands_of_name? {t : Token K} (h : t.name? = none) : Expands table expand [t] [t] := by
  apply expands_single
  cases t with
  | ident name => cases h
  | _ => rfl

/-- Two pieces may be joined by a token that is not a name. -/
theorem Expands.joined {t : Token K} (h : Expands table expand ts us) (ht : t.name? = none)
    (h' : Expands table expand ts' us') : Expands table expand (ts ++ t :: ts') (us ++ t :: us') :=
  h.append ((expands_of_name? ht).append h')

/-- A name that is no shorthand stands for itself. -/
theorem expands_ident {name : String} (h : table.find? name = none) :
    Expands table expand [.ident name] [.ident name] :=
  expands_single (by simp [expandToken, h])

/-- A shorthand stands for its expansion in parentheses. -/
theorem expands_shorthand {name expansion : String} (hFind : table.find? name = some expansion)
    (hExpand : expand name expansion = .ok us) :
    Expands table expand [.ident name] (.openParen :: us ++ [.closeParen]) :=
  expands_single (by simp [expandToken, hFind, hExpand])

theorem expands_nameTokens {qualifier : Option String} {name : String}
    (h : ∀ n ∈ qualifier.toList ++ [name], table.find? n = none) :
    Expands table expand (nameTokens qualifier name) (nameTokens qualifier name) := by
  cases qualifier with
  | none => exact expands_ident (h name (by simp))
  | some q =>
    have hQualifier : Expands table expand [.ident q] [.ident q] := expands_ident (h q (by simp))
    exact hQualifier.append ((expands_of_name? rfl).append (expands_ident (h name (by simp))))

/-! ## What they spell out -/

/-- The formulas that leaves are replaced by: a shorthand by its tree. -/
def Shorthands.meaning (table : Shorthands) (tree : String → Expr K) (name : String) : Option (Expr K) :=
  (table.find? name).map fun _ => tree name

/-- In a phrase every shorthand is a leaf, and the tokens of its expansion spell out its tree. -/
structure Replaceable (table : Shorthands)
    (expand : String → String → Except FormulaError (List (Token K))) (tree : String → Expr K)
    (phrase : Phrase K) : Prop where
  reserved : ∀ name ∈ phrase.reserved, table.find? name = none
  leaves : ∀ name ∈ phrase.leaves, ∀ expansion, table.find? name = some expansion →
    ∃ us, expand name expansion = .ok us ∧ Derives us (.expr (tree name))

variable {tree : String → Expr K}

theorem Replaceable.mono {phrase phrase' : Phrase K} (h : Replaceable table expand tree phrase)
    (hReserved : phrase'.reserved ⊆ phrase.reserved) (hLeaves : phrase'.leaves ⊆ phrase.leaves) :
    Replaceable table expand tree phrase' :=
  ⟨fun name hMem => h.reserved name (hReserved hMem), fun name hMem => h.leaves name (hLeaves hMem)⟩

theorem Replaceable.of_eq {phrase phrase' : Phrase K} (h : Replaceable table expand tree phrase)
    (hReserved : phrase'.reserved = phrase.reserved) (hLeaves : phrase'.leaves = phrase.leaves) :
    Replaceable table expand tree phrase' :=
  h.mono (hReserved ▸ List.Subset.refl _) (hLeaves ▸ List.Subset.refl _)

/-- A name without a qualifier stands for itself or for a group. -/
theorem expands_leaf {name : String}
    (h : Replaceable table expand tree (.factor (.property none name))) :
    ∃ us, Expands table expand [.ident name] us ∧
      Derives us (.factor ((Expr.property none name).replace (table.meaning tree))) := by
  rw [Expr.replace, Shorthands.meaning]
  cases hFind : table.find? name with
  | none => exact ⟨_, expands_ident hFind, .property none name⟩
  | some expansion =>
    obtain ⟨us, hExpand, hTree⟩ := h.leaves name List.mem_cons_self expansion hFind
    exact ⟨_, expands_shorthand hFind hExpand, hTree.group⟩

/-- What some tokens spell out, with shorthands replaced by their trees, is spelt out by the tokens that
they stand for. -/
theorem Derives.expands {phrase : Phrase K} (h : Derives ts phrase)
    (hPhrase : Replaceable table expand tree phrase) :
    ∃ us, Expands table expand ts us ∧ Derives us (phrase.replace (table.meaning tree)) := by
  induction h with
  | number x => exact ⟨_, expands_of_name? rfl, .number x⟩
  | property qualifier name =>
    cases qualifier with
    | none => exact expands_leaf hPhrase
    | some q => exact ⟨_, expands_nameTokens hPhrase.reserved, .property (some q) name⟩
  | emptyCall qualifier name =>
    have hName : Expands table expand (nameTokens qualifier name) (nameTokens qualifier name) :=
      expands_nameTokens hPhrase.reserved
    exact ⟨_, hName.append ((expands_of_name? rfl).append (expands_of_name? rfl)),
      .emptyCall qualifier name⟩
  | call qualifier name _ ih =>
    obtain ⟨us, hExpands, hDerives⟩ := ih (hPhrase.mono
      (by simp [Phrase.reserved, Expr.reserved]) (by simp [Phrase.leaves, Expr.leaves]))
    have hName : Expands table expand (nameTokens qualifier name) (nameTokens qualifier name) :=
      expands_nameTokens fun n hMem => hPhrase.reserved n (by
        rw [Phrase.reserved, Expr.reserved]
        rcases List.mem_append.mp hMem with hQualifier | hOwn
        · exact List.mem_append_left _ hQualifier
        · exact List.mem_append_right _ (List.mem_singleton.mp hOwn ▸ List.mem_cons_self))
    exact ⟨_, (hName.joined (t := .openParen) rfl hExpands).append
      (expands_of_name? rfl), hDerives.call qualifier name⟩
  | group _ ih =>
    obtain ⟨us, hExpands, hDerives⟩ := ih (hPhrase.of_eq rfl rfl)
    exact ⟨_, ((expands_of_name? (t := .openParen) rfl).append hExpands).append
      (expands_of_name? rfl), hDerives.group⟩
  | member name _ ih =>
    obtain ⟨us, hExpands, hDerives⟩ := ih (hPhrase.mono
      (by simp [Phrase.reserved, Expr.reserved]) (by simp [Phrase.leaves, Expr.leaves]))
    have hName : Expands table expand [.ident name] [.ident name] :=
      expands_ident (hPhrase.reserved name List.mem_cons_self)
    exact ⟨_, hExpands.append ((expands_of_name? (t := .dot) rfl).append hName),
      hDerives.member name⟩
  | factor _ ih =>
    obtain ⟨us, hExpands, hDerives⟩ := ih (hPhrase.of_eq rfl rfl)
    exact ⟨us, hExpands, hDerives.factor⟩
  | plus _ ih =>
    obtain ⟨us, hExpands, hDerives⟩ := ih (hPhrase.of_eq rfl rfl)
    exact ⟨_, (expands_of_name? rfl).append hExpands, hDerives.plus⟩
  | neg _ ih =>
    obtain ⟨us, hExpands, hDerives⟩ := ih (hPhrase.of_eq rfl rfl)
    exact ⟨_, (expands_of_name? rfl).append hExpands, hDerives.neg⟩
  | unary _ ih =>
    obtain ⟨us, hExpands, hDerives⟩ := ih (hPhrase.of_eq rfl rfl)
    exact ⟨us, hExpands, hDerives.unary⟩
  | product ho _ _ ihl ihr =>
    obtain ⟨us, hExpands, hDerives⟩ := ihl (hPhrase.mono
      (by simp [Phrase.reserved, Expr.reserved]) (by simp [Phrase.leaves, Expr.leaves]))
    obtain ⟨us', hExpands', hDerives'⟩ := ihr (hPhrase.mono
      (by simp [Phrase.reserved, Expr.reserved]) (by simp [Phrase.leaves, Expr.leaves]))
    exact ⟨_, hExpands.joined rfl hExpands', .product ho hDerives hDerives'⟩
  | term _ ih =>
    obtain ⟨us, hExpands, hDerives⟩ := ih (hPhrase.of_eq rfl rfl)
    exact ⟨us, hExpands, hDerives.term⟩
  | sum ho _ _ ihl ihr =>
    obtain ⟨us, hExpands, hDerives⟩ := ihl (hPhrase.mono
      (by simp [Phrase.reserved, Expr.reserved]) (by simp [Phrase.leaves, Expr.leaves]))
    obtain ⟨us', hExpands', hDerives'⟩ := ihr (hPhrase.mono
      (by simp [Phrase.reserved, Expr.reserved]) (by simp [Phrase.leaves, Expr.leaves]))
    exact ⟨_, hExpands.joined rfl hExpands', .sum ho hDerives hDerives'⟩
  | argument _ ih =>
    obtain ⟨us, hExpands, hDerives⟩ := ih (hPhrase.mono
      (by simp [Phrase.reserved, Expr.reservedAll]) (by simp [Phrase.leaves, Expr.leavesAll]))
    exact ⟨us, hExpands, hDerives.argument⟩
  | arguments _ _ ihs ih =>
    obtain ⟨us, hExpands, hDerives⟩ := ihs (hPhrase.mono
      (by simp [Phrase.reserved, Expr.reservedAll_append])
      (by simp [Phrase.leaves, Expr.leavesAll_append]))
    obtain ⟨us', hExpands', hDerives'⟩ := ih (hPhrase.mono
      (by simp [Phrase.reserved, Expr.reservedAll_append, Expr.reservedAll])
      (by simp [Phrase.leaves, Expr.leavesAll_append, Expr.leavesAll]))
    rw [Phrase.replace, Expr.replaceAll_append]
    exact ⟨_, hExpands.joined rfl hExpands', hDerives.arguments hDerives'⟩

end

/-! ## The formula of a text -/

/-- A leaf of a phrase is one of its tokens. -/
theorem Derives.ident_mem {ts : List (Token K)} {phrase : Phrase K} (h : Derives ts phrase) {name : String}
    (hLeaf : name ∈ phrase.leaves) : Token.ident name ∈ ts := by
  induction h with
  | number x => cases hLeaf
  | property qualifier name' =>
    cases qualifier with
    | none => simpa [Phrase.leaves, Expr.leaves, nameTokens] using hLeaf
    | some q => cases hLeaf
  | emptyCall => cases hLeaf
  | call _ _ _ ih => simp [ih hLeaf]
  | group _ ih | member _ _ ih => simp [ih hLeaf]
  | factor _ ih | unary _ ih | term _ ih => exact ih hLeaf
  | plus _ ih | neg _ ih => exact List.mem_cons_of_mem _ (ih hLeaf)
  | product _ _ _ ihl ihr | sum _ _ _ ihl ihr =>
    rcases List.mem_append.mp hLeaf with hLeft | hRight
    · exact List.mem_append_left _ (ihl hLeft)
    · exact List.mem_append_right _ (List.mem_cons_of_mem _ (ihr hRight))
  | argument _ ih => exact ih (by simpa [Phrase.leaves, Expr.leavesAll] using hLeaf)
  | arguments _ _ ihs ih =>
    rw [Phrase.leaves, Expr.leavesAll_append] at hLeaf
    rcases List.mem_append.mp hLeaf with hFront | hLast
    · exact List.mem_append_left _ (ihs hFront)
    · refine List.mem_append_right _ (List.mem_cons_of_mem _ (ih ?_))
      simpa [Phrase.leaves, Expr.leavesAll] using hLast

variable [Number K]

theorem derives_of_parse {table : Shorthands} {text : String} {e : Expr K}
    (h : parse table text = .ok e) : ∃ ts, tokenize table text = .ok ts ∧ Derives ts (.expr e) := by
  rw [parse] at h
  cases hTokens : (tokenize table text : Except FormulaError (List (Token K))) with
  | error fault =>
    rw [hTokens] at h
    cases h
  | ok ts =>
    rw [hTokens] at h
    exact ⟨ts, rfl, derives_of_parseTokens h⟩

theorem parse_of_derives {table : Shorthands} {text : String} {ts : List (Token K)} {e : Expr K}
    (h : tokenize table text = .ok ts) (he : Derives ts (.expr e)) : parse table text = .ok e := by
  rw [parse, h]
  exact he.parseTokens_eq

/-- A text that was read without shorthands holds no fault. -/
theorem scan_of_tokenize_empty {text : String} {ts : List (Token K)}
    (h : tokenize .empty text = .ok ts) : scan 0 text.toList = ⟨ts, none⟩ := by
  rw [tokenize_empty] at h
  generalize (scan 0 text.toList : Scan K) = s at h ⊢
  obtain ⟨tokens, fault⟩ := s
  cases fault <;> cases h
  rfl

/-- What is read of an expansion on its own spells out the same tree inside a text, if there is room for
all chains of expansions that lead through it. -/
theorem tokensWithin_of_parse {table : Shorthands} {room : Nat} {name expansion : String} {e : Expr K}
    (h : parse (table.without name) expansion = .ok e) (hRoom : maxDepth = room + 1)
    (hChains : ∀ chain, Nested K table [name] expansion chain → chain.length ≤ maxDepth) :
    ∃ us, tokensWithin table room [name] expansion = .ok us ∧ Derives us (.expr e) := by
  obtain ⟨us, hTokens, hDerives⟩ := derives_of_parse h
  rw [tokenize, tokensWithin_without, List.nil_append, hRoom, tokensWithin_succ] at hTokens
  · exact ⟨us, hTokens, hDerives⟩
  · intro chain hChain
    have := hChains chain hChain
    rw [List.length_singleton]
    omega

/-- A text whose shorthands all are leaves spells out what it spells out without shorthands, with every
leaf that is a shorthand replaced by the tree of its expansion. The expansion is read under the table
without the shorthand, and no chain of expansions may be too long. -/
theorem parse_of_shorthands {table : Shorthands} {text : String} {e : Expr K} {tree : String → Expr K}
    (h : parse .empty text = .ok e)
    (hReserved : ∀ name ∈ e.reserved, table.find? name = none)
    (hTrees : ∀ name ∈ e.leaves, ∀ expansion, table.find? name = some expansion →
      parse (table.without name) expansion = .ok (tree name))
    (hChains : ∀ chain, Nested K table [] text chain → chain.length ≤ maxDepth) :
    parse table text = .ok (e.replace (table.meaning tree)) := by
  obtain ⟨ts, hTokens, hDerives⟩ := derives_of_parse h
  have hScan := scan_of_tokenize_empty hTokens
  have hPhrase : Replaceable table
      (fun name expansion => tokensWithin table 15 [name] expansion) tree (.expr e) := by
    refine ⟨hReserved, fun name hLeaf expansion hFind => ?_⟩
    have hMem : name ∈ identifiers K text := by
      rw [mem_identifiers, hScan]
      exact hDerives.ident_mem hLeaf
    refine tokensWithin_of_parse (hTrees name hLeaf expansion hFind) rfl fun chain hChain => ?_
    exact hChains chain (.expand hMem hFind List.not_mem_nil hChain)
  obtain ⟨us, ⟨parts, hParts, rfl⟩, hSpelt⟩ := hDerives.expands hPhrase
  have hExpanded : tokenize table text = .ok parts.flatten := by
    rw [tokenize, maxDepth, tokensWithin, expandScan, hScan]
    dsimp only
    rw [hParts]
    rfl
  exact parse_of_derives hExpanded hSpelt

/-- A shorthand that mentions itself, and one that mentions it. -/
def damageShorthands : Shorthands := Table.ofList [("base", "atk + base"), ("dps", "base * 2 - base")]

/-- The sum that the first one stands for. -/
def baseTree : Expr Float := .binary .add (.property none "atk") (.property none "base")

def damageTree (name : String) : Expr Float :=
  if name = "base" then baseTree
  else .binary .sub (.binary .mul baseTree (.number (literal ['2']))) baseTree

/-- A formula over two operands. -/
def damageOver (dps base : Expr Float) : Expr Float :=
  .binary .add (.binary .div (.unary .neg (.member dps "crit")) (.property (some "ns") "speed"))
    (.call none "max" [base, .property none "hp"])

/-- Both shorthands are replaced, as an operand and as an argument, and one of them inside the other. Inside
its own expansion a shorthand stays. -/
theorem parse_damageOver :
    parse .empty "-dps.crit / ns::speed + max(base, hp)" =
        .ok (damageOver (.property none "dps") (.property none "base")) ∧
      parse damageShorthands "-dps.crit / ns::speed + max(base, hp)" =
        .ok (damageOver (damageTree "dps") (damageTree "base")) := by
  have hEmpty : parse .empty "-dps.crit / ns::speed + max(base, hp)" =
      .ok (damageOver (.property none "dps") (.property none "base")) := by
    with_unfolding_all rfl
  have hReserved : ∀ name ∈ (damageOver (.property none "dps") (.property none "base")).reserved,
      damageShorthands.find? name = none := by
    decide +kernel
  have hBase : damageShorthands.find? "base" = some "atk + base" := by with_unfolding_all rfl
  have hDps : damageShorthands.find? "dps" = some "base * 2 - base" := by with_unfolding_all rfl
  have hHp : damageShorthands.find? "hp" = none := by with_unfolding_all rfl
  have hTrees : ∀ name ∈ (damageOver (.property none "dps") (.property none "base")).leaves,
      ∀ expansion, damageShorthands.find? name = some expansion →
        parse (damageShorthands.without name) expansion = .ok (damageTree name) := by
    intro name hLeaf expansion hFind
    have hName : name = "dps" ∨ name = "base" ∨ name = "hp" := by
      simpa [damageOver, Expr.leaves, Expr.leavesAll] using hLeaf
    rcases hName with rfl | rfl | rfl
    · cases hDps.symm.trans hFind
      with_unfolding_all rfl
    · cases hBase.symm.trans hFind
      with_unfolding_all rfl
    · cases hHp.symm.trans hFind
  have hChains : ∀ chain, Nested Float damageShorthands [] "-dps.crit / ns::speed + max(base, hp)" chain →
      chain.length ≤ maxDepth := by
    intro chain hChain
    have hShort := hChain.length_le List.nodup_nil (List.nil_subset _)
    exact Nat.le_trans hShort (by decide)
  refine ⟨hEmpty, ?_⟩
  rw [parse_of_shorthands hEmpty hReserved hTrees hChains]
  simp [damageOver, Expr.replace, Expr.replaceAll, Shorthands.meaning, hBase, hDps, hHp]

end Loadout.Formula
