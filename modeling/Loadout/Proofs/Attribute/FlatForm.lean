import Loadout.Attribute.Bonuses
import Loadout.Proofs.Number.Extremes

/-!
# The flat form of a table of bonuses

A table of bonuses is written as one map from names to amounts, in which the keys of the vocabulary and the
names outside of it stand side by side. Nothing is lost by that, since a table never holds an amount under a
name that would be read as something else: what it holds was put there under some name, and every key that
a name stands for is read back from its own text.

* `Slot`: a key or a name outside of the vocabulary, and what a name is read as;
* `find?_addNamed`, `find?_ofNames`, `find?_merge`: what a table holds after amounts were added;
* `Canonical`, `Built`, `Built.canonical`: tables whose slots are read back from their texts, and tables that
  can be built, which are of this kind;
* `Canonical.ofNames_toNames`: a table that is read back from its flat form has every amount added to zero;
* `built_flat_form`: what this comes to for floating-point numbers.
-/

namespace Loadout.Bonuses

/-! ## Slots -/

/-- Where a table may hold an amount: under a key, or under a name that is no key. -/
inductive Slot
  | key (k : StatKey)
  | extra (name : String)
deriving DecidableEq

namespace Slot

/-- What a name is read as. -/
def ofName (name : String) : Slot :=
  match StatKey.parse? name with
  | some k => key k
  | none => extra name

def text : Slot → String
  | key k => k.text
  | extra name => name

theorem ofName_eq_key_iff {name : String} {k : StatKey} :
    ofName name = key k ↔ StatKey.parse? name = some k := by
  unfold ofName
  cases StatKey.parse? name <;> simp

theorem ofName_eq_extra_iff {name name' : String} :
    ofName name = extra name' ↔ StatKey.parse? name = none ∧ name = name' := by
  unfold ofName
  cases StatKey.parse? name <;> simp

/-- What some name is read as is read back from its own text. -/
theorem ofName_text_ofName (name : String) : ofName (ofName name).text = ofName name := by
  cases hName : ofName name with
  | key k => exact ofName_eq_key_iff.mpr (StatKey.parse?_text_of_parse? (ofName_eq_key_iff.mp hName))
  | extra name' =>
    obtain ⟨hNone, rfl⟩ := ofName_eq_extra_iff.mp hName
    exact hName

end Slot

variable {K : Type}

/-- The amount in a slot. -/
def find? (b : Bonuses K) : Slot → Option K
  | .key k => b.entries.find? k
  | .extra name => b.extra.find? name

theorem ext_find? {b c : Bonuses K} (h : ∀ s, b.find? s = c.find? s) : b = c := by
  have hEntries : b.entries = c.entries := Table.ext_find? fun k => h (.key k)
  have hExtra : b.extra = c.extra := Table.ext_find? fun name => h (.extra name)
  cases b
  cases c
  congr

@[simp] theorem find?_empty (s : Slot) : (empty : Bonuses K).find? s = none := by
  cases s <;> rfl

/-! ## Tables that are read back from their texts -/

/-- The amounts of the names that are read as one slot, in the order of the names. -/
def amountsFor (names : Table String K) (s : Slot) : List K :=
  names.entries.filterMap fun e => if Slot.ofName e.1 = s then some e.2 else none

/-- Every slot that holds an amount is read back from its text. -/
def Canonical (b : Bonuses K) : Prop := ∀ s, b.find? s ≠ none → Slot.ofName s.text = s

theorem canonical_empty : (empty : Bonuses K).Canonical := fun s h => absurd (find?_empty s) h

namespace Canonical

variable {b c : Bonuses K}

theorem of_find?_map {f : Slot → K → K} (h : b.Canonical) (hMap : ∀ s, c.find? s = (b.find? s).map (f s)) :
    c.Canonical := by
  intro s hs
  rw [hMap, ne_eq, Option.map_eq_none_iff] at hs
  exact h s hs

/-- Different slots that hold amounts have different texts. -/
theorem eq_of_text_eq (h : b.Canonical) {s s' : Slot} (hs : b.find? s ≠ none) (hs' : b.find? s' ≠ none)
    (hText : s.text = s'.text) : s = s' := by
  rw [← h s hs, ← h s' hs', hText]

/-- The flat form holds the amounts of a table under the texts of their slots. -/
theorem find?_toNames (h : b.Canonical) {name : String} {x : K} :
    b.toNames.find? name = some x ↔ ∃ s, s.text = name ∧ b.find? s = some x := by
  have hHeld {k : StatKey} {y : K} (hMem : (k, y) ∈ b.entries.entries) : b.find? (.key k) = some y :=
    Table.find?_eq_some_iff.mpr hMem
  have hEntry {k : StatKey} {y : K} (hMem : (k, y) ∈ b.entries.entries) :
      b.toNames.find? k.text = some y := by
    refine Table.find?_foldl_insert_of_mem (fun e => e.1.text) Prod.snd hMem ?_
    rintro ⟨k', y'⟩ hMem' hText
    have hKey : Slot.key k' = Slot.key k :=
      h.eq_of_text_eq (by simp [hHeld hMem']) (by simp [hHeld hMem]) hText
    cases hKey
    have hSame := (hHeld hMem').symm.trans (hHeld hMem)
    cases hSame
    rfl
  have hRest (hNone : ∀ e ∈ b.entries.entries, e.1.text ≠ name) :
      b.toNames.find? name = b.extra.find? name :=
    Table.find?_foldl_insert_of_not_mem hNone
  constructor
  · intro hFind
    by_cases hText : ∃ e ∈ b.entries.entries, e.1.text = name
    · obtain ⟨⟨k, y⟩, hMem, rfl⟩ := hText
      rw [hEntry hMem] at hFind
      exact ⟨.key k, rfl, (hHeld hMem).trans hFind⟩
    · push Not at hText
      rw [hRest hText] at hFind
      exact ⟨.extra name, rfl, hFind⟩
  · rintro ⟨s, rfl, hFind⟩
    cases s with
    | key k => exact hEntry (Table.find?_eq_some_iff.mp hFind)
    | extra name =>
      refine (hRest ?_).trans hFind
      rintro ⟨k, y⟩ hMem hText
      have hSlot : Slot.key k = Slot.extra name :=
        h.eq_of_text_eq (by simp [hHeld hMem]) (by simp [hFind]) hText
      cases hSlot

/-- Of the names in the flat form only the text of a slot is read as it. -/
theorem amountsFor_toNames (h : b.Canonical) (s : Slot) :
    amountsFor b.toNames s = (b.find? s).toList := by
  have hRead {name : String} {x : K} (hMem : (name, x) ∈ b.toNames.entries) :
      name = (Slot.ofName name).text ∧ b.find? (Slot.ofName name) = some x := by
    obtain ⟨s', rfl, hFind⟩ := h.find?_toNames.mp (Table.find?_eq_some_iff.mpr hMem)
    have hSlot := h s' (by simp [hFind])
    exact ⟨congrArg Slot.text hSlot.symm, hSlot.symm ▸ hFind⟩
  cases hFind : b.find? s with
  | none =>
    refine List.filterMap_eq_nil_iff.mpr ?_
    rintro ⟨name, x⟩ hMem
    refine if_neg ?_
    rintro rfl
    rw [(hRead hMem).2] at hFind
    cases hFind
  | some x =>
    have hFlat : b.toNames.find? s.text = some x := h.find?_toNames.mpr ⟨s, rfl, hFind⟩
    rw [← hFlat, ← Table.filterMap_entries_eq]
    refine List.filterMap_congr ?_
    rintro ⟨name, y⟩ hMem
    have hSame : Slot.ofName name = s ↔ name = s.text := by
      constructor
      · rintro rfl
        exact (hRead hMem).1
      · rintro rfl
        exact h s (by simp [hFind])
    simp only [hSame]

end Canonical

variable [Number K]

/-! ## Sums -/

/-- What a place holds after some amounts were added to it, one after another. -/
def gather (old : Option K) (amounts : List K) : Option K :=
  if amounts.isEmpty then old else some (amounts.foldl (· + ·) (old.getD 0.0))

theorem gather_cons (old : Option K) (x : K) (amounts : List K) :
    gather old (x :: amounts) = gather (some (old.getD 0.0 + x)) amounts := by
  cases amounts <;> rfl

/-- If every step adds one amount to one place, the steps together add to a place the amounts that are meant
for it. -/
theorem find?_foldl {S ε σ : Type} [DecidableEq σ] {F : S → σ → Option K} {step : S → ε → S}
    {place : ε → σ} {amount : ε → K}
    (h : ∀ st e s, F (step st e) s =
      if place e = s then some ((F st (place e)).getD 0.0 + amount e) else F st s)
    (l : List ε) (st : S) (s : σ) :
    F (l.foldl step st) s =
      gather (F st s) (l.filterMap fun e => if place e = s then some (amount e) else none) := by
  induction l generalizing st with
  | nil => rfl
  | cons e rest ih =>
    rw [List.foldl_cons, ih, h]
    by_cases hPlace : place e = s
    · subst hPlace
      simp [gather_cons]
    · simp [hPlace]

/-- An amount that is added under a name goes to the slot that the name is read as. -/
theorem find?_addNamed (b : Bonuses K) (name : String) (x : K) (s : Slot) :
    (b.addNamed name x).find? s =
      if Slot.ofName name = s then some ((b.find? (Slot.ofName name)).getD 0.0 + x) else b.find? s := by
  unfold addNamed Slot.ofName
  cases StatKey.parse? name with
  | some k => cases s <;> simp [find?, add, find?_addTo]
  | none => cases s <;> simp [find?, addExtra, find?_addTo]

theorem find?_ofNames (names : Table String K) (s : Slot) :
    (ofNames names).find? s = gather none (amountsFor names s) := by
  rw [ofNames, find?_foldl (F := find?) fun b e s => find?_addNamed b e.1 e.2 s, find?_empty, amountsFor]

/-- Every amount of another table is added to what stands in its slot. -/
theorem find?_merge (b other : Bonuses K) (s : Slot) :
    (b.merge other).find? s = gather (b.find? s) (other.find? s).toList := by
  cases s with
  | key k =>
    have hFold := find?_foldl (F := Table.find?) (fun t e k => find?_addTo t e.1 k e.2)
      other.entries.entries b.entries k
    rwa [Table.filterMap_entries_eq] at hFold
  | extra name =>
    have hFold := find?_foldl (F := Table.find?) (fun t e k => find?_addTo t e.1 k e.2)
      other.extra.entries b.extra name
    rwa [Table.filterMap_entries_eq] at hFold

/-! ## Tables that can be built -/

namespace Canonical

variable {b c : Bonuses K}

theorem addNamed (h : b.Canonical) (name : String) (x : K) : (b.addNamed name x).Canonical := by
  intro s hs
  rw [find?_addNamed] at hs
  by_cases hSlot : Slot.ofName name = s
  · rw [← hSlot, Slot.ofName_text_ofName]
  · rw [if_neg hSlot] at hs
    exact h s hs

theorem merge (h : b.Canonical) (hc : c.Canonical) : (b.merge c).Canonical := by
  intro s hs
  rw [find?_merge] at hs
  cases hFind : c.find? s with
  | some x => exact hc s (hFind ▸ Option.some_ne_none x)
  | none =>
    rw [hFind] at hs
    exact h s hs

end Canonical

theorem canonical_ofNames (names : Table String K) : (ofNames names).Canonical := by
  have hFold (l : List (String × K)) (b : Bonuses K) (hb : b.Canonical) :
      (l.foldl (fun b e => b.addNamed e.1 e.2) b).Canonical := by
    induction l generalizing b with
    | nil => exact hb
    | cons e rest ih => exact ih _ (hb.addNamed e.1 e.2)
  exact hFold names.entries empty canonical_empty

/-- The tables that are built from the empty table and from documents. -/
inductive Built : Bonuses K → Prop
  | empty : Built empty
  | decoded {j : Json K} {b : Bonuses K} : ofJson? j = some b → Built b
  | addNamed {b : Bonuses K} (name : String) (x : K) : Built b → Built (b.addNamed name x)
  | merge {b c : Bonuses K} : Built b → Built c → Built (b.merge c)
  | scale {b : Bonuses K} (factor : K) (whole : List String) : Built b → Built (b.scale factor whole)
  | modify {b : Bonuses K} (k : StatKey) (f : K → K) : Built b → Built (b.modify k f)

theorem Built.canonical {b : Bonuses K} (h : Built b) : b.Canonical := by
  induction h with
  | empty => exact canonical_empty
  | decoded h =>
    obtain ⟨members, -, rfl⟩ := Option.map_eq_some_iff.mp h
    exact canonical_ofNames _
  | addNamed name x _ ih => exact ih.addNamed name x
  | merge _ _ ihb ihc => exact ihb.merge ihc
  | @scale b factor whole _ ih =>
    refine ih.of_find?_map (f := fun s x => match s with
      | .key _ => x * factor
      | .extra name => if whole.contains name then Number.round (x * factor) else x * factor) ?_
    intro s
    cases s <;> exact Table.find?_map _ _ _
  | @modify b k f _ ih =>
    refine ih.of_find?_map (f := fun s x => if s = .key k then f x else x) ?_
    intro s
    cases s with
    | key k' => simp [find?, Bonuses.modify, Table.find?_map]
    | extra name => simp [find?, Bonuses.modify]

/-! ## To names and back -/

variable {b : Bonuses K}

theorem Canonical.find?_ofNames_toNames (h : b.Canonical) (s : Slot) :
    (ofNames b.toNames).find? s = (b.find? s).map (0.0 + ·) := by
  rw [find?_ofNames, h.amountsFor_toNames]
  cases b.find? s <;> rfl

/-- A table that is read back from its flat form has every amount added to zero. -/
theorem Canonical.ofNames_toNames (h : b.Canonical) :
    ofNames b.toNames = ⟨b.entries.map fun _ x => 0.0 + x, b.extra.map fun _ x => 0.0 + x⟩ := by
  apply ext_find?
  intro s
  rw [h.find?_ofNames_toNames]
  cases s with
  | key k => exact (Table.find?_map b.entries (fun _ x => 0.0 + x) k).symm
  | extra name => exact (Table.find?_map b.extra (fun _ x => 0.0 + x) name).symm

/-! ## Documents -/

/-- No amount of a table is infinite or undefined. -/
def AllFinite (b : Bonuses K) : Prop :=
  (∀ x ∈ b.entries.values, Number.finite x = true) ∧ ∀ x ∈ b.extra.values, Number.finite x = true

instance (b : Bonuses K) : Decidable b.AllFinite := inferInstanceAs (Decidable (_ ∧ _))

theorem AllFinite.finite_of_find? (h : b.AllFinite) {s : Slot} {x : K} (hFind : b.find? s = some x) :
    Number.finite x = true := by
  cases s with
  | key k => exact h.1 x (List.mem_map_of_mem (Table.find?_eq_some_iff.mp hFind))
  | extra name => exact h.2 x (List.mem_map_of_mem (Table.find?_eq_some_iff.mp hFind))

/-- A flat form of finite amounts is read from a document as it was written. -/
theorem asMembers?_ofNumber {l : List (String × K)} (h : ∀ e ∈ l, Number.finite e.2 = true) :
    (Json.obj (l.map fun e => (e.1, Json.ofNumber e.2))).asMembers? Json.asNumber? = some l := by
  rw [Json.asMembers?]
  induction l with
  | nil => rfl
  | cons e rest ih =>
    obtain ⟨hHead, hRest⟩ := List.forall_mem_cons.mp h
    simp only [List.map_cons, List.mapM_cons, Json.asNumber?_ofNumber, hHead, ih hRest]
    rfl

/-- To write a table to a document and to read it again is to take its flat form apart. -/
theorem Canonical.ofJson?_toJson (h : b.Canonical) (hFinite : b.AllFinite) :
    ofJson? b.toJson = some (ofNames b.toNames) := by
  have hMembers : b.toJson.asMembers? Json.asNumber? = some b.toNames.entries := by
    apply asMembers?_ofNumber
    rintro ⟨name, x⟩ hMem
    obtain ⟨s, -, hFind⟩ := h.find?_toNames.mp (Table.find?_eq_some_iff.mpr hMem)
    exact hFinite.finite_of_find? hFind
  rw [ofJson?, hMembers, Option.map_some, Table.ofList_entries]

/-! ## Floating-point numbers -/

open Number.Binary

/-- No comparison tells entries from what they are after zero was added to them. -/
theorem map_zero_add_beq {κ : Type} [DecidableEq κ] (l : List (κ × Float)) :
    ((l.map fun e => (e.1, 0.0 + e.2)) == l) = (l == l) := by
  induction l with
  | nil => rfl
  | cons e rest ih =>
    have hHead : ((e.1, 0.0 + e.2) == e) = (e == e) := congrArg (e.1 == e.1 && ·) (zero_add_beq e.2)
    rw [List.map_cons, List.cons_beq_cons, List.cons_beq_cons, hHead, ih]

theorem beq_self_of_finite {κ : Type} [DecidableEq κ] {l : List (κ × Float)}
    (h : ∀ x ∈ l.map Prod.snd, Number.finite x = true) : (l == l) = true := by
  induction l with
  | nil => rfl
  | cons e rest ih =>
    obtain ⟨hFinite, hRest⟩ := List.forall_mem_cons.mp h
    have hHead : (e == e) = true :=
      Bool.and_eq_true_iff.mpr ⟨beq_self_eq_true e.1, beq_self_iff.mpr (proper_of_isFinite hFinite)⟩
    rw [List.cons_beq_cons, hHead, ih hRest, Bool.and_true]

theorem Canonical.equals_ofNames_toNames {b : Bonuses Float} (h : b.Canonical) :
    (ofNames b.toNames).equals b = b.equals b := by
  have hEntries := map_zero_add_beq b.entries.entries
  have hExtra := map_zero_add_beq b.extra.entries
  rw [h.ofNames_toNames]
  exact congrArg₂ (· && ·) hEntries hExtra

theorem AllFinite.equals_self {b : Bonuses Float} (h : b.AllFinite) : b.equals b = true :=
  Bool.and_eq_true_iff.mpr ⟨beq_self_of_finite h.1, beq_self_of_finite h.2⟩

/-- A table that was built from documents by adding and changing amounts holds every amount where its name
is read back, so that its flat form stands for the same amounts. What a document says about one slot under
several names adds up. -/
theorem built_flat_form {b : Bonuses Float} (h : Built b) :
    (∀ name ∈ b.extra.keys, StatKey.parse? name = none) ∧
    (∀ k ∈ b.entries.keys, StatKey.parse? k.text = some k) ∧
    (∀ k ∈ b.entries.keys, ∀ k' ∈ b.entries.keys, k.text = k'.text → k = k') ∧
    (ofNames b.toNames).equals b = b.equals b ∧
    (b.AllFinite → (ofNames b.toNames).equals b = true ∧ ofJson? b.toJson = some (ofNames b.toNames)) ∧
    ∀ j, ofJson? j = some b → ∃ members, j.asMembers? Json.asNumber? = some members ∧
      ∀ s, b.find? s = match amountsFor (.ofList members) s with
        | [] => none
        | amounts => some (Number.sum amounts) := by
  have hCanonical := h.canonical
  have hKey {k : StatKey} (hk : k ∈ b.entries.keys) : b.find? (.key k) ≠ none := Table.mem_keys_iff.mp hk
  refine ⟨?extra, ?entry, ?distinct, hCanonical.equals_ofNames_toNames, ?finite, ?decoded⟩
  case extra =>
    intro name hName
    exact (Slot.ofName_eq_extra_iff.mp (hCanonical (.extra name) (Table.mem_keys_iff.mp hName))).1
  case entry =>
    intro k hk
    exact Slot.ofName_eq_key_iff.mp (hCanonical (.key k) (hKey hk))
  case distinct =>
    intro k hk k' hk' hText
    exact Slot.key.inj (hCanonical.eq_of_text_eq (hKey hk) (hKey hk') hText)
  case finite =>
    intro hFinite
    exact ⟨hCanonical.equals_ofNames_toNames.trans hFinite.equals_self, hCanonical.ofJson?_toJson hFinite⟩
  case decoded =>
    intro j hDecoded
    obtain ⟨members, hMembers, rfl⟩ := Option.map_eq_some_iff.mp hDecoded
    refine ⟨members, hMembers, ?_⟩
    intro s
    rw [find?_ofNames]
    cases amountsFor (.ofList members) s <;> rfl

/-- Two names of one attribute, a scoped stat under its alias, and a name outside of the vocabulary. -/
def aliased : Json Float :=
  .obj [("attack", .real 0.25), ("攻击", .int 1), ("近战attack", .real 1.5), ("滑行速度", .real 5.0)]

def described : Bonuses Float :=
  ofNames (.ofList [("attack", 0.25), ("攻击", 1), ("近战attack", 1.5), ("滑行速度", 5.0)])

/-- What the document describes, twice and halved, with one more amount. -/
def halved : Bonuses Float :=
  (described.merge (described.addNamed "耐受" 3.0)).scale 0.5 ["滑行速度"]

theorem built_flat_form_halved :
    Built halved ∧ halved.AllFinite ∧ (∀ name ∈ halved.extra.keys, StatKey.parse? name = none) ∧
    (ofNames halved.toNames).equals halved = true ∧
    ofJson? halved.toJson = some (ofNames halved.toNames) ∧
    halved.toNames.keys = ["攻击", "滑行速度", "耐受", "近战攻击"] ∧
    ofJson? aliased = some described ∧ ∃ members, aliased.asMembers? Json.asNumber? = some members ∧
      ∀ s, described.find? s = match amountsFor (.ofList members) s with
        | [] => none
        | amounts => some (Number.sum amounts) := by
  have hMembers : aliased.asMembers? Json.asNumber? =
      some [("attack", 0.25), ("攻击", 1), ("近战attack", 1.5), ("滑行速度", 5.0)] := rfl
  have hDescribed : ofJson? aliased = some described := congrArg (Option.map _) hMembers
  have hBuilt : Built described := .decoded hDescribed
  have hHalved : Built halved := .scale 0.5 _ (.merge hBuilt (.addNamed "耐受" 3.0 hBuilt))
  have hFinite : halved.AllFinite := by decide +kernel
  obtain ⟨hExtra, -, -, -, hForm, -⟩ := built_flat_form hHalved
  obtain ⟨-, -, -, -, -, hDecoded⟩ := built_flat_form hBuilt
  have hKeys : halved.toNames.keys = ["攻击", "滑行速度", "耐受", "近战攻击"] := by decide +kernel
  exact ⟨hHalved, hFinite, hExtra, (hForm hFinite).1, (hForm hFinite).2, hKeys, hDescribed,
    hDecoded aliased hDescribed⟩

end Loadout.Bonuses
