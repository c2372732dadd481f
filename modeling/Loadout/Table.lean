/-!
# Tables

A table holds one value per key and keeps its entries in the order of the keys. The order is part
of the type, so two tables that answer every look-up alike are equal (`Table.ext_find?`), and a
table can be written out and read back without a trace of the order in which it was filled.

* `Key`: a type with a decidable strict total order;
* `Table.find?_alter`: what a look-up sees after one entry was changed;
* `Table.ext_find?`: equality from look-ups;
* `Table.filterMap_entries_congr`: what is read off the entries depends on the keys that are read alone.
-/

namespace Loadout

/-- A strict total order that can be evaluated. -/
class Key (κ : Type) where
  before : κ → κ → Bool
  irrefl (a : κ) : before a a = false
  trans {a b c : κ} : before a b = true → before b c = true → before a c = true
  total {a b : κ} : before a b = false → before b a = false → a = b

namespace Key

instance : Key Nat where
  before a b := decide (a < b)
  irrefl a := by simp
  trans := by simp; omega
  total := by simp; omega

instance : Key String where
  before a b := decide (a < b)
  irrefl a := by simp
  trans hab hbc := by
    simp only [decide_eq_true_eq] at *
    exact String.lt_trans hab hbc
  total hab hba := by
    simp only [decide_eq_false_iff_not, String.not_lt] at *
    exact String.le_antisymm hba hab

/-- Orders a type by the place of its members in a list of numbers without repetition. -/
@[reducible] def ofRank {κ : Type} (rank : κ → Nat) (injective : ∀ a b, rank a = rank b → a = b) :
    Key κ where
  before a b := decide (rank a < rank b)
  irrefl a := by simp
  trans := by simp; omega
  total hab hba := by
    simp only [decide_eq_false_iff_not] at *
    exact injective _ _ (by omega)

end Key

/-- One value per key, in the order of the keys. -/
structure Table (κ β : Type) [Key κ] where
  entries : List (κ × β)
  ascending : entries.Pairwise fun a b => Key.before a.1 b.1 = true

namespace Table

variable {κ β γ : Type} [Key κ]

theorem ext {s t : Table κ β} (h : s.entries = t.entries) : s = t := by
  cases s; cases t; cases h; rfl

instance [DecidableEq κ] [DecidableEq β] : DecidableEq (Table κ β) := fun s t =>
  decidable_of_iff (s.entries = t.entries) ⟨ext, fun h => h ▸ rfl⟩

/-! ## Look-up -/

/-- The value under a key in a list of entries. -/
def lookup (k : κ) : List (κ × β) → Option β
  | [] => none
  | (a, b) :: rest => if Key.before k a || Key.before a k then lookup k rest else some b

/-- The value under a key. -/
def find? (t : Table κ β) (k : κ) : Option β := lookup k t.entries

/-- The value under a key, or a default. -/
def findD (t : Table κ β) (k : κ) (default : β) : β := (t.find? k).getD default

/-- The keys in order. -/
def keys (t : Table κ β) : List κ := t.entries.map Prod.fst

/-- The values in the order of their keys. -/
def values (t : Table κ β) : List β := t.entries.map Prod.snd

def isEmpty (t : Table κ β) : Bool := t.entries.isEmpty

/-! ## Changing entries -/

def empty : Table κ β := ⟨[], .nil⟩

instance : Inhabited (Table κ β) := ⟨empty⟩

/-- Puts `f` of the present value, if any, under the key. -/
def alterEntries (k : κ) (f : Option β → β) : List (κ × β) → List (κ × β)
  | [] => [(k, f none)]
  | (a, b) :: rest =>
    if Key.before k a then (k, f none) :: (a, b) :: rest
    else if Key.before a k then (a, b) :: alterEntries k f rest
    else (a, f (some b)) :: rest

theorem mem_alterEntries {k : κ} {f : Option β → β} {l : List (κ × β)} {e : κ × β}
    (h : e ∈ alterEntries k f l) : e.1 = k ∨ ∃ e' ∈ l, e'.1 = e.1 := by
  induction l with
  | nil => simp_all [alterEntries]
  | cons head rest ih =>
    obtain ⟨a, b⟩ := head
    rw [alterEntries] at h
    split at h
    · rcases List.mem_cons.1 h with rfl | h
      · exact .inl rfl
      · exact .inr ⟨e, h, rfl⟩
    · split at h
      · rcases List.mem_cons.1 h with rfl | h
        · exact .inr ⟨_, List.mem_cons_self, rfl⟩
        · rcases ih h with hk | ⟨e', he', hk⟩
          · exact .inl hk
          · exact .inr ⟨e', List.mem_cons_of_mem _ he', hk⟩
      · rcases List.mem_cons.1 h with rfl | h
        · exact .inr ⟨_, List.mem_cons_self, rfl⟩
        · exact .inr ⟨e, List.mem_cons_of_mem _ h, rfl⟩

theorem ascending_alterEntries {k : κ} {f : Option β → β} {l : List (κ × β)}
    (h : l.Pairwise fun a b => Key.before a.1 b.1 = true) :
    (alterEntries k f l).Pairwise fun a b => Key.before a.1 b.1 = true := by
  induction l with
  | nil => simp [alterEntries]
  | cons head rest ih =>
    obtain ⟨a, b⟩ := head
    obtain ⟨hHead, hRest⟩ := List.pairwise_cons.1 h
    rw [alterEntries]
    split
    · next hka =>
      refine List.pairwise_cons.2 ⟨fun e he => ?_, h⟩
      rcases List.mem_cons.1 he with rfl | he
      · exact hka
      · exact Key.trans hka (hHead e he)
    · split
      · next hak =>
        refine List.pairwise_cons.2 ⟨fun e he => ?_, ih hRest⟩
        rcases mem_alterEntries he with hk | ⟨e', he', hk⟩
        · simpa [hk] using hak
        · simpa [hk] using hHead e' he'
      · exact List.pairwise_cons.2 ⟨hHead, hRest⟩

/-- Puts `f` of the present value, if any, under the key. -/
def alter (t : Table κ β) (k : κ) (f : Option β → β) : Table κ β :=
  ⟨alterEntries k f t.entries, ascending_alterEntries t.ascending⟩

/-- Puts a value under the key, in place of one that is there. -/
def insert (t : Table κ β) (k : κ) (b : β) : Table κ β := t.alter k fun _ => b

/-- Inserts entries one after another, so that of two with one key the later stays. -/
def ofList (l : List (κ × β)) : Table κ β :=
  l.foldl (fun t e => t.insert e.1 e.2) empty

/-- Changes every value, which may depend on its key. -/
def map (t : Table κ β) (f : κ → β → γ) : Table κ γ :=
  ⟨t.entries.map fun e => (e.1, f e.1 e.2), by
    rw [List.pairwise_map]
    exact t.ascending⟩

/-- Keeps the entries whose keys pass a test. -/
def filter (t : Table κ β) (p : κ → Bool) : Table κ β :=
  ⟨t.entries.filter fun e => p e.1, t.ascending.filter _⟩

/-! ## What a look-up sees -/

@[simp] theorem find?_empty (k : κ) : (empty : Table κ β).find? k = none := rfl

theorem lookup_of_before {k : κ} {l : List (κ × β)}
    (h : ∀ e ∈ l, Key.before k e.1 = true) : lookup k l = none := by
  induction l with
  | nil => rfl
  | cons head rest ih =>
    obtain ⟨a, b⟩ := head
    have hHead := h (a, b) List.mem_cons_self
    simp only [lookup, hHead, Bool.true_or, if_true]
    exact ih fun e he => h e (List.mem_cons_of_mem _ he)

theorem lookup_alterEntries_self {k : κ} {f : Option β → β} {l : List (κ × β)}
    (h : l.Pairwise fun a b => Key.before a.1 b.1 = true) :
    lookup k (alterEntries k f l) = some (f (lookup k l)) := by
  induction l with
  | nil => simp [alterEntries, lookup, Key.irrefl]
  | cons head rest ih =>
    obtain ⟨a, b⟩ := head
    obtain ⟨hHead, hRest⟩ := List.pairwise_cons.1 h
    rw [alterEntries]
    split
    · next hka =>
      have hNone : lookup k rest = none :=
        lookup_of_before fun e he => Key.trans hka (hHead e he)
      simp [lookup, Key.irrefl, hka, hNone]
    · next hka =>
      split
      · next hak => simp [lookup, hak, ih hRest]
      · next hak => simp [lookup, hak, hka]

theorem lookup_alterEntries_of_ne {k k' : κ} (hk : k ≠ k') {f : Option β → β}
    {l : List (κ × β)} : lookup k' (alterEntries k f l) = lookup k' l := by
  have hApart : Key.before k' k = true ∨ Key.before k k' = true := by
    cases h₁ : Key.before k' k
    · cases h₂ : Key.before k k'
      · exact absurd (Key.total h₂ h₁) hk
      · exact .inr rfl
    · exact .inl rfl
  induction l with
  | nil =>
    simp only [alterEntries, lookup, Bool.or_eq_true, if_pos hApart]
  | cons head rest ih =>
    obtain ⟨a, b⟩ := head
    rw [alterEntries]
    split
    · rw [lookup, if_pos (by simpa using hApart)]
    · next hka =>
      split
      · simp [lookup, ih]
      · next hak =>
        have hEq : a = k := Key.total (by simpa using hak) (by simpa using hka)
        subst hEq
        rw [lookup, lookup, if_pos (by simpa using hApart), if_pos (by simpa using hApart)]

theorem find?_alter_self (t : Table κ β) (k : κ) (f : Option β → β) :
    (t.alter k f).find? k = some (f (t.find? k)) :=
  lookup_alterEntries_self t.ascending

theorem find?_alter_of_ne (t : Table κ β) {k k' : κ} (h : k ≠ k') (f : Option β → β) :
    (t.alter k f).find? k' = t.find? k' :=
  lookup_alterEntries_of_ne h

/-- A look-up after a change sees the change under its key and nothing else. -/
theorem find?_alter [DecidableEq κ] (t : Table κ β) (k k' : κ) (f : Option β → β) :
    (t.alter k f).find? k' = if k = k' then some (f (t.find? k)) else t.find? k' := by
  split
  · next h => subst h; exact find?_alter_self t k f
  · next h => exact find?_alter_of_ne t h f

theorem find?_map (t : Table κ β) (f : κ → β → γ) (k : κ) :
    (t.map f).find? k = (t.find? k).map (f k) := by
  obtain ⟨l, hl⟩ := t
  simp only [find?, map]
  clear hl
  induction l with
  | nil => rfl
  | cons head rest ih =>
    obtain ⟨a, b⟩ := head
    simp only [List.map_cons, lookup]
    split
    · exact ih
    · next h =>
      simp only [Bool.or_eq_true, not_or, Bool.not_eq_true] at h
      rw [Key.total h.1 h.2]
      rfl

theorem find?_filter (t : Table κ β) (p : κ → Bool) (k : κ) :
    (t.filter p).find? k = if p k then t.find? k else none := by
  obtain ⟨l, hl⟩ := t
  simp only [find?, filter]
  induction l with
  | nil => simp [lookup]
  | cons head rest ih =>
    obtain ⟨a, b⟩ := head
    obtain ⟨hHead, hRest⟩ := List.pairwise_cons.1 hl
    by_cases hk : Key.before k a || Key.before a k
    · rw [lookup, if_pos hk, ← ih hRest, List.filter_cons]
      split
      · rw [lookup, if_pos hk]
      · rfl
    · simp only [Bool.or_eq_true, not_or, Bool.not_eq_true] at hk
      have hEq : k = a := Key.total hk.1 hk.2
      subst hEq
      by_cases hp : p k
      · simp [hp, lookup, Key.irrefl]
      · rw [List.filter_cons_of_neg (by simpa using hp), if_neg hp]
        exact lookup_of_before fun e he => hHead e (List.mem_filter.1 he).1

/-- A look-up finds the entry with its key. -/
theorem find?_eq_some_iff {t : Table κ β} {k : κ} {b : β} :
    t.find? k = some b ↔ (k, b) ∈ t.entries := by
  obtain ⟨l, hl⟩ := t
  simp only [find?]
  induction l with
  | nil => simp [lookup]
  | cons head rest ih =>
    obtain ⟨a, b'⟩ := head
    obtain ⟨hHead, hRest⟩ := List.pairwise_cons.1 hl
    rw [lookup, List.mem_cons, ← ih hRest]
    split
    · next hApart =>
      have hNe : (k, b) ≠ (a, b') := by
        rintro ⟨⟩
        simp [Key.irrefl] at hApart
      simp [hNe]
    · next hSame =>
      simp only [Bool.or_eq_true, not_or, Bool.not_eq_true] at hSame
      have hEq : k = a := Key.total hSame.1 hSame.2
      subst hEq
      have hGone : lookup k rest = none := lookup_of_before hHead
      simp [hGone, eq_comm]

/-- The keys are those under which there is a value. -/
theorem mem_keys_iff {t : Table κ β} {k : κ} : k ∈ t.keys ↔ t.find? k ≠ none := by
  rw [← Option.isSome_iff_ne_none, Option.isSome_iff_exists, keys, List.mem_map]
  simp only [find?_eq_some_iff]
  constructor
  · rintro ⟨⟨a, b⟩, hMem, rfl⟩
    exact ⟨b, hMem⟩
  · rintro ⟨b, hMem⟩
    exact ⟨(k, b), hMem, rfl⟩

/-- The values of the entries with one key. -/
theorem filterMap_entries_eq [DecidableEq κ] (t : Table κ β) (k : κ) :
    t.entries.filterMap (fun e => if e.1 = k then some e.2 else none) = (t.find? k).toList := by
  obtain ⟨l, hl⟩ := t
  simp only [find?]
  induction l with
  | nil => rfl
  | cons head rest ih =>
    obtain ⟨a, b⟩ := head
    obtain ⟨hHead, hRest⟩ := List.pairwise_cons.1 hl
    by_cases hEq : a = k
    · subst hEq
      have hGone : lookup a rest = none := lookup_of_before hHead
      simp [ih hRest, hGone, lookup, Key.irrefl]
    · have hApart : Key.before k a = true ∨ Key.before a k = true := by
        by_cases hBefore : Key.before k a = true
        · exact .inl hBefore
        · refine .inr (Bool.not_eq_false _ ▸ fun hAfter => hEq ?_)
          exact Key.total hAfter (by simpa using hBefore)
      simp [ih hRest, hEq, lookup, hApart]

/-- Tables that answer every look-up alike are equal. -/
theorem ext_find? {s t : Table κ β} (h : ∀ k, s.find? k = t.find? k) : s = t := by
  obtain ⟨l, hl⟩ := s
  obtain ⟨m, hm⟩ := t
  refine ext (?_ : l = m)
  simp only [find?] at h
  induction l generalizing m with
  | nil =>
    cases m with
    | nil => rfl
    | cons head rest => simpa [lookup, Key.irrefl] using h head.1
  | cons head rest ih =>
    obtain ⟨a, b⟩ := head
    obtain ⟨hHead, hRest⟩ := List.pairwise_cons.1 hl
    cases m with
    | nil => simpa [lookup, Key.irrefl] using h a
    | cons head' rest' =>
      obtain ⟨a', b'⟩ := head'
      obtain ⟨hHead', hRest'⟩ := List.pairwise_cons.1 hm
      have hKey : a = a' := by
        cases h₁ : Key.before a a' with
        | true =>
          have hGone : lookup a rest' = none :=
            lookup_of_before fun e he => Key.trans h₁ (hHead' e he)
          simpa [lookup, Key.irrefl, h₁, hGone] using h a
        | false =>
          cases h₂ : Key.before a' a with
          | true =>
            have hGone : lookup a' rest = none :=
              lookup_of_before fun e he => Key.trans h₂ (hHead e he)
            simpa [lookup, Key.irrefl, h₂, hGone] using h a'
          | false => exact Key.total h₁ h₂
      subst hKey
      have hValue : b = b' := by simpa [lookup, Key.irrefl] using h a
      subst hValue
      refine congrArg ((a, b) :: ·) (ih hRest rest' hRest' fun k => ?_)
      by_cases hk : Key.before k a || Key.before a k
      · simpa [lookup, hk] using h k
      · simp only [Bool.or_eq_true, not_or, Bool.not_eq_true] at hk
        have hEq : k = a := Key.total hk.1 hk.2
        subst hEq
        rw [lookup_of_before hHead, lookup_of_before hHead']

/-- Of the entries that are put under one key the last stays. -/
theorem find?_foldl_insert {ε : Type} [DecidableEq κ] (key : ε → κ) (value : ε → β) (l : List ε)
    (t : Table κ β) (k : κ) :
    (l.foldl (fun t e => t.insert (key e) (value e)) t).find? k =
      ((l.reverse.find? fun e => key e = k).map value).or (t.find? k) := by
  induction l generalizing t with
  | nil => rfl
  | cons e rest ih =>
    rw [List.foldl_cons, ih, insert, find?_alter, List.reverse_cons, List.find?_append, Option.map_or,
      Option.or_assoc]
    by_cases hKey : key e = k <;> simp [hKey]

/-- Entries that are put under different keys all stay. -/
theorem find?_foldl_insert_of_mem {ε : Type} [DecidableEq κ] (key : ε → κ) (value : ε → β) {l : List ε}
    {t : Table κ β} {e : ε} (h : e ∈ l) (hApart : ∀ e' ∈ l, key e' = key e → e' = e) :
    (l.foldl (fun t e => t.insert (key e) (value e)) t).find? (key e) = some (value e) := by
  rw [find?_foldl_insert]
  cases hFound : l.reverse.find? fun e' => key e' = key e with
  | none =>
    rw [List.find?_eq_none] at hFound
    simpa using hFound e (List.mem_reverse.2 h)
  | some e' =>
    have hKey : key e' = key e := by simpa using List.find?_some hFound
    rw [hApart e' (List.mem_reverse.1 (List.mem_of_find?_eq_some hFound)) hKey]
    rfl

theorem find?_foldl_insert_of_not_mem {ε : Type} [DecidableEq κ] {key : ε → κ} {value : ε → β}
    {l : List ε} {t : Table κ β} {k : κ} (h : ∀ e ∈ l, key e ≠ k) :
    (l.foldl (fun t e => t.insert (key e) (value e)) t).find? k = t.find? k := by
  have hNone : (l.reverse.find? fun e => key e = k) = none := by
    rw [List.find?_eq_none]
    intro e he
    simpa using h e (List.mem_reverse.1 he)
  rw [find?_foldl_insert, hNone]
  rfl

/-- A table is filled again by its entries. -/
theorem ofList_entries [DecidableEq κ] (t : Table κ β) : ofList t.entries = t := by
  apply ext_find?
  intro k
  rw [ofList]
  cases hFind : t.find? k with
  | some b =>
    have hMem := find?_eq_some_iff.1 hFind
    refine find?_foldl_insert_of_mem Prod.fst Prod.snd (e := (k, b)) hMem ?_
    rintro ⟨k', b'⟩ hMem' hKey
    have hSame : t.find? k' = some b' := find?_eq_some_iff.2 hMem'
    cases hKey
    rw [hFind] at hSame
    cases hSame
    rfl
  | none =>
    refine (find?_foldl_insert_of_not_mem ?_).trans (find?_empty k)
    rintro ⟨k', b'⟩ hMem hKey
    rw [← hKey, find?_eq_some_iff.2 hMem] at hFind
    cases hFind

/-- What is read off the entries of two tables is the same if nothing is read under a key whose
values differ. -/
theorem filterMap_entries_congr {s t : Table κ β} {f : κ × β → Option γ}
    (h : ∀ k, s.find? k ≠ t.find? k → ∀ b, f (k, b) = none) :
    s.entries.filterMap f = t.entries.filterMap f := by
  classical
  let same (k : κ) : Bool := decide (s.find? k = t.find? k)
  have hSame : s.filter same = t.filter same := by
    apply ext_find?
    intro k
    rw [find?_filter, find?_filter]
    split
    · rename_i hk
      exact of_decide_eq_true hk
    · rfl
  have hDrop : (fun e : κ × β => if same e.1 then f e else none) = f := by
    funext ⟨k, b⟩
    split
    · rfl
    · rename_i hk
      exact (h k (fun hEq => hk (decide_eq_true hEq)) b).symm
  have hRead (u : Table κ β) : (u.filter same).entries.filterMap f = u.entries.filterMap f := by
    rw [filter, List.filterMap_filter, hDrop]
  rw [← hRead s, ← hRead t, hSame]

end Table

end Loadout
