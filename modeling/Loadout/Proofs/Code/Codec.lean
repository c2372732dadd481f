import Loadout.Proofs.Code.Digits

/-!
# Codes and their texts

A code and its text are two forms of one row of slots: the ids in the slots, and their digits. What writing
adds and reading takes away is the zeros in slots without a mod, so an id of zero among the mods is lost, and
an empty slot before a filled one ends up behind it. Nothing else is.

* `encode_eq_ok_iff`: the row of slots that a code is written as (`slotIds`);
* `decode_eq_ok_iff`: the row of slots that a text is read as, and the code of a row (`ofSlots`);
* `ofSlots_slotIds`, `slotIds_ofSlots`: there and back, and back and there;
* `encode_decode_spec`: which codes and texts there are, and what becomes of them.
-/

namespace Loadout.LoadoutCode

/-! ## Rows of slots -/

theorem length_chunks (count : Nat) (text : List Char) : (chunks count text).length = count := by
  induction count generalizing text with
  | zero => rfl
  | succ count ih => rw [chunks, List.length_cons, ih]

/-- Slots of their width are found again in the text that they make up. -/
theorem chunks_flatten {parts : List (List Char)} (h : ∀ part ∈ parts, part.length = width) :
    chunks parts.length parts.flatten = parts := by
  induction parts with
  | nil => rfl
  | cons part rest ih =>
    have hPart := h part List.mem_cons_self
    rw [List.length_cons, chunks, List.flatten_cons, List.take_left' hPart, List.drop_left' hPart,
      ih fun p hp => h p (List.mem_cons_of_mem _ hp)]

theorem flatten_chunks {count : Nat} {text : List Char} (h : text.length = count * width) :
    (chunks count text).flatten = text ∧ ∀ part ∈ chunks count text, part.length = width := by
  induction count generalizing text with
  | zero =>
    rw [Nat.zero_mul, List.length_eq_zero_iff] at h
    subst h
    exact ⟨rfl, fun part hp => (by cases hp)⟩
  | succ count ih =>
    rw [Nat.succ_mul] at h
    have hRest : (text.drop width).length = count * width := by
      rw [List.length_drop]
      omega
    obtain ⟨hFlatten, hWidth⟩ := ih hRest
    refine ⟨by rw [chunks, List.flatten_cons, hFlatten, List.take_append_drop], ?_⟩
    intro part hp
    rcases List.mem_cons.mp hp with rfl | hp
    · rw [List.length_take]
      omega
    · exact hWidth part hp

theorem chunks_flatMap_digits (ids : List Nat) :
    chunks ids.length (ids.flatMap (digits width)) = ids.map (digits width) := by
  have hWidth : ∀ part ∈ ids.map (digits width), part.length = width := by
    intro part hp
    obtain ⟨id, -, rfl⟩ := List.mem_map.mp hp
    exact length_digits width id
  have hChunks := chunks_flatten hWidth
  rw [List.length_map] at hChunks
  rw [List.flatMap_def, hChunks]

theorem length_flatMap_digits (ids : List Nat) :
    (ids.flatMap (digits width)).length = ids.length * width := by
  induction ids with
  | nil => rfl
  | cons id rest ih =>
    rw [List.flatMap_cons, List.length_append, length_digits, ih, List.length_cons, Nat.succ_mul,
      Nat.add_comm]

/-- The slots before those of a category. -/
def start : ModCategory → Nat
  | .character => 3
  | .melee => 11
  | .ranged => 19
  | .resonance => 27

/-- The slots of a category in a row of slots. -/
def slotsOf {α : Type} (c : ModCategory) (row : List α) : List α := (row.drop (start c)).take c.cap

/-- A row of slots with the empty slots of each category moved behind the others. -/
def gather {α : Type} (empty : α → Bool) (row : List α) : List α :=
  row.take 3 ++ ModCategory.all.flatMap fun c =>
    ((slotsOf c row).filter fun slot => !empty slot) ++ (slotsOf c row).filter empty

theorem mem_of_mem_slotsOf {α : Type} {c : ModCategory} {row : List α} {slot : α}
    (h : slot ∈ slotsOf c row) : slot ∈ row := List.mem_of_mem_drop (List.mem_of_mem_take h)

theorem length_slotsOf {α : Type} {row : List α} (h : row.length = slots) (c : ModCategory) :
    (slotsOf c row).length = c.cap := by
  rw [slotsOf, List.length_take, List.length_drop, h]
  cases c <;> rfl

theorem gather_map {α β : Type} (f : α → β) {empty : α → Bool} {empty' : β → Bool} {row : List α}
    (h : ∀ slot ∈ row, empty' (f slot) = empty slot) :
    gather empty' (row.map f) = (gather empty row).map f := by
  have hSlots (c : ModCategory) : slotsOf c (row.map f) = (slotsOf c row).map f := by
    rw [slotsOf, slotsOf, List.map_take, List.map_drop]
  have hFilter (c : ModCategory) : ((slotsOf c row).map f).filter empty' =
      ((slotsOf c row).filter empty).map f := by
    rw [List.filter_map]
    exact congrArg _ (List.filter_congr fun slot hs => h slot (mem_of_mem_slotsOf hs))
  have hFilterNot (c : ModCategory) : (((slotsOf c row).map f).filter fun slot => !empty' slot) =
      ((slotsOf c row).filter fun slot => !empty slot).map f := by
    rw [List.filter_map]
    refine congrArg _ (List.filter_congr fun slot hs => ?_)
    rw [Function.comp_apply, h slot (mem_of_mem_slotsOf hs)]
  simp only [gather, hSlots, hFilter, hFilterNot, List.map_append, List.map_flatMap, List.map_take]

/-! ## Writing -/

/-- All ids of a code. -/
def ids (code : LoadoutCode) : List Nat :=
  [code.character, code.melee, code.ranged] ++ ModCategory.all.flatMap code.mods.get

/-- The ids in the slots of a code. -/
def slotIds (code : LoadoutCode) : List Nat :=
  [code.character, code.melee, code.ranged] ++
    ModCategory.all.flatMap fun c => fill c (code.mods.get c)

/-- A code whose ids have digits enough, and whose mods have slots. -/
structure Fits (code : LoadoutCode) : Prop where
  id_lt : ∀ id ∈ code.ids, id < radix ^ width
  length_le : ∀ c, (code.mods.get c).length ≤ c.cap

/-- A code fits if its heads do and the mods of each category do. -/
theorem fits_iff {code : LoadoutCode} :
    code.Fits ↔ (∀ id ∈ [code.character, code.melee, code.ranged], id < radix ^ width) ∧
      ∀ c ∈ ModCategory.all, (code.mods.get c).length ≤ c.cap ∧
        ∀ id ∈ code.mods.get c, id < radix ^ width := by
  constructor
  · rintro ⟨hIds, hLength⟩
    refine ⟨fun id hId => hIds id (List.mem_append_left _ hId), fun c hc => ⟨hLength c, fun id hId => ?_⟩⟩
    exact hIds id (List.mem_append_right _ (List.mem_flatMap.mpr ⟨c, hc, hId⟩))
  · rintro ⟨hHeads, hMods⟩
    refine ⟨fun id hId => ?_, fun c => (hMods c c.mem_all).1⟩
    rcases List.mem_append.mp hId with hId | hId
    · exact hHeads id hId
    · obtain ⟨c, hc, hId⟩ := List.mem_flatMap.mp hId
      exact (hMods c hc).2 id hId

theorem mem_fill {c : ModCategory} {ids : List Nat} {id : Nat} (h : id ∈ fill c ids) :
    id ∈ ids ∨ id = 0 := by
  rcases List.mem_append.mp h with h | h
  · exact .inl h
  · exact .inr (List.mem_replicate.mp h).2

theorem length_fill {c : ModCategory} {ids : List Nat} (h : ids.length ≤ c.cap) :
    (fill c ids).length = c.cap := by
  rw [fill, List.length_append, List.length_replicate, Nat.add_sub_cancel' h]

theorem length_slotIds {code : LoadoutCode} (h : ∀ c, (code.mods.get c).length ≤ c.cap) :
    code.slotIds.length = slots := by
  have hFill (c : ModCategory) := length_fill (h c)
  simp [slotIds, ModCategory.all, hFill, ModCategory.cap, slots]

theorem Fits.slotIds_lt {code : LoadoutCode} (h : code.Fits) : ∀ id ∈ code.slotIds, id < radix ^ width := by
  intro id hId
  rcases List.mem_append.mp hId with hId | hId
  · exact h.id_lt id (List.mem_append_left _ hId)
  · obtain ⟨c, hc, hId⟩ := List.mem_flatMap.mp hId
    rcases mem_fill hId with hId | rfl
    · exact h.id_lt id (List.mem_append_right _ (List.mem_flatMap.mpr ⟨c, hc, hId⟩))
    · decide

theorem filter_fill (c : ModCategory) (ids : List Nat) :
    (fill c ids).filter (· != 0) = ids.filter (· != 0) := by
  simp [fill, List.filter_append]

/-- The mods of a category have digits, or they do not fit. -/
theorem encodeMods_eq_ok_iff {c : ModCategory} {ids : List Nat} {text : List Char} :
    encodeMods c ids = .ok text ↔
      (ids.length ≤ c.cap ∧ ∀ id ∈ ids, id < radix ^ width) ∧
        (fill c ids).flatMap (digits width) = text := by
  have hFill : (∀ id ∈ fill c ids, id < radix ^ width) ↔ ∀ id ∈ ids, id < radix ^ width := by
    refine ⟨fun h id hId => h id (List.mem_append_left _ hId), fun h id hId => ?_⟩
    rcases mem_fill hId with hId | rfl
    · exact h id hId
    · decide
  unfold encodeMods
  split
  · next hCap => exact ⟨fun h => (by cases h), fun h => absurd h.1.1 (by omega)⟩
  · next hCap =>
    dsimp only
    simp only [bind_eq_ok_iff, mapM_encodeId_eq_ok_iff, hFill]
    constructor
    · rintro ⟨parts, ⟨hIds, rfl⟩, h⟩
      cases h
      exact ⟨⟨by omega, hIds⟩, List.flatMap_def.symm⟩
    · rintro ⟨⟨-, hIds⟩, rfl⟩
      exact ⟨_, ⟨hIds, rfl⟩, by rw [List.flatMap_def]; rfl⟩

/-- A code that fits is written as the digits of the ids in its slots, and no other is written. -/
theorem encode_eq_ok_iff {code : LoadoutCode} {text : String} :
    code.encode = .ok text ↔ code.Fits ∧ String.ofList (code.slotIds.flatMap (digits width)) = text := by
  have hMods (parts : List (List Char)) :
      (ModCategory.all.mapM fun c => encodeMods c (code.mods.get c)) = .ok parts ↔
        (∀ c ∈ ModCategory.all, (code.mods.get c).length ≤ c.cap ∧
          ∀ id ∈ code.mods.get c, id < radix ^ width) ∧
        (ModCategory.all.map fun c => (fill c (code.mods.get c)).flatMap (digits width)) = parts :=
    mapM_eq_ok_iff fun c part => encodeMods_eq_ok_iff
  have hText : code.slotIds.flatMap (digits width) =
      ([code.character, code.melee, code.ranged].map (digits width)).flatten ++
        (ModCategory.all.map fun c => (fill c (code.mods.get c)).flatMap (digits width)).flatten := by
    rw [slotIds, List.flatMap_append, ← List.flatMap_def, ← List.flatMap_def, List.flatMap_assoc]
  unfold encode
  simp only [bind_eq_ok_iff, mapM_encodeId_eq_ok_iff, hMods]
  rw [fits_iff, hText]
  constructor
  · rintro ⟨heads, ⟨hHeads, rfl⟩, mods, ⟨hCategories, rfl⟩, h⟩
    cases h
    exact ⟨⟨hHeads, hCategories⟩, rfl⟩
  · rintro ⟨⟨hHeads, hCategories⟩, rfl⟩
    exact ⟨_, ⟨hHeads, rfl⟩, _, ⟨hCategories, rfl⟩, rfl⟩

/-! ## Reading -/

/-- The code of a row of slots. -/
def ofSlots (row : List Nat) : LoadoutCode where
  character := row.headD 0
  melee := (row.drop 1).headD 0
  ranged := (row.drop 2).headD 0
  mods := takeMods (row.drop 3)

/-- The texts of codes. -/
structure IsCode (text : List Char) : Prop where
  length_eq : text.length = 124
  isNumeral : ∀ c ∈ text, IsNumeral c

theorem IsNumeral.toNat_lt {c : Char} (h : IsNumeral c) : 48 ≤ c.toNat ∧ c.toNat < 91 := by
  rcases h with h | h
  · have hRange : 48 ≤ c.toNat ∧ c.toNat ≤ 57 := Char.isDigit_iff_toNat.mp h
    omega
  · have hRange := isUpper_iff_toNat.mp h
    omega

theorem IsNumeral.isBlank_eq {c : Char} (h : IsNumeral c) : Text.isBlank c = false := by
  have hTable : ∀ n < 91, 48 ≤ n → Text.within Text.blank n = false := by decide
  exact hTable _ h.toNat_lt.2 h.toNat_lt.1

theorem exists_mapM_digitValue? {chunk : List Char} (h : ∀ c ∈ chunk, IsNumeral c) :
    ∃ values, chunk.mapM digitValue? = some values := by
  induction chunk with
  | nil => exact ⟨[], rfl⟩
  | cons c rest ih =>
    obtain ⟨d, hd⟩ := isNumeral_iff.mp (h c List.mem_cons_self)
    obtain ⟨values, hValues⟩ := ih fun c' hc => h c' (List.mem_cons_of_mem _ hc)
    exact ⟨d :: values, by simp [List.mapM_cons, hd, hValues]⟩

/-- Slots that hold digits hold those of a row of ids. -/
theorem exists_row {parts : List (List Char)} (hWidth : ∀ part ∈ parts, part.length = width)
    (hNumeral : ∀ part ∈ parts, ∀ c ∈ part, IsNumeral c) :
    ∃ row : List Nat, (∀ id ∈ row, id < radix ^ width) ∧ row.map (digits width) = parts := by
  induction parts with
  | nil => exact ⟨[], fun id hId => (by cases hId), rfl⟩
  | cons part rest ih =>
    obtain ⟨row, hRow, rfl⟩ := ih (fun p hp => hWidth p (List.mem_cons_of_mem _ hp))
      fun p hp => hNumeral p (List.mem_cons_of_mem _ hp)
    obtain ⟨values, hValues⟩ := exists_mapM_digitValue? (hNumeral part List.mem_cons_self)
    obtain ⟨hLt, hDigits⟩ := digits_of_mapM hValues
    rw [hWidth part List.mem_cons_self] at hLt hDigits
    exact ⟨ofDigits values :: row, List.forall_mem_cons.mpr ⟨hLt, hRow⟩, by rw [List.map_cons, hDigits]⟩

/-- The texts of codes are the digits of rows of 31 ids. -/
theorem isCode_iff {text : List Char} :
    IsCode text ↔ ∃ row : List Nat, row.length = slots ∧ (∀ id ∈ row, id < radix ^ width) ∧
      row.flatMap (digits width) = text := by
  constructor
  · intro h
    have hLength : text.length = slots * width := h.length_eq
    obtain ⟨hFlatten, hWidth⟩ := flatten_chunks hLength
    have hNumeral : ∀ part ∈ chunks slots text, ∀ c ∈ part, IsNumeral c := by
      intro part hp c hc
      apply h.isNumeral
      rw [← hFlatten]
      exact List.mem_flatten.mpr ⟨part, hp, hc⟩
    obtain ⟨row, hRow, hParts⟩ := exists_row hWidth hNumeral
    refine ⟨row, ?_, hRow, ?_⟩
    · rw [← List.length_map (digits width), hParts, length_chunks]
    · rw [List.flatMap_def, hParts]
      exact hFlatten
  · rintro ⟨row, hLength, -, rfl⟩
    refine ⟨by rw [length_flatMap_digits, hLength]; rfl, fun c hc => ?_⟩
    obtain ⟨id, -, hc⟩ := List.mem_flatMap.mp hc
    exact isNumeral_of_mem_digits hc

/-- There is no white space around a code to take away. -/
theorem IsCode.trim_eq {text : List Char} (h : IsCode text) : trim text = text := by
  have hDrop (l : List Char) (hl : ∀ c ∈ l, IsNumeral c) : l.dropWhile Text.isBlank = l := by
    cases l with
    | nil => rfl
    | cons c rest =>
      rw [List.dropWhile_cons_of_neg]
      simp [(hl c List.mem_cons_self).isBlank_eq]
  have hReverse : ∀ c ∈ text.reverse, IsNumeral c := fun c hc => h.isNumeral c (List.mem_reverse.mp hc)
  rw [trim, hDrop text h.isNumeral, hDrop _ hReverse, List.reverse_reverse]

/-- A text is read as the ids whose digits it is made of, white space apart. -/
theorem decode_eq_ok_iff {text : String} {code : LoadoutCode} :
    decode text = .ok code ↔ ∃ row : List Nat, row.length = slots ∧ (∀ id ∈ row, id < radix ^ width) ∧
      row.flatMap (digits width) = trim text.toList ∧ ofSlots row = code := by
  unfold decode
  dsimp only
  generalize trim text.toList = t
  split
  · next hBad =>
    refine ⟨fun h => (by cases h), ?_⟩
    rintro ⟨row, hLength, hRow, hText, -⟩
    have hCode : IsCode t := isCode_iff.mpr ⟨row, hLength, hRow, hText⟩
    have hAscii : t.all (·.toNat < 128) = true := by
      rw [List.all_eq_true]
      intro c hc
      have hRange := (hCode.isNumeral c hc).toNat_lt
      simp only [decide_eq_true_eq]
      omega
    have hSlots : t.length = slots * width := hCode.length_eq
    simp [hAscii, hSlots] at hBad
  · next hGood =>
    have hLength : t.length = slots * width := by
      simp only [Bool.or_eq_true, not_or, bne_iff_ne, ne_eq, not_not] at hGood
      exact hGood.2
    obtain ⟨hFlatten, hWidth⟩ := flatten_chunks hLength
    rw [bind_eq_ok_iff]
    simp only [mapM_decodeId_eq_ok_iff hWidth]
    constructor
    · rintro ⟨row, ⟨hRow, hParts⟩, h⟩
      cases h
      refine ⟨row, ?_, hRow, ?_, rfl⟩
      · rw [← List.length_map (digits width), hParts, length_chunks]
      · rw [List.flatMap_def, hParts, hFlatten]
    · rintro ⟨row, hSlots, hRow, rfl, rfl⟩
      refine ⟨row, ⟨hRow, ?_⟩, rfl⟩
      rw [← hSlots, chunks_flatMap_digits]

/-! ## There and back -/

theorem get_takeMods (row : List Nat) (c : ModCategory) :
    (takeMods (row.drop 3)).get c = (slotsOf c row).filter (· != 0) := by
  cases c <;> simp [takeMods, PerCategory.get, slotsOf, start, List.drop_drop]

/-- A code without the zeros among its mods. -/
def withoutZeros (code : LoadoutCode) : LoadoutCode :=
  { code with mods := code.mods.map fun ids => ids.filter (· != 0) }

theorem withoutZeros_eq {code : LoadoutCode} (h : ∀ c, 0 ∉ code.mods.get c) : code.withoutZeros = code := by
  have hMods : (code.mods.map fun ids => ids.filter (· != 0)) = code.mods := by
    apply PerCategory.ext_get
    intro c
    rw [PerCategory.get_map, List.filter_eq_self]
    intro id hId
    rw [bne_iff_ne]
    rintro rfl
    exact h c hId
  rw [withoutZeros, hMods]

theorem slotsOf_slotIds {code : LoadoutCode} (h : ∀ c, (code.mods.get c).length ≤ c.cap) (c : ModCategory) :
    slotsOf c code.slotIds = fill c (code.mods.get c) := by
  have hFill (c : ModCategory) := length_fill (h c)
  cases c <;>
    simp [slotsOf, slotIds, start, ModCategory.all, hFill, ModCategory.cap, List.drop_append,
      List.drop_eq_nil_of_le, List.take_of_length_le]

/-- Back from the slots there are all ids but the zeros. -/
theorem ofSlots_slotIds {code : LoadoutCode} (h : ∀ c, (code.mods.get c).length ≤ c.cap) :
    ofSlots code.slotIds = code.withoutZeros := by
  have hMods : takeMods (code.slotIds.drop 3) = code.mods.map fun ids => ids.filter (· != 0) := by
    apply PerCategory.ext_get
    intro c
    rw [get_takeMods, slotsOf_slotIds h, filter_fill, PerCategory.get_map]
  rw [ofSlots, hMods]
  rfl

/-- The mods that are read from the slots of a category are written with the empty slots behind. -/
theorem fill_filter {row : List Nat} (h : row.length = slots) (c : ModCategory) :
    fill c ((slotsOf c row).filter (· != 0)) =
      ((slotsOf c row).filter (· != 0)) ++ (slotsOf c row).filter (· == 0) := by
  have hLength := List.length_eq_length_filter_add (l := slotsOf c row) (· != 0)
  have hZeros : (slotsOf c row).filter (fun id => !(id != 0)) = (slotsOf c row).filter (· == 0) := by
    simp only [bne, Bool.not_not]
  rw [length_slotsOf h, hZeros, List.filter_beq, List.length_replicate] at hLength
  rw [fill, List.filter_beq, hLength, Nat.add_sub_cancel_left]

/-- Back from the code there is the row of slots with the empty slots of each category moved behind. -/
theorem slotIds_ofSlots {row : List Nat} (h : row.length = slots) :
    (ofSlots row).slotIds = gather (· == 0) row := by
  have hHeads : row.take 3 = [(ofSlots row).character, (ofSlots row).melee, (ofSlots row).ranged] := by
    match row with
    | x :: y :: z :: rest => rfl
  have hMods (c : ModCategory) : fill c ((ofSlots row).mods.get c) =
      ((slotsOf c row).filter (· != 0)) ++ (slotsOf c row).filter (· == 0) := by
    rw [← fill_filter h, ← get_takeMods]
    rfl
  simp only [slotIds, hMods, gather, hHeads]
  rfl

/-- A row of slots holds no more ids than it has, and none that is wider. -/
theorem fits_ofSlots {row : List Nat} (h : row.length = slots) (hRow : ∀ id ∈ row, id < radix ^ width) :
    (ofSlots row).Fits := by
  have hMods (c : ModCategory) : (ofSlots row).mods.get c = (slotsOf c row).filter (· != 0) :=
    get_takeMods row c
  constructor
  · intro id hId
    rcases List.mem_append.mp hId with hId | hId
    · match row with
      | x :: y :: z :: rest => exact hRow id (List.mem_append_left rest hId)
    · obtain ⟨c, -, hId⟩ := List.mem_flatMap.mp hId
      rw [hMods c] at hId
      exact hRow id (mem_of_mem_slotsOf (List.mem_filter.mp hId).1)
  · intro c
    rw [hMods c, ← length_slotsOf h c]
    exact List.length_filter_le _ _

/-- Four zeros. -/
def emptySlot : List Char := ['0', '0', '0', '0']

/-- The text of a code with the empty slots of each category moved behind the others. -/
def gatherText (text : List Char) : List Char := (gather (· == emptySlot) (chunks slots text)).flatten

theorem digits_beq_emptySlot {id : Nat} (h : id < radix ^ width) :
    (digits width id == emptySlot) = (id == 0) := by
  have hZero : digits width 0 = emptySlot := rfl
  rw [Bool.eq_iff_iff, beq_iff_eq, beq_iff_eq]
  constructor
  · intro hDigits
    exact digits_inj h (by decide) (hDigits.trans hZero.symm)
  · rintro rfl
    exact hZero

theorem gatherText_flatMap_digits {row : List Nat} (hLength : row.length = slots)
    (hRow : ∀ id ∈ row, id < radix ^ width) :
    gatherText (row.flatMap (digits width)) = (gather (· == 0) row).flatMap (digits width) := by
  have hEmpty : ∀ id ∈ row, (digits width id == emptySlot) = (id == 0) :=
    fun id hId => digits_beq_emptySlot (hRow id hId)
  rw [gatherText, ← hLength, chunks_flatMap_digits, gather_map (digits width) hEmpty, List.flatMap_def]

/-! ## The codec -/

/-- What is written is read again, without the zeros among the mods. -/
theorem decode_encode {code : LoadoutCode} {text : String} (h : code.encode = .ok text) :
    IsCode text.toList ∧ decode text = .ok code.withoutZeros := by
  obtain ⟨hFits, rfl⟩ := encode_eq_ok_iff.mp h
  have hRow := hFits.slotIds_lt
  have hSlots := length_slotIds hFits.length_le
  have hCode : IsCode (String.ofList (code.slotIds.flatMap (digits width))).toList := by
    rw [String.toList_ofList]
    exact isCode_iff.mpr ⟨_, hSlots, hRow, rfl⟩
  refine ⟨hCode, ?_⟩
  rw [decode_eq_ok_iff, hCode.trim_eq, String.toList_ofList]
  exact ⟨_, hSlots, hRow, rfl, ofSlots_slotIds hFits.length_le⟩

/-- An id has digits enough just when it is at most the largest that has. -/
theorem forall_le_iff_lt {ids : List Nat} :
    (∀ id ∈ ids, id ≤ 36 ^ 4 - 1) ↔ ∀ id ∈ ids, id < radix ^ width :=
  forall₂_congr fun id _ => (Nat.lt_iff_le_pred (by decide)).symm

/-- A code is written just when its ids have four digits and its mods have slots. The text is 124 digits, and
is read as the code without the zeros among its mods. A text is read just when it is 124 digits, white space
around them apart, and the code is written as these digits with the empty slots of each category moved behind
the others. -/
theorem encode_decode_spec :
    (∀ code : LoadoutCode,
      ((∃ text, code.encode = .ok text) ↔
        (∀ id ∈ code.ids, id ≤ 36 ^ 4 - 1) ∧ ∀ c, (code.mods.get c).length ≤ c.cap) ∧
      ∀ text, code.encode = .ok text →
        IsCode text.toList ∧ decode text = .ok code.withoutZeros ∧
          ((∀ c, 0 ∉ code.mods.get c) → code.withoutZeros = code)) ∧
    ∀ text : String,
      ((∃ code, decode text = .ok code) ↔ IsCode (trim text.toList)) ∧
      ∀ code, decode text = .ok code → code.encode = .ok (String.ofList (gatherText (trim text.toList))) := by
  constructor
  · intro code
    refine ⟨⟨?_, ?_⟩, ?_⟩
    · rintro ⟨text, hText⟩
      obtain ⟨hFits, -⟩ := encode_eq_ok_iff.mp hText
      exact ⟨forall_le_iff_lt.mpr hFits.id_lt, hFits.length_le⟩
    · rintro ⟨hRange, hLength⟩
      exact ⟨_, encode_eq_ok_iff.mpr ⟨⟨forall_le_iff_lt.mp hRange, hLength⟩, rfl⟩⟩
    · intro text hText
      obtain ⟨hCode, hDecode⟩ := decode_encode hText
      exact ⟨hCode, hDecode, withoutZeros_eq⟩
  · intro text
    refine ⟨⟨?_, ?_⟩, ?_⟩
    · rintro ⟨code, hCode⟩
      obtain ⟨row, hLength, hRow, hText, -⟩ := decode_eq_ok_iff.mp hCode
      exact isCode_iff.mpr ⟨row, hLength, hRow, hText⟩
    · intro hCode
      obtain ⟨row, hLength, hRow, hText⟩ := isCode_iff.mp hCode
      exact ⟨_, decode_eq_ok_iff.mpr ⟨row, hLength, hRow, hText, rfl⟩⟩
    · intro code hCode
      obtain ⟨row, hLength, hRow, hText, rfl⟩ := decode_eq_ok_iff.mp hCode
      rw [encode_eq_ok_iff, ← hText, gatherText_flatMap_digits hLength hRow, slotIds_ofSlots hLength]
      exact ⟨fits_ofSlots hLength hRow, rfl⟩

end Loadout.LoadoutCode
