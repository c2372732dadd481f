import Loadout.Number.Binary
import Loadout.Proofs.Build.Traced

/-!
# What conditions are about

A condition is about the attribute that its subject names, or about the mods of a polarity when its subject is a
capital letter. A subject that does neither is refused, but only if it does not begin with a capital letter: what
follows the first letter is not looked at. So the name of an attribute that is misspelt with a capital in front
counts the mods of a polarity, and everything else is as it should be.

* `Condition.subject?_eq_some_iff`: what a subject is read as;
* `Mod.ofRecord_eq_error_iff`: a mod is refused for the first of its subjects that cannot be read;
* `Mod.ofRecord_conditions`: the conditions of a mod are those of its record, unless a subject is overlong;
* `Mod.ofRecord_counts_misspelt`: a mod with an overlong subject.
-/

namespace Loadout

/-! ## Subjects -/

/-- A text is the name or the alias of an attribute. -/
def Attribute.Named (a : Attribute) (s : String) : Prop := a.name = s ∨ a.asciiName = s

theorem Attribute.ofName?_eq_some_iff {s : String} {a : Attribute} : ofName? s = some a ↔ a.Named s := by
  constructor
  · intro h
    simpa [Named] using List.find?_some h
  · rintro (rfl | rfl)
    · exact ofName?_name a
    · exact ofName?_asciiName a

theorem Attribute.ofName?_eq_none_iff {s : String} : ofName? s = none ↔ ∀ a : Attribute, ¬ a.Named s := by
  simp only [Option.eq_none_iff_forall_ne_some, ne_eq, ofName?_eq_some_iff]

/-- No attribute is named by a single character. -/
theorem Attribute.not_named_singleton (a : Attribute) (c : Char) : ¬ a.Named (String.singleton c) := by
  have hLength : a.name.length ≠ 1 ∧ a.asciiName.length ≠ 1 := by cases a <;> decide
  rintro (h | h)
  · exact hLength.1 (h ▸ String.length_singleton)
  · exact hLength.2 (h ▸ String.length_singleton)

namespace ConditionSubject

/-- What a text says that a condition is about: an attribute by its name or alias, or a polarity by its letter. -/
inductive Meant : ConditionSubject → String → Prop
  | byName {a : Attribute} {s : String} (named : a.Named s) : Meant (.attribute a) s
  | byLetter {letter : Char} (capital : letter.isUpper = true) :
      Meant (.polarity letter) (String.singleton letter)

/-- A text that begins with a capital letter and goes on, without naming an attribute. -/
structure Overlong (letter : Char) (s : String) : Prop where
  capital : letter.isUpper = true
  exists_rest : ∃ c rest, s.toList = letter :: c :: rest
  not_named : ∀ a : Attribute, ¬ a.Named s

/-- A text that says nothing and is not taken for a letter either. -/
def Unreadable (s : String) : Prop := (∀ subject, ¬ Meant subject s) ∧ ∀ letter, ¬ Overlong letter s

theorem Overlong.not_meant {letter : Char} {s : String} (h : Overlong letter s) (subject : ConditionSubject) :
    ¬ Meant subject s := by
  rintro (hNamed | hCapital)
  · exact h.not_named _ hNamed
  · obtain ⟨c, rest, hList⟩ := h.exists_rest
    rw [String.toList_singleton] at hList
    cases hList

end ConditionSubject

namespace Condition

open ConditionSubject

theorem subject?_of_not_named {s : String} (h : ∀ a : Attribute, ¬ a.Named s) {subject : ConditionSubject} :
    subject? s = some subject ↔
      ∃ letter rest, s.toList = letter :: rest ∧ letter.isUpper = true ∧ .polarity letter = subject := by
  rw [subject?, Attribute.ofName?_eq_none_iff.mpr h]
  cases s.toList with
  | nil => simp
  | cons letter rest => simp

/-- A subject is read as what it says, and an overlong one as its first letter. -/
theorem subject?_eq_some_iff {s : String} {subject : ConditionSubject} : subject? s = some subject ↔
    Meant subject s ∨ ∃ letter, Overlong letter s ∧ subject = .polarity letter := by
  by_cases hNamed : ∃ a : Attribute, a.Named s
  · obtain ⟨a, ha⟩ := hNamed
    have hRead : subject? s = some (.attribute a) := by
      rw [subject?, Attribute.ofName?_eq_some_iff.mpr ha]
    rw [hRead, Option.some.injEq]
    constructor
    · rintro rfl
      exact .inl (.byName ha)
    · rintro (hMeant | ⟨letter, hOverlong, -⟩)
      · cases hMeant with
        | byName hOther =>
          rw [← Attribute.ofName?_eq_some_iff] at ha hOther
          rw [ha] at hOther
          rw [Option.some.inj hOther]
        | byLetter => exact absurd ha (a.not_named_singleton _)
      · exact absurd ha (hOverlong.not_named a)
  · push Not at hNamed
    rw [subject?_of_not_named hNamed]
    constructor
    · rintro ⟨letter, rest, hList, hCapital, rfl⟩
      cases rest with
      | nil =>
        have hSingle : s = String.singleton letter :=
          String.toList_inj.mp (hList.trans (String.toList_singleton letter).symm)
        exact .inl (hSingle ▸ .byLetter hCapital)
      | cons c rest => exact .inr ⟨letter, ⟨hCapital, ⟨c, rest, hList⟩, hNamed⟩, rfl⟩
    · rintro (hMeant | ⟨letter, ⟨hCapital, ⟨c, rest, hList⟩, -⟩, rfl⟩)
      · cases hMeant with
        | byName hOther => exact absurd hOther (hNamed _)
        | byLetter hCapital => exact ⟨_, [], String.toList_singleton _, hCapital, rfl⟩
      · exact ⟨letter, c :: rest, hList, hCapital, rfl⟩

theorem subject?_eq_none_iff {s : String} : subject? s = none ↔ Unreadable s := by
  simp only [Option.eq_none_iff_forall_ne_some, ne_eq, subject?_eq_some_iff, not_or, not_exists, not_and, Unreadable,
    forall_and]
  refine and_congr_right fun _ => ⟨fun h letter hOverlong => ?_, fun h _ letter hOverlong => ?_⟩
  · exact h _ letter hOverlong rfl
  · exact absurd hOverlong (h letter)

variable {K : Type}

theorem ofRecord_eq_error_iff {mod : String} {r : ConditionRecord K} {e : BuildError} :
    ofRecord mod r = .error e ↔ Unreadable r.subject ∧ e = .invalidData (.unknownSubject mod r.subject) := by
  rw [← subject?_eq_none_iff, ofRecord]
  cases subject? r.subject with
  | none => simp [eq_comm]
  | some subject => simp

theorem ofRecord_eq_ok_iff {mod : String} {r : ConditionRecord K} {condition : Condition K} :
    ofRecord mod r = .ok condition ↔
      ∃ subject, subject? r.subject = some subject ∧ ⟨subject, r.comparison, r.value⟩ = condition := by
  rw [ofRecord]
  cases subject? r.subject with
  | none => simp
  | some subject => simp

theorem exists_ofRecord_iff {mod : String} {r : ConditionRecord K} :
    (∃ condition, ofRecord mod r = .ok condition) ↔ ¬ Unreadable r.subject := by
  rw [← subject?_eq_none_iff, ofRecord]
  cases subject? r.subject with
  | none => simp
  | some subject => simp

variable [Number K]

/-- A condition is what its record says: it compares the attribute that the subject names with the number, or counts
the mods of the polarity that is the subject. -/
inductive Says (r : ConditionRecord K) (condition : Condition K) : Prop
  | compares (a : Attribute) (named : a.Named r.subject)
      (holds_eq : ∀ s count, condition.holds s count = r.comparison.holds (s.get a) r.value)
  | counts (letter : Char) (capital : letter.isUpper = true) (single : r.subject = String.singleton letter)
      (holds_eq : ∀ s count, condition.holds s count = r.comparison.holds (count letter : K) r.value)

/-- A condition counts the mods of a polarity of which its record says nothing. -/
def Miscounts (r : ConditionRecord K) (condition : Condition K) : Prop :=
  ∃ letter, Overlong letter r.subject ∧
    ∀ s count, condition.holds s count = r.comparison.holds (count letter : K) r.value

theorem says_or_miscounts {mod : String} {r : ConditionRecord K} {condition : Condition K}
    (h : ofRecord mod r = .ok condition) : Says r condition ∨ Miscounts r condition := by
  obtain ⟨subject, hSubject, rfl⟩ := ofRecord_eq_ok_iff.mp h
  rcases subject?_eq_some_iff.mp hSubject with hMeant | ⟨letter, hOverlong, rfl⟩
  · left
    generalize hText : r.subject = text at hMeant
    cases hMeant with
    | @byName a _ hNamed => exact .compares a (hText ▸ hNamed) fun _ _ => rfl
    | @byLetter letter hCapital => exact .counts letter hCapital hText fun _ _ => rfl
  · exact .inr ⟨letter, hOverlong, fun _ _ => rfl⟩

end Condition

/-! ## Mods -/

/-- The conditions that a record lists. -/
def ModRecord.conditions {K : Type} (r : ModRecord K) : List (ConditionRecord K) :=
  match r.conditional with
  | some c => c.conditions
  | none => []

namespace Mod

open ConditionSubject

variable {K : Type}

theorem conditionsOf_eq (r : ModRecord K) : conditionsOf r = r.conditions.mapM (Condition.ofRecord r.name) := by
  rw [conditionsOf, ModRecord.conditions]
  cases r.conditional with
  | none => rfl
  | some c => rfl

variable [Number K] {r : ModRecord K} {effect : Option (BuffRecord K)} {rank : Option Nat}

/-- A mod is refused for the first of its subjects that cannot be read, and the error names both. -/
theorem ofRecord_eq_error_iff {e : BuildError} : ofRecord r effect rank = .error e ↔
    ∃ before c after, r.conditions = before ++ c :: after ∧ (∀ d ∈ before, ¬ Unreadable d.subject) ∧
      Unreadable c.subject ∧ e = .invalidData (.unknownSubject r.name c.subject) := by
  rw [ofRecord, bind_pure_eq_error_iff, conditionsOf_eq, mapM_eq_error_iff]
  simp only [Condition.exists_ofRecord_iff, Condition.ofRecord_eq_error_iff]

/-- The conditions of a mod are those of its record, one by one. -/
theorem forall₂_conditions {m : Mod K} (h : ofRecord r effect rank = .ok m) :
    List.Forall₂ (fun c condition => Condition.ofRecord r.name c = .ok condition) r.conditions m.conditions := by
  obtain ⟨conditions, hConditions, rfl⟩ := ofRecord_eq_ok_iff.mp h
  rw [conditionsOf_eq] at hConditions
  exact mapM_eq_ok_iff_forall₂.mp hConditions

theorem readable_of_ofRecord {m : Mod K} (h : ofRecord r effect rank = .ok m) :
    ∀ c ∈ r.conditions, ¬ Unreadable c.subject := by
  have hEach : List.Forall₂
      (fun c condition => ¬ Unreadable c.subject ∧ Condition.ofRecord r.name c = .ok condition)
      r.conditions m.conditions :=
    (forall₂_conditions h).imp fun c condition hRead =>
      ⟨Condition.exists_ofRecord_iff.mp ⟨condition, hRead⟩, hRead⟩
  exact ((List.forall₂_and_left _ _).mp hEach).1

theorem exists_ofRecord_eq_error_iff :
    (∃ e, ofRecord r effect rank = .error e) ↔ ∃ c ∈ r.conditions, Unreadable c.subject := by
  constructor
  · rintro ⟨e, h⟩
    obtain ⟨before, c, after, hSplit, -, hUnreadable, -⟩ := ofRecord_eq_error_iff.mp h
    exact ⟨c, by simp [hSplit], hUnreadable⟩
  · rintro ⟨c, hc, hUnreadable⟩
    cases h : ofRecord r effect rank with
    | error e => exact ⟨e, rfl⟩
    | ok m => exact absurd hUnreadable (readable_of_ofRecord h c hc)

/-- A condition on a subject that is not overlong is what its record says. -/
theorem forall₂_says {m : Mod K} (h : ofRecord r effect rank = .ok m)
    (hShort : ∀ c ∈ r.conditions, ∀ letter, ¬ Overlong letter c.subject) :
    List.Forall₂ Condition.Says r.conditions m.conditions := by
  have hEach : List.Forall₂
      (fun c condition =>
        (∀ letter, ¬ Overlong letter c.subject) ∧ Condition.ofRecord r.name c = .ok condition)
      r.conditions m.conditions :=
    (List.forall₂_and_left _ _).mpr ⟨hShort, forall₂_conditions h⟩
  refine hEach.imp fun c condition ⟨hc, hRead⟩ => (Condition.says_or_miscounts hRead).resolve_right ?_
  rintro ⟨letter, hOverlong, -⟩
  exact hc letter hOverlong

/-- A mod is refused just when one of its subjects cannot be read: it says nothing and does not begin with a capital
letter. If it is not refused, each of its conditions compares the attribute that its subject names, or counts the
polarity that its subject is, or counts the polarity with which its overlong subject begins. So what says nothing is
refused, and what is not refused is what its record says, unless a subject is overlong and none is refused. -/
theorem ofRecord_conditions (r : ModRecord K) (effect : Option (BuffRecord K)) (rank : Option Nat) :
    ((∃ e, ofRecord r effect rank = .error e) ↔ ∃ c ∈ r.conditions, Unreadable c.subject) ∧
      (∀ m, ofRecord r effect rank = .ok m →
        List.Forall₂ (fun c condition => Condition.Says c condition ∨ Condition.Miscounts c condition)
          r.conditions m.conditions) ∧
      ((((∃ e, ofRecord r effect rank = .error e) ↔ ∃ c ∈ r.conditions, ∀ subject, ¬ Meant subject c.subject) ∧
          ∀ m, ofRecord r effect rank = .ok m → List.Forall₂ Condition.Says r.conditions m.conditions) ↔
        (∀ c ∈ r.conditions, ∀ letter, ¬ Overlong letter c.subject) ∨
          ∃ c ∈ r.conditions, Unreadable c.subject) := by
  refine ⟨exists_ofRecord_eq_error_iff, fun m h => ?_, ?_⟩
  · exact (forall₂_conditions h).imp fun _ _ => Condition.says_or_miscounts
  · rw [exists_ofRecord_eq_error_iff]
    constructor
    · rintro ⟨hRefused, -⟩
      refine or_iff_not_imp_left.mpr fun hOverlong => hRefused.mpr ?_
      push Not at hOverlong
      obtain ⟨c, hc, letter, hOverlong⟩ := hOverlong
      exact ⟨c, hc, hOverlong.not_meant⟩
    · rintro (hShort | ⟨c, hc, hUnreadable⟩)
      · refine ⟨exists_congr fun c => and_congr_right fun hc => ?_, fun m h => forall₂_says h hShort⟩
        exact and_iff_left (hShort c hc)
      · refine ⟨iff_of_true ⟨c, hc, hUnreadable⟩ ⟨c, hc, hUnreadable.1⟩, fun m h => ?_⟩
        exact absurd hUnreadable (readable_of_ofRecord h c hc)

/-- A mod with conditions on some subjects. -/
def conditioned (subjects : List String) : ModRecord Float where
  id := 1
  name := "决断"
  series := ""
  quality := .gold
  tolerance := 10
  category := .character
  polarity := some "A"
  element := none
  restriction := none
  exclusive := false
  bonuses := .empty
  conditional := some ⟨subjects.map fun s => ⟨s, .ge, 1.0⟩, .empty⟩

/-- An attribute and a polarity are what the conditions are about; beside an attribute, a text that is neither is
refused. -/
theorem ofRecord_conditions_efficiency :
    (∀ c ∈ (conditioned ["效益", "A"]).conditions, ∀ letter, ¬ Overlong letter c.subject) ∧
      (∃ m, ofRecord (conditioned ["效益", "A"]) none none = .ok m ∧
        List.Forall₂ Condition.Says (conditioned ["效益", "A"]).conditions m.conditions) ∧
      ∃ e, ofRecord (conditioned ["效益", "未知"]) none none = .error e := by
  have hShort : ∀ c ∈ (conditioned ["效益", "A"]).conditions, ∀ letter, ¬ Overlong letter c.subject := by
    refine List.forall_mem_cons.mpr ⟨fun _ h => ?_, List.forall_mem_singleton.mpr fun _ h => ?_⟩
    · exact h.not_meant (.attribute .efficiency) (.byName (.inl rfl))
    · exact h.not_meant (.polarity 'A') (.byLetter rfl)
  have hUnknown : Unreadable "未知" := Condition.subject?_eq_none_iff.mp (by decide)
  obtain ⟨-, -, hDetermined⟩ := ofRecord_conditions (conditioned ["效益", "A"]) none none
  refine ⟨hShort, ⟨_, rfl, (hDetermined.mpr (.inl hShort)).2 _ rfl⟩, ?_⟩
  exact (ofRecord_conditions (conditioned ["效益", "未知"]) none none).1.mpr ⟨_, .tail _ (.head _), hUnknown⟩

/-- The alias of attack with a capital in front counts a polarity, though it is neither an attribute nor a single
letter. -/
theorem ofRecord_counts_misspelt :
    (∃ m, ofRecord (conditioned ["Attack"]) none none = .ok m ∧
      m.conditions.map Condition.subject = [.polarity 'A']) ∧
      ¬ ((∃ e, ofRecord (conditioned ["Attack"]) none none = .error e) ↔
        ∃ c ∈ (conditioned ["Attack"]).conditions, ∀ subject, ¬ Meant subject c.subject) := by
  have hOverlong : Overlong 'A' "Attack" := ⟨rfl, ⟨'t', _, rfl⟩, Attribute.ofName?_eq_none_iff.mp (by decide)⟩
  refine ⟨⟨_, rfl, rfl⟩, fun h => ?_⟩
  obtain ⟨e, hRefused⟩ := h.mpr ⟨_, .head _, hOverlong.not_meant⟩
  cases hRefused

end Mod

end Loadout
