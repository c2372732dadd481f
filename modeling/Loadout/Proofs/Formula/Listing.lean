import Loadout.Proofs.Formula.Expansion
import Loadout.Proofs.Formula.Unfolding
import Loadout.Proofs.Formula.Validation
import Loadout.Proofs.Steps

/-!
# The list of the identifiers of a formula

The identifiers of a formula are listed as they are written. What a formula asks for is another matter, since
a name without a qualifier borrows that of a call around it, and such a name stands in the list without the
qualifier that it borrows. So the list tells what the value and the validity of a formula depend on just when
everything that is borrowed stands somewhere in the list of its own accord.

* `Identifier.ofText_text`: an identifier is read back from the list if there is no colon in its parts;
* `plain_of_parse`: there is none in what a text spells out, whatever its shorthands expand to;
* `properties_eq`, `exists_site_of_query`: what is written and what is asked for, by sites;
* `identifierNames_spec`: what the list of a formula tells.
-/

namespace Loadout.Formula

/-! ## Identifiers -/

/-- A name with its qualifier. -/
structure Identifier where
  qualifier : Option String
  name : String
deriving DecidableEq

namespace Identifier

/-- The identifier as it is listed. -/
def text (i : Identifier) : String := qualifiedText i.qualifier i.name

/-- What is listed as a text. The qualifier ends at the first colon. -/
def ofText (text : String) : Identifier :=
  match text.toList.dropWhile (· != ':') with
  | ':' :: ':' :: name => ⟨some (String.ofList (text.toList.takeWhile (· != ':'))), String.ofList name⟩
  | _ => ⟨none, text⟩

/-- No part of an identifier holds a colon. -/
def Plain (i : Identifier) : Prop := ':' ∉ i.name.toList ∧ ∀ q ∈ i.qualifier, ':' ∉ q.toList

theorem ofText_text {i : Identifier} (h : i.Plain) : ofText i.text = i := by
  obtain ⟨qualifier, name⟩ := i
  obtain ⟨hName, hQualifier⟩ := h
  cases qualifier with
  | none =>
    have hDrop : name.toList.dropWhile (· != ':') = [] := by
      rw [List.dropWhile_eq_nil_iff]
      intro c hc
      exact bne_iff_ne.mpr fun hColon => hName (hColon ▸ hc)
    simp only [text, qualifiedText, ofText, hDrop]
  | some q =>
    have hAll : ∀ c ∈ q.toList, (c != ':') = true := fun c hc =>
      bne_iff_ne.mpr fun hColon => hQualifier q rfl (hColon ▸ hc)
    have hText : (q ++ "::" ++ name).toList = q.toList ++ ':' :: ':' :: name.toList := by simp
    have hTake : (q.toList ++ ':' :: ':' :: name.toList).takeWhile (· != ':') = q.toList := by
      rw [List.takeWhile_append_of_pos hAll]
      simp
    have hDrop : (q.toList ++ ':' :: ':' :: name.toList).dropWhile (· != ':') =
        ':' :: ':' :: name.toList := by
      rw [List.dropWhile_append_of_pos hAll]
      simp
    simp only [text, qualifiedText, ofText, hText, hTake, hDrop, String.ofList_toList]

end Identifier

/-! ## What is written and what is asked for -/

namespace Site

/-- The identifier that is written at a site. -/
def written? : Site → Option Identifier
  | property _ qualifier name => some ⟨qualifier, name⟩
  | function .. => none

/-- The identifier at a site whose name borrows a qualifier from a call around it. -/
def borrowed? : Site → Option Identifier
  | property calls none name => (nearest calls).map (⟨some ·, name⟩)
  | _ => none

/-- The identifier that is asked for at a site. -/
def asked? : Site → Option Identifier
  | property calls qualifier name => some ⟨qualifier.or (nearest calls), name⟩
  | function .. => none

theorem asked?_eq (site : Site) : site.asked? = site.borrowed?.or site.written? := by
  cases site with
  | function => rfl
  | property calls qualifier name =>
    cases qualifier with
    | some q => rfl
    | none => simp only [asked?, borrowed?, written?, Option.none_or]; cases nearest calls <;> rfl

end Site

variable {K : Type}

namespace Expr

/-- The identifiers of names that borrow a qualifier. -/
def borrowed (e : Expr K) : List Identifier := (e.sites []).filterMap Site.borrowed?

mutual

theorem properties_eq (e : Expr K) (calls : List (Option String)) :
    e.properties = ((e.sites calls).filterMap Site.written?).map Identifier.text := by
  match e with
  | number x => rfl
  | binary o left right =>
    rw [properties, sites, List.filterMap_append, List.map_append, ← properties_eq left, ← properties_eq right]
  | unary o operand => rw [properties, sites, ← properties_eq operand]
  | property qualifier name => rfl
  | member object selected => rw [properties, sites, ← properties_eq object]
  | call qualifier name arguments =>
    rw [properties, sites, List.filterMap_cons_none rfl, ← propertiesAll_eq arguments]

theorem propertiesAll_eq (es : List (Expr K)) (calls : List (Option String)) :
    propertiesAll es = ((sitesAll calls es).filterMap Site.written?).map Identifier.text := by
  match es with
  | [] => rfl
  | e :: rest =>
    rw [propertiesAll, sitesAll, List.filterMap_append, List.map_append, ← properties_eq e,
      ← propertiesAll_eq rest]

end

mutual

/-- Evaluation asks for nothing that is not asked for at some site. -/
theorem exists_site_of_query (e : Expr K) (calls : List (Option String)) {k : Query}
    (h : k ∈ e.queries (nearest calls)) :
    ∃ site ∈ e.sites calls, site.asked? = some ⟨k.qualifier, k.name⟩ := by
  match e with
  | number x => simp [queries] at h
  | binary o left right =>
    rw [queries] at h
    rw [sites]
    rcases List.mem_append.mp h with hLeft | hRight
    · obtain ⟨site, hSite, hAsked⟩ := exists_site_of_query left calls hLeft
      exact ⟨site, List.mem_append_left _ hSite, hAsked⟩
    · obtain ⟨site, hSite, hAsked⟩ := exists_site_of_query right calls hRight
      exact ⟨site, List.mem_append_right _ hSite, hAsked⟩
  | unary o operand =>
    rw [queries] at h
    rw [sites]
    exact exists_site_of_query operand calls h
  | property qualifier name =>
    rw [queries, List.mem_singleton] at h
    subst h
    exact ⟨_, List.mem_singleton_self _, rfl⟩
  | member object selected =>
    rw [sites]
    by_cases hProperty : ∃ qualifier name, object = property qualifier name
    · obtain ⟨qualifier, name, rfl⟩ := hProperty
      rw [queries, List.mem_singleton] at h
      subst h
      exact ⟨_, List.mem_singleton_self _, rfl⟩
    · rw [queries_member hProperty] at h
      exact exists_site_of_query object calls h
  | call qualifier name arguments =>
    rw [queries] at h
    split at h
    · rw [← nearest_cons] at h
      obtain ⟨site, hSite, hAsked⟩ := exists_site_of_queryAll arguments (qualifier :: calls) h
      exact ⟨site, List.mem_cons_of_mem _ hSite, hAsked⟩
    · cases h

theorem exists_site_of_queryAll (es : List (Expr K)) (calls : List (Option String)) {k : Query}
    (h : k ∈ queriesAll (nearest calls) es) :
    ∃ site ∈ sitesAll calls es, site.asked? = some ⟨k.qualifier, k.name⟩ := by
  match es with
  | [] => simp [queriesAll] at h
  | e :: rest =>
    rw [queriesAll] at h
    rw [sitesAll]
    rcases List.mem_append.mp h with hHead | hRest
    · obtain ⟨site, hSite, hAsked⟩ := exists_site_of_query e calls hHead
      exact ⟨site, List.mem_append_left _ hSite, hAsked⟩
    · obtain ⟨site, hSite, hAsked⟩ := exists_site_of_queryAll rest calls hRest
      exact ⟨site, List.mem_append_right _ hSite, hAsked⟩

end

end Expr

/-! ## Resolvers that agree -/

/-- Two resolvers give the same answer about an identifier, whatever the outcome. -/
def Resolver.AgreeOn (r r' : Resolver K) (i : Identifier) : Prop :=
  ∀ o, r i.qualifier i.name o = r' i.qualifier i.name o

/-- The resolver that does not know one identifier. -/
def Resolver.without (r : Resolver K) (i : Identifier) : Resolver K := fun qualifier name o =>
  if (⟨qualifier, name⟩ : Identifier) = i then none else r qualifier name o

theorem Resolver.agreeOn_without {r : Resolver K} {i j : Identifier} (h : j ≠ i) : r.AgreeOn (r.without i) j :=
  fun _ => (if_neg h).symm

theorem report_congr {r r' : Resolver K} {sites : List Site}
    (h : ∀ site ∈ sites, site.known r .expected = site.known r' .expected) :
    report r sites = report r' sites := by
  induction sites with
  | nil => rfl
  | cons site rest ih =>
    obtain ⟨hHead, hRest⟩ := List.forall_mem_cons.mp h
    rw [report_cons, report_cons, hHead, ih hRest]

namespace Expr

variable {r r' : Resolver K} {e : Expr K}

/-- A formula that is valid for a resolver asks for nothing that the resolver does not know. -/
theorem isSome_of_validate (h : e.validate r = .ok ()) {site : Site} (hSite : site ∈ e.sites [])
    {i : Identifier} (hAsked : site.asked? = some i) : (r i.qualifier i.name .expected).isSome = true := by
  rw [validate_eq, report_eq_ok_iff] at h
  have hKnown := h site hSite
  cases site with
  | function => cases hAsked
  | property calls qualifier name =>
    cases hAsked
    exact hKnown

theorem validate_eq_of_agreeOn
    (h : ∀ site ∈ e.sites [], ∀ i, site.asked? = some i → r.AgreeOn r' i) : e.validate r = e.validate r' := by
  rw [validate_eq, validate_eq]
  apply report_congr
  intro site hSite
  cases site with
  | function => rfl
  | property calls qualifier name => exact congrArg Option.isSome (h _ hSite _ rfl .expected)

theorem eval_eq_of_agreeOn [Number K]
    (h : ∀ site ∈ e.sites [], ∀ i, site.asked? = some i → r.AgreeOn r' i) : e.eval r = e.eval r' := by
  apply evalIn_congr
  intro k hk
  obtain ⟨site, hSite, hAsked⟩ := exists_site_of_query e [] hk
  exact h site hSite _ hAsked k.outcome

end Expr

/-! ## Names have no colons -/

theorem Expr.sitesAll_append (calls : List (Option String)) (es es' : List (Expr K)) :
    sitesAll calls (es ++ es') = sitesAll calls es ++ sitesAll calls es' := by
  induction es with
  | nil => rfl
  | cons e rest ih => rw [List.cons_append, sitesAll, sitesAll, ih, List.append_assoc]

def Phrase.sites (calls : List (Option String)) : Phrase K → List Site
  | expr e | term e | unary e | factor e => e.sites calls
  | arguments es => Expr.sitesAll calls es

/-- An identifier that is written in a phrase is spelt out by its tokens. -/
theorem Derives.nameTokens_subset {ts : List (Token K)} {phrase : Phrase K} (h : Derives ts phrase)
    {calls : List (Option String)} {site : Site} (hSite : site ∈ phrase.sites calls) {i : Identifier}
    (hWritten : site.written? = some i) : nameTokens i.qualifier i.name ⊆ ts := by
  induction h generalizing calls with
  | number x => cases hSite
  | property qualifier name =>
    cases List.mem_singleton.mp hSite
    cases hWritten
    exact List.Subset.refl _
  | emptyCall qualifier name =>
    cases List.mem_singleton.mp hSite
    cases hWritten
  | call qualifier name _ ih =>
    rcases List.mem_cons.mp hSite with rfl | hArgument
    · cases hWritten
    · intro t ht
      simp [ih hArgument ht]
  | group _ ih | member _ _ ih =>
    intro t ht
    simp [ih hSite ht]
  | factor _ ih | unary _ ih | term _ ih => exact ih hSite
  | plus _ ih | neg _ ih => exact List.subset_cons_of_subset _ (ih hSite)
  | product _ _ _ ihl ihr | sum _ _ _ ihl ihr =>
    rcases List.mem_append.mp hSite with hLeft | hRight
    · exact List.subset_append_of_subset_left _ (ihl hLeft)
    · exact List.subset_append_of_subset_right _ (List.subset_cons_of_subset _ (ihr hRight))
  | @argument _ e _ ih =>
    have hOnly : site ∈ (Phrase.expr e).sites calls := by simpa [Phrase.sites, Expr.sitesAll] using hSite
    exact ih hOnly
  | @arguments _ _ _ e _ _ ihs ih =>
    rw [Phrase.sites, Expr.sitesAll_append] at hSite
    rcases List.mem_append.mp hSite with hFront | hLast
    · exact List.subset_append_of_subset_left _ (ihs hFront)
    · have hOnly : site ∈ (Phrase.expr e).sites calls := by simpa [Phrase.sites, Expr.sitesAll] using hLast
      exact List.subset_append_of_subset_right _ (List.subset_cons_of_subset _ (ih hOnly))

section

variable {table : Shorthands} {active : List String}
  {expand : String → String → Except FormulaError (List (Token K))}

theorem plain_of_expandToken
    (hExpand : ∀ n text us, expand n text = .ok us → ∀ name, Token.ident name ∈ us → ':' ∉ name.toList)
    {t : Token K} {ts : List (Token K)} (hToken : ∀ name, t = .ident name → ':' ∉ name.toList)
    (h : expandToken table active expand t = .ok ts) {name : String} (hMem : Token.ident name ∈ ts) :
    ':' ∉ name.toList := by
  rw [expandToken_eq] at h
  split at h
  · cases h
    exact hToken name (List.mem_singleton.mp hMem).symm
  · rename_i n expansion hFresh
    cases hInner : expand n expansion with
    | error e =>
      rw [hInner] at h
      cases h
    | ok us =>
      rw [hInner] at h
      cases h
      exact hExpand n expansion us hInner name (by simpa using hMem)

/-- Where no name of a scanned text and none of an expansion has a colon, none of what they stand for has
one. -/
theorem plain_of_expandScan
    (hExpand : ∀ n text us, expand n text = .ok us → ∀ name, Token.ident name ∈ us → ':' ∉ name.toList)
    {s : Scan K} {ts : List (Token K)} (hScan : ∀ name, Token.ident name ∈ s.tokens → ':' ∉ name.toList)
    (h : expandScan table active expand s = .ok ts) {name : String} (hMem : Token.ident name ∈ ts) :
    ':' ∉ name.toList := by
  obtain ⟨tokens, fault⟩ := s
  induction tokens generalizing ts with
  | nil =>
    rw [expandScan_nil] at h
    cases fault <;> cases h
    cases hMem
  | cons t rest ih =>
    rw [expandScan_cons] at h
    obtain ⟨part, hPart, h⟩ := bind_eq_ok_iff.mp h
    cases hRest : expandScan table active expand ⟨rest, fault⟩ with
    | error e =>
      rw [hRest] at h
      cases h
    | ok us =>
      rw [hRest] at h
      cases h
      rcases List.mem_append.mp hMem with hHead | hTail
      · exact plain_of_expandToken hExpand (fun n hToken => hScan n (hToken ▸ List.mem_cons_self)) hPart hHead
      · exact ih hTail (fun n hName => hScan n (List.mem_cons_of_mem _ hName)) hRest

end

variable [Number K]

theorem isNameStart_colon : isNameStart ':' = false := by decide +kernel

theorem isNameChar_colon : isNameChar ':' = false := by decide +kernel

theorem plain_of_cut {position : Nat} {c : Char} {rest : List Char} {name : String} {more : Nat}
    (h : cut position c rest = .ok (some (.ident name : Token K), more)) : ':' ∉ name.toList := by
  unfold cut at h
  split at h
  · cases h
  · split at h
    · dsimp only at h
      split at h <;> cases h
    · split at h
      · rename_i hStart
        cases h
        rw [String.toList_ofList, List.mem_cons]
        rintro (rfl | hMem)
        · simp [isNameStart_colon] at hStart
        · have hChar := List.mem_takeWhile_imp hMem
          simp [isNameChar_colon] at hChar
      · split at h <;> try cases h
        · split at h <;> cases h
        · split at h <;> cases h

theorem plain_of_scan {position : Nat} {text : List Char} {name : String}
    (h : Token.ident name ∈ (scan position text : Scan K).tokens) : ':' ∉ name.toList := by
  fun_induction scan (K := K) position text with
  | case1 => cases h
  | case2 => cases h
  | case3 position c rest token more hCut tail ih =>
    rcases List.mem_append.mp h with hHead | hTail
    · rw [Option.mem_toList] at hHead
      exact plain_of_cut (hHead ▸ hCut)
    · exact ih hTail

theorem plain_of_tokensWithin {table : Shorthands} {active : List String} {room : Nat} {text : String}
    {ts : List (Token K)} (h : tokensWithin table room active text = .ok ts) {name : String}
    (hMem : Token.ident name ∈ ts) : ':' ∉ name.toList := by
  induction room generalizing active text ts name with
  | zero =>
    rw [tokensWithin] at h
    exact plain_of_expandScan (fun _ _ _ hNone => by cases hNone) (fun _ => plain_of_scan) h hMem
  | succ room ih =>
    rw [tokensWithin] at h
    exact plain_of_expandScan (fun _ _ _ hInner _ => ih hInner) (fun _ => plain_of_scan) h hMem

/-- No colon is part of what is written in a formula. -/
theorem plain_of_parse {table : Shorthands} {text : String} {e : Expr K} (h : parse table text = .ok e)
    {calls : List (Option String)} {site : Site} (hSite : site ∈ e.sites calls) {i : Identifier}
    (hWritten : site.written? = some i) : i.Plain := by
  obtain ⟨ts, hTokens, hDerives⟩ := derives_of_parse h
  have hSubset := hDerives.nameTokens_subset hSite hWritten
  have hPlain {name : String} (hMem : Token.ident name ∈ nameTokens i.qualifier i.name) :
      ':' ∉ name.toList := plain_of_tokensWithin hTokens (hSubset hMem)
  obtain ⟨qualifier, name⟩ := i
  cases qualifier with
  | none => exact ⟨hPlain (by simp [nameTokens]), by simp⟩
  | some q =>
    refine ⟨hPlain (by simp [nameTokens]), ?_⟩
    rintro _ ⟨⟩
    exact hPlain (by simp [nameTokens])

/-! ## What the list tells -/

theorem nodup_eraseDups {α : Type} [DecidableEq α] (l : List α) : l.eraseDups.Nodup := by
  match l with
  | [] => exact List.nodup_nil
  | a :: rest =>
    rw [List.eraseDups_cons, List.nodup_cons]
    exact ⟨by simp, nodup_eraseDups _⟩
termination_by l.length
decreasing_by exact Nat.lt_succ_of_le (List.length_filter_le _ _)

/-- The identifiers that are listed are the ones that are written. -/
theorem mem_identifierNames_iff {table : Shorthands} {text : String} {e : Expr K}
    (h : parse table text = .ok e) {i : Identifier} :
    (∃ n ∈ e.identifierNames, .ofText n = i) ↔ ∃ site ∈ e.sites [], site.written? = some i := by
  simp only [Expr.identifierNames, List.mem_eraseDups, e.properties_eq [], List.mem_map, List.mem_filterMap]
  constructor
  · rintro ⟨_, ⟨j, ⟨site, hSite, hWritten⟩, rfl⟩, rfl⟩
    rw [Identifier.ofText_text (plain_of_parse h hSite hWritten)]
    exact ⟨site, hSite, hWritten⟩
  · rintro ⟨site, hSite, hWritten⟩
    have hRead := Identifier.ofText_text (plain_of_parse h hSite hWritten)
    exact ⟨i.text, ⟨i, ⟨site, hSite, hWritten⟩, rfl⟩, hRead⟩

/-- The list names no identifier twice. Resolvers that agree on all that is listed and on all that is borrowed
give a formula one value and one verdict. For a formula that is valid for some resolver it is enough that they
agree on all that is listed, if what is borrowed is listed as well, and only then. -/
theorem identifierNames_spec {table : Shorthands} {text : String} {e : Expr K}
    (h : parse table text = .ok e) :
    e.identifierNames.Nodup ∧
    (∀ r r' : Resolver K, (∀ n ∈ e.identifierNames, r.AgreeOn r' (.ofText n)) →
      (∀ i ∈ e.borrowed, r.AgreeOn r' i) → e.eval r = e.eval r' ∧ e.validate r = e.validate r') ∧
    ((∃ r : Resolver K, e.validate r = .ok ()) →
      ((∀ r r' : Resolver K, (∀ n ∈ e.identifierNames, r.AgreeOn r' (.ofText n)) →
          e.eval r = e.eval r' ∧ e.validate r = e.validate r') ↔
        ∀ i ∈ e.borrowed, ∃ n ∈ e.identifierNames, .ofText n = i)) := by
  have hAgree (r r' : Resolver K) (hListed : ∀ n ∈ e.identifierNames, r.AgreeOn r' (.ofText n))
      (hBorrowed : ∀ i ∈ e.borrowed, r.AgreeOn r' i) :
      e.eval r = e.eval r' ∧ e.validate r = e.validate r' := by
    have hAsked (site : Site) (hSite : site ∈ e.sites []) (i : Identifier) (hi : site.asked? = some i) :
        r.AgreeOn r' i := by
      rw [Site.asked?_eq, Option.or_eq_some_iff] at hi
      rcases hi with hLent | ⟨-, hWritten⟩
      · exact hBorrowed i (List.mem_filterMap.mpr ⟨site, hSite, hLent⟩)
      · obtain ⟨n, hn, rfl⟩ := (mem_identifierNames_iff h).mpr ⟨site, hSite, hWritten⟩
        exact hListed n hn
    exact ⟨Expr.eval_eq_of_agreeOn hAsked, Expr.validate_eq_of_agreeOn hAsked⟩
  refine ⟨nodup_eraseDups _, hAgree, ?_⟩
  rintro ⟨r, hValid⟩
  constructor
  · intro hEnough i hi
    by_contra hMissing
    push Not at hMissing
    obtain ⟨site, hSite, hLent⟩ := List.mem_filterMap.mp hi
    have hAsked : site.asked? = some i := by rw [Site.asked?_eq, hLent, Option.some_or]
    -- a resolver that lacks the identifier agrees on the list, but the formula is not valid for it
    obtain ⟨-, hVerdict⟩ := hEnough r (r.without i) fun n hn => Resolver.agreeOn_without (hMissing n hn)
    have hKnown := Expr.isSome_of_validate (hVerdict ▸ hValid) hSite hAsked
    simp [Resolver.without] at hKnown
  · intro hCovered r r' hListed
    refine hAgree r r' hListed fun i hi => ?_
    obtain ⟨n, hn, rfl⟩ := hCovered i hi
    exact hListed n hn

/-- The attack of a weapon, once as a bare name in a call with the qualifier and once with the qualifier. -/
def attackTwice : Expr Float :=
  .binary .add (.call (some "近战") "max" [.property none "攻击", .number (literal ['1'])])
    (.binary .mul (.property (some "近战") "攻击") (.property none "防御"))

set_option maxRecDepth 20000 in
theorem parse_attackTwice : parse .empty "近战::max(攻击, 1) + 近战::攻击 * 防御" = .ok attackTwice := by
  with_unfolding_all rfl

theorem identifierNames_spec_attackTwice :
    parse .empty "近战::max(攻击, 1) + 近战::攻击 * 防御" = .ok attackTwice ∧
    attackTwice.identifierNames = ["攻击", "近战::攻击", "防御"] ∧
    ∀ r r' : Resolver Float, (∀ n ∈ attackTwice.identifierNames, r.AgreeOn r' (.ofText n)) →
      attackTwice.eval r = attackTwice.eval r' ∧ attackTwice.validate r = attackTwice.validate r' := by
  obtain ⟨-, -, hEnough⟩ := identifierNames_spec parse_attackTwice
  have hValid : attackTwice.validate (fun _ _ _ => some 1.0) = .ok () := by decide +kernel
  have hCovered : ∀ i ∈ attackTwice.borrowed, ∃ n ∈ attackTwice.identifierNames, .ofText n = i := by
    decide +kernel
  exact ⟨parse_attackTwice, by decide +kernel, (hEnough ⟨_, hValid⟩).mpr hCovered⟩

/-- The attack of a weapon as a bare name in a call with the qualifier. -/
def attackOnce : Expr Float := .call (some "近战") "max" [.property none "攻击", .number (literal ['1'])]

set_option maxRecDepth 20000 in
theorem parse_attackOnce : parse .empty "近战::max(攻击, 1)" = .ok attackOnce := by
  with_unfolding_all rfl

/-- The name in the call is listed without the qualifier that it borrows, so a resolver that knows it with
the qualifier and one that does not agree on the list. -/
theorem identifierNames_attackOnce :
    parse .empty "近战::max(攻击, 1)" = .ok attackOnce ∧ attackOnce.identifierNames = ["攻击"] ∧
    ∃ r r' : Resolver Float, (∀ n ∈ attackOnce.identifierNames, r.AgreeOn r' (.ofText n)) ∧
      attackOnce.eval r ≠ attackOnce.eval r' ∧ attackOnce.validate r ≠ attackOnce.validate r' := by
  have hNames : attackOnce.identifierNames = ["攻击"] := by decide +kernel
  let r : Resolver Float := fun _ _ _ => some 250.0
  refine ⟨parse_attackOnce, hNames, r, r.without ⟨some "近战", "攻击"⟩, ?_, ?_, ?_⟩
  · rw [hNames]
    intro n hn
    cases List.mem_singleton.mp hn
    exact Resolver.agreeOn_without (by decide +kernel)
  · decide +kernel
  · decide +kernel

end Loadout.Formula
