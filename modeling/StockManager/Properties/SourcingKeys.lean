import Mathlib
import StockManager.Model.SourcingQueries
import StockManager.Model.Texts

/-! # The sourcing cache key

Two searches share a key when they ask the provider for the same thing, unless a distributor the
table does not know is spelled in two ways. -/

namespace StockManager.SourcingQueries

open KeySort

variable {py : CaseMaps} {a b : SearchRequest}
variable {order order' : SetOrder String}

/-- The distributor lists have the same names, whatever their case. -/
def SameDistributors (py : CaseMaps) (a b : SearchRequest) : Prop :=
  ∀ key, key ∈ (namesOf a.distributors).map py.casefold ↔ key ∈ (namesOf b.distributors).map py.casefold

/-- The country and the currency agree after `fold`. -/
def SameCodes (fold : String → String) (a b : SearchRequest) : Prop :=
  canonicalText fold a.countryCode = canonicalText fold b.countryCode ∧
    canonicalText fold a.currencyCode = canonicalText fold b.currencyCode

/-- All fields agree but the country and the currency. -/
structure SameElsewhere (py : CaseMaps) (a b : SearchRequest) : Prop where
  workspaceId : a.workspaceId = b.workspaceId
  provider : py.casefold (strip a.provider) = py.casefold (strip b.provider)
  mpn : strip a.mpn = strip b.mpn
  languageCode : canonicalText py.casefold a.languageCode = canonicalText py.casefold b.languageCode
  distributors : SameDistributors py a b
  flags : a.inStockOnly = b.inStockOnly ∧ a.useCachedData = b.useCachedData ∧
    a.exactMatch = b.exactMatch

def SameRequest (py : CaseMaps) (a b : SearchRequest) : Prop :=
  SameElsewhere py a b ∧ SameCodes py.casefold a b

/-- No distributor outside the table is spelled in two ways. -/
def OneSpelling (py : CaseMaps) (a b : SearchRequest) : Prop :=
  ∀ x ∈ namesOf a.distributors ++ namesOf b.distributors,
    ∀ y ∈ namesOf a.distributors ++ namesOf b.distributors, py.casefold x = py.casefold y →
      py.casefold x ∈ allDistributors.map py.casefold ∨ x = y

/-- The lists stand for the same names of the table and the same spellings of others. -/
def SameNames (py : CaseMaps) (a b : SearchRequest) : Prop :=
  ∀ name, name ∈ (namesOf a.distributors).map (canonicalName py) ↔
    name ∈ (namesOf b.distributors).map (canonicalName py)

theorem find_known {key item : String} (h : Dict.find key (knownDistributors py) = some item) :
    py.casefold item = key := by
  rw [knownDistributors, Dict.find_foldl_put, Option.or_eq_some_iff] at h
  rcases h with h | ⟨-, h⟩
  · have hmem := Dict.mem_of_find h
    rw [List.mem_reverse, List.mem_map] at hmem
    obtain ⟨name, -, heq⟩ := hmem
    rw [Prod.mk.injEq] at heq
    rw [← heq.2, heq.1]
  · exact absurd h (by simp [Dict.find])

theorem casefold_canonicalName (py : CaseMaps) (name : String) :
    py.casefold (canonicalName py name) = py.casefold name := by
  rw [canonicalName]
  cases h : Dict.find (py.casefold name) (knownDistributors py) with
  | none => rfl
  | some item => exact find_known h

theorem canonicalName_of_unknown {name : String}
    (h : py.casefold name ∉ allDistributors.map py.casefold) : canonicalName py name = name := by
  rw [canonicalName, Dict.find_eq_none.mpr, Option.getD_none]
  intro hkey
  have hsome : (Dict.find (py.casefold name) (knownDistributors py)).isSome := by
    rw [Option.isSome_iff_ne_none]
    exact fun hnone => Dict.find_eq_none.mp hnone hkey
  rw [knownDistributors, Dict.find_foldl_put, Option.isSome_or, Bool.or_eq_true] at hsome
  rcases hsome with hsome | hsome
  · obtain ⟨item, hitem⟩ := Option.isSome_iff_exists.mp hsome
    have hmem := Dict.mem_of_find hitem
    rw [List.mem_reverse, List.mem_map] at hmem
    obtain ⟨known, hknown, heq⟩ := hmem
    rw [Prod.mk.injEq] at heq
    exact h (List.mem_map.mpr ⟨known, hknown, heq.1⟩)
  · exact absurd hsome (by simp [Dict.find])

theorem find_of_known {key : String} (h : key ∈ allDistributors.map py.casefold) :
    (Dict.find key (knownDistributors py)).isSome := by
  rw [knownDistributors, Dict.find_foldl_put, Option.isSome_or, Bool.or_eq_true, Option.isSome_iff_ne_none]
  refine .inl fun hnone => Dict.find_eq_none.mp hnone ?_
  rw [Dict.keys, List.map_reverse, List.mem_reverse, List.map_map]
  exact h

theorem canonicalName_of_known {x y : String} (hfold : py.casefold x = py.casefold y)
    (h : py.casefold x ∈ allDistributors.map py.casefold) : canonicalName py x = canonicalName py y := by
  obtain ⟨item, hitem⟩ := Option.isSome_iff_exists.mp (find_of_known h)
  rw [canonicalName, canonicalName, ← hfold, hitem, Option.getD_some, Option.getD_some]

theorem canonicalName_congr (hone : OneSpelling py a b) {x y : String}
    (hx : x ∈ namesOf a.distributors ++ namesOf b.distributors)
    (hy : y ∈ namesOf a.distributors ++ namesOf b.distributors)
    (hfold : py.casefold x = py.casefold y) : canonicalName py x = canonicalName py y := by
  rcases hone x hx y hy hfold with hknown | rfl
  · exact canonicalName_of_known hfold hknown
  · rfl

theorem sameDistributors_of_sameNames (h : SameNames py a b) : SameDistributors py a b := by
  have hmap (l : List String) :
      (l.map (canonicalName py)).map py.casefold = l.map py.casefold := by
    rw [List.map_map]
    exact List.map_congr_left fun name _ => casefold_canonicalName py name
  intro key
  rw [← hmap (namesOf a.distributors), ← hmap (namesOf b.distributors), List.mem_map, List.mem_map]
  exact exists_congr fun name => and_congr_left fun _ => h name

theorem sameNames_of_oneSpelling (h : SameDistributors py a b) (hone : OneSpelling py a b) :
    SameNames py a b := by
  intro name
  rw [List.mem_map, List.mem_map]
  constructor
  · intro ⟨x, hx, hname⟩
    obtain ⟨y, hy, hfold⟩ := List.mem_map.mp ((h (py.casefold x)).mp (List.mem_map_of_mem hx))
    refine ⟨y, hy, ?_⟩
    rw [← hname]
    exact canonicalName_congr hone (List.mem_append_right _ hy) (List.mem_append_left _ hx) hfold
  · intro ⟨y, hy, hname⟩
    obtain ⟨x, hx, hfold⟩ := List.mem_map.mp ((h (py.casefold y)).mpr (List.mem_map_of_mem hy))
    refine ⟨x, hx, ?_⟩
    rw [← hname]
    exact canonicalName_congr hone (List.mem_append_left _ hx) (List.mem_append_right _ hy) hfold

theorem oneSpelling_of_injective (h : SameNames py a b)
    (hinj : ∀ x ∈ (namesOf a.distributors).map (canonicalName py),
      ∀ y ∈ (namesOf a.distributors).map (canonicalName py), py.casefold x = py.casefold y → x = y) :
    OneSpelling py a b := by
  have hmem (x : String) (hx : x ∈ namesOf a.distributors ++ namesOf b.distributors) :
      canonicalName py x ∈ (namesOf a.distributors).map (canonicalName py) := by
    rcases List.mem_append.mp hx with hx | hx
    · exact List.mem_map_of_mem hx
    · exact (h _).mpr (List.mem_map_of_mem hx)
  intro x hx y hy hfold
  by_cases hknown : py.casefold x ∈ allDistributors.map py.casefold
  · exact .inl hknown
  · have hsame := hinj _ (hmem x hx) _ (hmem y hy) (by
      rw [casefold_canonicalName, casefold_canonicalName, hfold])
    rw [canonicalName_of_unknown hknown, canonicalName_of_unknown (hfold ▸ hknown)] at hsame
    exact .inr hsame

theorem canonicalDistributors_eq_iff :
    (∀ order order', canonicalDistributors py order a.distributors =
        canonicalDistributors py order' b.distributors) ↔
      SameDistributors py a b ∧ OneSpelling py a b := by
  have hlib := sortBy_list_eq_iff py.casefold ((namesOf a.distributors).map (canonicalName py))
    ((namesOf b.distributors).map (canonicalName py))
  refine hlib.trans ⟨fun ⟨hnames, hinj⟩ => ?_, fun ⟨hsame, hone⟩ => ?_⟩
  · exact ⟨sameDistributors_of_sameNames hnames, oneSpelling_of_injective hnames hinj⟩
  · refine ⟨sameNames_of_oneSpelling hsame hone, fun x hx y hy hfold => ?_⟩
    obtain ⟨x, hxmem, rfl⟩ := List.mem_map.mp hx
    obtain ⟨y, hymem, rfl⟩ := List.mem_map.mp hy
    rw [casefold_canonicalName, casefold_canonicalName] at hfold
    exact canonicalName_congr hone (List.mem_append_left _ hxmem) (List.mem_append_left _ hymem) hfold

theorem sameNames_of_eq
    (h : canonicalDistributors py order a.distributors = canonicalDistributors py order' b.distributors) :
    SameNames py a b := by
  intro name
  rw [← order.mem, ← order'.mem (l := (namesOf b.distributors).map _), ← @mem_sortBy _ _ _ py.casefold,
    ← @mem_sortBy _ _ _ py.casefold (order'.list _)]
  exact iff_of_eq (congrArg (name ∈ ·) h)

theorem canonicalDistributors_sorted (h : SameNames py a b) :
    canonicalDistributors py sortedOrder a.distributors =
      canonicalDistributors py sortedOrder b.distributors := by
  rw [canonicalDistributors, canonicalDistributors, sortedOrder_list h]

theorem sourcingSearchQuery_eq_iff :
    sourcingSearchQuery py order a = sourcingSearchQuery py order' b ↔
      (a.workspaceId = b.workspaceId ∧ py.casefold (strip a.provider) = py.casefold (strip b.provider) ∧
        strip a.mpn = strip b.mpn ∧
        canonicalText py.casefold a.languageCode = canonicalText py.casefold b.languageCode ∧
        a.inStockOnly = b.inStockOnly ∧ a.useCachedData = b.useCachedData ∧
        a.exactMatch = b.exactMatch) ∧
      SameCodes py.upper a b ∧
      canonicalDistributors py order a.distributors = canonicalDistributors py order' b.distributors := by
  rw [sourcingSearchQuery, sourcingSearchQuery, SearchQuery.mk.injEq, SameCodes, canonicalCode,
    canonicalLanguage]
  tauto

theorem sameElsewhere_of_eq
    (h : sourcingSearchQuery py order a = sourcingSearchQuery py order' b) : SameElsewhere py a b := by
  obtain ⟨⟨hworkspace, hprovider, hmpn, hlanguage, hflags⟩, -, hnames⟩ := sourcingSearchQuery_eq_iff.mp h
  exact ⟨hworkspace, hprovider, hmpn, hlanguage, sameDistributors_of_sameNames (sameNames_of_eq hnames),
    hflags⟩

theorem SameElsewhere.query_eq (h : SameElsewhere py a b) (hcodes : SameCodes py.upper a b)
    (hnames : canonicalDistributors py order a.distributors =
      canonicalDistributors py order' b.distributors) :
    sourcingSearchQuery py order a = sourcingSearchQuery py order' b :=
  sourcingSearchQuery_eq_iff.mpr
    ⟨⟨h.workspaceId, h.provider, h.mpn, h.languageCode, h.flags⟩, hcodes, hnames⟩

/-- The key is the request of two searches, whatever the runs' set orders, exactly when searches
that agree otherwise have codes that case folding and upper-casing tell apart alike and spell no
unknown distributor in two ways. -/
theorem sameRequest_iff : (∀ order order', sourcingSearchQuery py order a =
        sourcingSearchQuery py order' b ↔ SameRequest py a b) ↔
      (SameElsewhere py a b →
        (SameCodes py.casefold a b → SameCodes py.upper a b ∧ OneSpelling py a b) ∧
        (SameCodes py.upper a b → SameNames py a b → SameCodes py.casefold a b)) := by
  constructor
  · intro h helse
    refine ⟨fun hfolded => ?_, fun hupper hnames => ?_⟩
    · have hquery (order order' : SetOrder String) := (h order order').mpr ⟨helse, hfolded⟩
      refine ⟨(sourcingSearchQuery_eq_iff.mp (hquery sortedOrder sortedOrder)).2.1, ?_⟩
      exact (canonicalDistributors_eq_iff.mp fun order order' =>
        (sourcingSearchQuery_eq_iff.mp (hquery order order')).2.2).2
    · exact ((h sortedOrder sortedOrder).mp
        (helse.query_eq hupper (canonicalDistributors_sorted hnames))).2
  · intro h order order'
    refine ⟨fun hquery => ?_, fun ⟨helse, hfolded⟩ => ?_⟩
    · have helse := sameElsewhere_of_eq hquery
      obtain ⟨-, hupper, hnames⟩ := sourcingSearchQuery_eq_iff.mp hquery
      exact ⟨helse, (h helse).2 hupper (sameNames_of_eq hnames)⟩
    · obtain ⟨hupper, hone⟩ := (h helse).1 hfolded
      exact helse.query_eq hupper (canonicalDistributors_eq_iff.mpr ⟨helse.distributors, hone⟩ _ _)

theorem cleanMpns_single {mpn : String} {cleaned : List String} (h : cleanMpns [mpn] = .ok cleaned) :
    cleaned = [strip mpn] := by
  rw [cleanMpns] at h
  obtain ⟨-, h⟩ := Outcome.check_bind_ok.mp h
  obtain ⟨-, h⟩ := Outcome.check_bind_ok.mp h
  exact (Except.ok.inj h).symm

theorem makeSourcingProvider_some {workspace : Workspace} {name : String} {language : Option String}
    (h : makeSourcingProvider workspace = some (name, language)) :
    workspace.sourcingProvider = some "trustedparts" ∧ name = "trustedparts" ∧
      language = workspace.sourcingLanguageCode := by
  rw [makeSourcingProvider] at h
  split at h
  next => exact absurd h (by simp)
  next hboth =>
    rw [not_or, not_not] at hboth
    rw [Option.some.injEq, Prod.mk.injEq] at h
    exact ⟨hboth.1, h.1.symm, h.2.symm⟩

theorem alertSearchQueries_ok {workspace : Workspace}
    {alert : SourcingAlert} {mpn : String} {degraded : Bool} {queries : List SearchQuery}
    (h : alertSearchQueries py order workspace alert mpn degraded = .ok queries) :
    queries = [canonicalSearchQueryForAlert py order workspace alert mpn] := by
  rw [alertSearchQueries, searchQueries] at h
  obtain ⟨cleaned, hcleaned, h⟩ := Outcome.bind_ok.mp h
  obtain rfl := cleanMpns_single hcleaned
  cases hprovider : makeSourcingProvider workspace with
  | none =>
    rw [hprovider] at h
    exact absurd h (by simp)
  | some client =>
    obtain ⟨name, language⟩ := client
    obtain ⟨hworkspace, rfl, rfl⟩ := makeSourcingProvider_some hprovider
    rw [hprovider] at h
    rw [← Except.ok.inj h, List.map_singleton, canonicalSearchQueryForAlert, hworkspace]
    simp only [sourcingSearchQuery, strip_strip, Option.getD_some, Bool.or_true]
    rfl

theorem mem_prefetchGroups {Digest : Type} [DecidableEq Digest] {hash : SearchQuery → Digest}
    {rows : List AlertRow} {key : Uuid × Digest}
    {group : List SearchGroupAlert} (h : (key, group) ∈ prefetchGroups hash py order rows) :
    ∀ item ∈ group, groupKey hash py order item = key := by
  have hnodup : (Dict.keys (prefetchGroups hash py order rows)).Nodup := by
    have hempty : (Dict.keys ([] : List ((Uuid × Digest) × List SearchGroupAlert))).Nodup :=
      List.nodup_nil
    exact Dict.nodup_keys_collect hempty _
  have hgroup : (Dict.find key (prefetchGroups hash py order rows)).getD [] = group := by
    rw [(Dict.mem_iff_find hnodup).mp h, Option.getD_some]
  rw [prefetchGroups, Dict.getD_find_gather, List.map_id] at hgroup
  intro item hitem
  rw [← hgroup, List.mem_filter] at hitem
  exact of_decide_eq_true hitem.2

/-- The cache key is the request for searches that no unknown distributor's spelling and no code
outside ASCII sets apart, and every alert of a group would search under the group's key. -/
theorem sourcingSearchQuery_exact (py : CaseMaps) :
    (∀ a b, (∀ order order', sourcingSearchQuery py order a =
          sourcingSearchQuery py order' b ↔ SameRequest py a b) ↔
        (SameElsewhere py a b →
          (SameCodes py.casefold a b → SameCodes py.upper a b ∧ OneSpelling py a b) ∧
          (SameCodes py.upper a b → SameNames py a b → SameCodes py.casefold a b))) ∧
      ∀ (Digest : Type) [DecidableEq Digest] (hash : SearchQuery → Digest) (order : SetOrder String)
        (rows : List AlertRow), ∀ group ∈ prefetchGroups hash py order rows, ∀ item ∈ group.2,
        ∀ degraded queries,
          alertSearchQueries py order item.workspace item.alert item.mpn degraded = .ok queries →
          ∀ query ∈ queries, (item.workspace.id, hash query) = group.1 := by
  refine ⟨fun a b => sameRequest_iff, ?_⟩
  intro Digest _ hash order rows group hgroup item hitem degraded queries hqueries query hquery
  rw [alertSearchQueries_ok hqueries, List.mem_singleton] at hquery
  rw [hquery]
  exact mem_prefetchGroups hgroup item hitem

def asciiCase : CaseMaps where
  upper text := String.ofList (text.toList.map Char.toUpper)
  casefold text := String.ofList (text.toList.map Char.toLower)

def sampleRequest (distributor : String) : SearchRequest :=
  ⟨1, "trustedparts", "LM358", some "DE", some "EUR", some "en", some [distributor], false, true, true⟩

theorem sameElsewhere_sample : SameElsewhere asciiCase (sampleRequest "Acme") (sampleRequest "ACME") := by
  refine ⟨rfl, rfl, rfl, rfl, fun key => ?_, rfl, rfl, rfl⟩
  have hsame : (namesOf (sampleRequest "Acme").distributors).map asciiCase.casefold =
      (namesOf (sampleRequest "ACME").distributors).map asciiCase.casefold := by decide
  rw [hsame]

/-- Re-casing a distributor that the table does not know changes the key. -/
theorem respelled_distributor : ¬ ∀ (py : CaseMaps) (a b : SearchRequest) (order order' : SetOrder String),
    sourcingSearchQuery py order a = sourcingSearchQuery py order' b ↔ SameRequest py a b := by
  intro h
  have hone := ((sameRequest_iff.mp (h asciiCase (sampleRequest "Acme") (sampleRequest "ACME"))
    sameElsewhere_sample).1 ⟨rfl, rfl⟩).2
  rcases hone "Acme" (by decide) "ACME" (by decide) (by decide) with hknown | heq
  · exact absurd hknown (by decide)
  · exact absurd heq (by decide)

end StockManager.SourcingQueries
