import StockManager.Effects.KicadRows
import StockManager.Properties.CategoryTree

/-! # Every eligible part is listed once and as it is -/

namespace StockManager.Kicad

open CategorySettings (rulesByCategory)

variable {db : Db} {workspaceId : Uuid} {row : PartRow} {part : Part} {doc : Document} {baseUrl : String}
  {collate : String → String → Bool}

/-- An active part of the workspace with a symbol -/
def Eligible (db : Db) (workspaceId : Uuid) (part : Part) : Prop :=
  part ∈ db.parts ∧ (part.workspaceId = workspaceId ∧ part.archivedAt = none) ∧
    (symbolIdStr (partRow db part)).isSome = true

/-- The uncategorised bucket and the active categories -/
def buckets (db : Db) (workspaceId : Uuid) : List (Option Uuid) :=
  none :: (activeCategories db workspaceId).map fun category => some category.id

def bucketOf (row : PartRow) : Option Uuid := row.category.map (·.id)

theorem mem_rowsStmt_partRow (hpart : part ∈ db.parts)
    (hwhere : part.workspaceId = workspaceId ∧ part.archivedAt = none) : partRow db part ∈ rowsStmt db workspaceId :=
  mem_rowsStmt.mpr ⟨part, hpart, hwhere, rfl⟩

theorem nodup_rowsStmt (hdb : Keyed db) : ((rowsStmt db workspaceId).map (·.part.id)).Nodup := by
  rw [rowsStmt, List.map_map]
  exact hdb.parts.sublist (List.filter_sublist.map _)

theorem mem_bucketRows {bucket : Option Uuid} (hbucket : bucket ∈ buckets db workspaceId) :
    row ∈ bucketRows db workspaceId bucket ↔ row ∈ rowsStmt db workspaceId ∧ bucketOf row = bucket := by
  rw [bucketRows, List.mem_filter]
  refine and_congr_right fun hrow => ?_
  cases bucket with
  | none => rw [bucketOf, Option.map_eq_none_iff, Option.isNone_iff_eq_none]
  | some id =>
    rw [decide_eq_true_eq, bucketOf]
    constructor
    · intro hid
      obtain ⟨category, hmem, hcategory⟩ := List.mem_map.mp ((List.mem_cons.mp hbucket).resolve_left nofun)
      obtain ⟨hmem, hactive⟩ := List.mem_filter.mp hmem
      obtain ⟨part, -, ⟨hws, -⟩, rfl⟩ := mem_rowsStmt.mp hrow
      have hid : part.categoryId = some id := hid
      -- the category of the bucket is one that the join can find
      have hsome : (joinCategory db part.workspaceId part.categoryId).isSome = true := by
        rw [joinCategory, List.find?_isSome]
        refine ⟨category, hmem, decide_eq_true ⟨hcategory.trans hid.symm, ?_⟩⟩
        rw [decide_eq_true_eq] at hactive
        exact ⟨hactive.1.trans hws.symm, hactive.2⟩
      obtain ⟨found, hfound⟩ := Option.isSome_iff_exists.mp hsome
      have hjoined : (partRow db part).category = some found := hfound
      have hfoundId := (category_of_row hrow hjoined).2
      rw [hjoined, Option.map_some, ← hfoundId]
      exact hid
    · intro hid
      obtain ⟨category, hcategory, rfl⟩ := Option.map_eq_some_iff.mp hid
      exact (category_of_row hrow hcategory).2

theorem bucketOf_mem (hrow : row ∈ rowsStmt db workspaceId) : bucketOf row ∈ buckets db workspaceId := by
  cases h : row.category with
  | none =>
    rw [bucketOf, h]
    exact List.mem_cons_self
  | some category =>
    rw [bucketOf, h]
    exact List.mem_cons_of_mem _ (List.mem_map_of_mem (category_of_row hrow h).1)

theorem listParts_eq (hdb : Keyed db) (bucket : Option Uuid) :
    listParts collate baseUrl db workspaceId bucket =
      (orderRows collate (bucketRows db workspaceId bucket)).filterMap (documentOf baseUrl db workspaceId) :=
  documents_eq hdb fun _ hrow => (List.mem_filter.mp ((List.mergeSort_perm _ _).mem_iff.mp hrow)).1

theorem mem_orderRows {bucket : Option Uuid} (hbucket : bucket ∈ buckets db workspaceId) :
    row ∈ orderRows collate (bucketRows db workspaceId bucket) ↔
      row ∈ rowsStmt db workspaceId ∧ bucketOf row = bucket := by
  rw [← mem_bucketRows hbucket]
  exact (List.mergeSort_perm _ _).mem_iff

theorem nodup_orderRows (hdb : Keyed db) (bucket : Option Uuid) :
    ((orderRows collate (bucketRows db workspaceId bucket)).map (·.part.id)).Nodup :=
  ((List.mergeSort_perm _ _).map _).nodup_iff.mpr ((nodup_rowsStmt hdb).sublist (List.filter_sublist.map _))

theorem filter_filterMap {α β : Type} {f : α → Option β} {key : α → Uuid} {key' : β → Uuid} {l : List α}
    (hf : ∀ a b, f a = some b → key' b = key a) (h : (l.map key).Nodup) {a : α} (ha : a ∈ l) {b : β}
    (hb : f a = some b) : (l.filterMap f).filter (fun b => key' b = key a) = [b] := by
  have hmem : b ∈ (l.filterMap f).filter fun b => key' b = key a :=
    List.mem_filter.mpr ⟨List.mem_filterMap.mpr ⟨a, ha, hb⟩, decide_eq_true (hf a b hb)⟩
  have hnodup : (((l.filterMap f).filter fun b => key' b = key a).map key').Nodup :=
    (nodup_filterMap hf h).sublist (List.filter_sublist.map _)
  have hall : ∀ b' ∈ (l.filterMap f).filter (fun b => key' b = key a), b' = b := by
    intro b' hb'
    refine List.inj_on_of_nodup_map hnodup hb' hmem ?_
    rw [of_decide_eq_true (List.mem_filter.mp hb').2, hf a b hb]
  refine List.perm_singleton.mp ((List.perm_ext_iff_of_nodup hnodup.of_map (List.nodup_singleton b)).mpr ?_)
  intro b'
  rw [List.mem_singleton]
  exact ⟨hall b', fun heq => heq ▸ hmem⟩

def listedIn (collate : String → String → Bool) (baseUrl : String) (db : Db) (workspaceId : Uuid)
    (bucket : Option Uuid) (part : Part) : List Document :=
  (listParts collate baseUrl db workspaceId bucket).filter (·.id = part.id)

theorem listedIn_own (hdb : Keyed db) (hrow : row ∈ rowsStmt db workspaceId)
    (hdoc : documentOf baseUrl db workspaceId row = some doc) :
    listedIn collate baseUrl db workspaceId (bucketOf row) row.part = [doc] := by
  rw [listedIn, listParts_eq hdb]
  exact filter_filterMap (fun _ _ => documentOf_id) (nodup_orderRows hdb _)
    ((mem_orderRows (bucketOf_mem hrow)).mpr ⟨hrow, rfl⟩) hdoc

theorem row_of_id (hdb : Keyed db) {row' : PartRow} (hrow : row ∈ rowsStmt db workspaceId)
    (hrow' : row' ∈ rowsStmt db workspaceId) (hid : row'.part.id = row.part.id) : row' = row :=
  List.inj_on_of_nodup_map (nodup_rowsStmt hdb) hrow' hrow hid

theorem listedIn_other (hdb : Keyed db) (hrow : row ∈ rowsStmt db workspaceId) {other : Option Uuid}
    (hother : other ∈ buckets db workspaceId) (hne : other ≠ bucketOf row) :
    listedIn collate baseUrl db workspaceId other row.part = [] := by
  rw [listedIn, List.filter_eq_nil_iff, listParts_eq hdb]
  intro doc hdoc hid
  obtain ⟨row', hrow', hdoc⟩ := List.mem_filterMap.mp hdoc
  obtain ⟨hrow', hbucket⟩ := (mem_orderRows hother).mp hrow'
  rw [decide_eq_true_eq, documentOf_id hdoc] at hid
  rw [row_of_id hdb hrow hrow' hid] at hbucket
  exact hne hbucket.symm

theorem partDetail_eq (hdb : Keyed db) (hrow : row ∈ rowsStmt db workspaceId) :
    partDetail baseUrl db workspaceId row.part.id = documentOf baseUrl db workspaceId row := by
  have hfound : (rowsStmt db workspaceId).find? (fun r => r.part.id = row.part.id) = some row := by
    have hsome : ((rowsStmt db workspaceId).find? fun r => r.part.id = row.part.id).isSome = true :=
      List.find?_isSome.mpr ⟨row, hrow, decide_eq_true rfl⟩
    obtain ⟨row', hrow'⟩ := Option.isSome_iff_exists.mp hsome
    have hid : row'.part.id = row.part.id := by simpa using List.find?_some hrow'
    rw [hrow', row_of_id hdb hrow (List.mem_of_find?_eq_some hrow') hid]
  rw [partDetail, hfound]
  rfl

theorem eligible_of_row (hrow : row ∈ rowsStmt db workspaceId)
    (hdoc : documentOf baseUrl db workspaceId row = some doc) : Eligible db workspaceId row.part := by
  have hsymbol : (symbolIdStr row).isSome = true := by
    rw [← @documentOf_isSome db workspaceId baseUrl row, hdoc, Option.isSome_some]
  obtain ⟨part, hpart, hwhere, rfl⟩ := mem_rowsStmt.mp hrow
  exact ⟨hpart, hwhere, hsymbol⟩

theorem eligible_of_detail {partId : Uuid} (h : partDetail baseUrl db workspaceId partId = some doc) :
    ∃ part, Eligible db workspaceId part ∧ part.id = partId := by
  obtain ⟨row, hrow, hdoc⟩ := Option.bind_eq_some_iff.mp h
  have hid : row.part.id = partId := by simpa using List.find?_some hrow
  exact ⟨row.part, eligible_of_row (List.mem_of_find?_eq_some hrow) hdoc, hid⟩

theorem mem_documentIds {rows : List PartCategory} (hids : (rows.map (·.id)).Nodup) {category : PartCategory}
    (hmem : category ∈ rows) (description : Categories.PartCategory × String → String) :
    some category.id ∈ ((Categories.treePaths (rows.map (·.toPartCategory)) Categories.pathSeparator).map
      fun item => CategoryDocument.mk (some item.1.id) item.2 (description item)).map (·.id) := by
  have hrows : ((rows.map (·.toPartCategory)).map (·.id)).Nodup := by
    rw [List.map_map]
    exact hids
  have hlisted := (Categories.treePaths_perm hrows Categories.pathSeparator).mem_iff.mpr
    (List.mem_map_of_mem hmem)
  obtain ⟨item, hitem, heq⟩ := List.mem_map.mp hlisted
  have hid : some item.1.id = some category.id := by rw [heq]
  rw [List.map_map]
  exact List.mem_map.mpr ⟨item, hitem, hid⟩

theorem mem_listCategories (hdb : Keyed db) (heligible : Eligible db workspaceId part) :
    bucketOf (partRow db part) ∈ (listCategories collate db workspaceId).map (·.id) := by
  obtain ⟨hpart, hwhere, hsymbol⟩ := heligible
  have hrow := mem_rowsStmt_partRow hpart hwhere
  cases hcategory : (partRow db part).category with
  | none =>
    have huncategorized : hasUncategorizedParts db workspaceId = true := by
      rw [hasUncategorizedParts, List.any_eq_true]
      refine ⟨partRow db part, (mem_bucketRows List.mem_cons_self).mpr ⟨hrow, ?_⟩, hsymbol⟩
      rw [bucketOf, hcategory, Option.map_none]
    rw [bucketOf, hcategory, Option.map_none, listCategories, if_pos huncategorized, List.map_append]
    exact List.mem_append_right _ (List.mem_singleton_self none)
  | some category =>
    have hperm := List.mergeSort_perm (activeCategories db workspaceId) fun a b =>
      a.sortOrder < b.sortOrder ∨ a.sortOrder = b.sortOrder ∧ collate a.name b.name
    have hids : ((activeCategories db workspaceId).map (·.id)).Nodup :=
      hdb.categories.sublist (List.filter_sublist.map _)
    have hdocs := mem_documentIds ((hperm.map _).nodup_iff.mpr hids)
      (hperm.mem_iff.mpr (category_of_row hrow hcategory).1)
    rw [bucketOf, hcategory, Option.map_some]
    unfold listCategories
    dsimp only
    split
    next =>
      rw [List.map_append]
      exact List.mem_append_left _ (hdocs _)
    next => exact hdocs _

/-- The spec keys that a category asks for, its own or inherited -/
def kicadFieldsOf (db : Db) (workspaceId : Uuid) (category : PartCategory) : List String :=
  ((Dict.find category.id (rulesByCategory (categoryRows db) workspaceId [category.toCategoryRow] none)).bind
    (·.kicadFields)).getD []

structure WellFormed (db : Db) (workspaceId : Uuid) (part : Part) (doc : Document) : Prop where
  distinct : Distinct doc.fields
  filled : Filled doc.fields
  specs : ∀ category, (partRow db part).category = some category →
    ∀ key ∈ kicadFieldsOf db workspaceId category, ∀ value, Live db workspaceId part.id key value →
      (specFieldLabel key).toLower ∉ builtInFieldNames →
        Dict.find (specFieldLabel key) doc.fields = some ⟨value, true⟩

theorem wellFormed_documentOf (hdb : Keyed db) (hfields : ValidFields db)
    (hrow : partRow db part ∈ rowsStmt db workspaceId)
    (hdoc : documentOf baseUrl db workspaceId (partRow db part) = some doc) : WellFormed db workspaceId part doc := by
  have halone : ∀ r ∈ [partRow db part], r ∈ rowsStmt db workspaceId :=
    fun r hr => List.mem_singleton.mp hr ▸ hrow
  have hself := List.mem_singleton_self (partRow db part)
  rw [documentOf_eq] at hdoc
  obtain ⟨text, -, rfl⟩ := Option.map_eq_some_iff.mp hdoc
  refine ⟨distinct_putSpecFields (distinct_ownFields _ _ _ _ _),
    filled_putSpecFieldsFrom (filled_ownFields _ _ _ _ _), ?_⟩
  intro category hcategory key hkey value hlive hbuilt
  have hkeys : kicadFieldsOf db workspaceId category =
      (ruleFor (rulesOf db workspaceId [partRow db part]) (partRow db part)).kicadFields.getD [] := by
    have hrules : rulesOf db workspaceId [partRow db part] =
        rulesByCategory (categoryRows db) workspaceId [category.toCategoryRow] none := by
      rw [rulesOf, List.filterMap_cons, hcategory, List.filterMap_nil]
      rfl
    rw [kicadFieldsOf, ruleFor, hcategory, Option.bind_some, hrules]
    cases Dict.find category.id _ <;> rfl
  rw [hkeys] at hkey
  obtain ⟨hnodup, hvalid⟩ := validFields_ruleFor hdb hfields halone hself
  have hasked : key ∈ datasheetFieldKey ::
      (placeholderKeys (ruleFor (rulesOf db workspaceId [partRow db part]) (partRow db part)).valueTemplate ++
        (ruleFor (rulesOf db workspaceId [partRow db part]) (partRow db part)).kicadFields.getD []) :=
    List.mem_cons_of_mem _ (List.mem_append_right _ hkey)
  have hfound := (find_specsOf hdb hself hasked).mpr hlive
  obtain ⟨field, -, -, -, -, -, -, hvalue⟩ := hlive
  have hvalue : truthy (some value) = some value :=
    truthy_eq_some.mpr ⟨rfl, (truthy_eq_some.mp hvalue).2⟩
  exact find_putSpecFields hvalid hnodup (under_ownFields _ _ _ _ _) hkey hbuilt (hfound ▸ hvalue)

/-- Each eligible part stands in one bucket, which the chooser offers, as its own detail;
nothing else is listed anywhere. -/
theorem parts_listed_once (hdb : Keyed db) (hfields : ValidFields db) (workspaceId : Uuid)
    (collate : String → String → Bool) (baseUrl : String) :
    (∀ part, Eligible db workspaceId part →
      ∃ doc, partDetail baseUrl db workspaceId part.id = some doc ∧ WellFormed db workspaceId part doc ∧
        ∃ bucket ∈ buckets db workspaceId, bucket ∈ (listCategories collate db workspaceId).map (·.id) ∧
          listedIn collate baseUrl db workspaceId bucket part = [doc] ∧
          ∀ other ∈ buckets db workspaceId, other ≠ bucket →
            listedIn collate baseUrl db workspaceId other part = []) ∧
      (∀ bucket ∈ buckets db workspaceId, ∀ doc ∈ listParts collate baseUrl db workspaceId bucket,
        ∃ part, Eligible db workspaceId part ∧ partDetail baseUrl db workspaceId part.id = some doc) ∧
      ∀ partId doc, partDetail baseUrl db workspaceId partId = some doc →
        ∃ part, Eligible db workspaceId part ∧ part.id = partId := by
  refine ⟨fun part heligible => ?_, fun bucket hbucket doc hdoc => ?_, fun _ _ => eligible_of_detail⟩
  · have hrow := mem_rowsStmt_partRow heligible.1 heligible.2.1
    have hsome : (documentOf baseUrl db workspaceId (partRow db part)).isSome = true := by
      rw [documentOf_isSome]
      exact heligible.2.2
    obtain ⟨doc, hdoc⟩ := Option.isSome_iff_exists.mp hsome
    exact ⟨doc, (partDetail_eq hdb hrow).trans hdoc, wellFormed_documentOf hdb hfields hrow hdoc,
      bucketOf (partRow db part), bucketOf_mem hrow, mem_listCategories hdb heligible, listedIn_own hdb hrow hdoc,
      fun other hother hne => listedIn_other hdb hrow hother hne⟩
  · rw [listParts_eq hdb] at hdoc
    obtain ⟨row, hrow, hdoc⟩ := List.mem_filterMap.mp hdoc
    obtain ⟨hrow, -⟩ := (mem_orderRows hbucket).mp hrow
    exact ⟨row.part, eligible_of_row hrow hdoc, (partDetail_eq hdb hrow).trans hdoc⟩

def sampleCategory : PartCategory where
  id := 10
  name := "Ceramic"
  sortOrder := 0
  parentId := none
  archivedAt := none
  workspaceId := 1
  refdesPrefix := none
  valueTemplate := none
  kicadFields := some (.list ["voltage_rating", "value"])
  listColumns := none
  listSort := none
  description := none
  librarySlug := "ceramic"
  defaultSymbolRef := some "Device:C"
  defaultFootprintRef := none
  footprintFilters := none

def samplePart : Part := ⟨20, 1, "100n", some 10, none, none, none, none, none⟩

def sampleDb : Db where
  parts := [samplePart]
  partEda := []
  symbols := []
  footprints := []
  datafiles := []
  categories := [sampleCategory]
  customFields := [⟨1, "part", 20, "voltage_rating", some "50 V", none⟩, ⟨1, "part", 20, "value", some "1", none⟩]

theorem sampleDb_valid : Keyed sampleDb ∧ ValidFields sampleDb := by
  refine ⟨⟨by decide, by decide, by decide⟩, ?_⟩
  intro category hcategory keys hkeys
  obtain rfl := List.mem_singleton.mp hcategory
  obtain rfl : ["voltage_rating", "value"] = keys := Option.some.inj hkeys
  refine ⟨by decide, fun key hkey c hc => ?_⟩
  have hall : ∀ key ∈ ["voltage_rating", "value"], key.toList.all isKeyChar = true := by decide
  exact List.all_eq_true.mp (hall key hkey) c hc

theorem parts_listed_once_ceramic :
    ∃ doc, partDetail "" sampleDb 1 20 = some doc ∧
      Dict.find "Voltage Rating" doc.fields = some ⟨"50 V", true⟩ ∧ Distinct doc.fields ∧
        ∀ bucket ∈ [none, some 10], bucket ≠ some 10 →
          listedIn (fun a b => decide (a ≤ b)) "" sampleDb 1 bucket samplePart = [] := by
  have heligible : Eligible sampleDb 1 samplePart := ⟨by decide, by decide, by decide⟩
  obtain ⟨hlisted, -, -⟩ := parts_listed_once sampleDb_valid.1 sampleDb_valid.2 1 (fun a b => decide (a ≤ b)) ""
  obtain ⟨doc, hdoc, hwell, bucket, hbucket, -, hown, hother⟩ := hlisted samplePart heligible
  have hlabel : specFieldLabel "voltage_rating" = "Voltage Rating" := by decide
  have hspec := hwell.specs sampleCategory (by decide) "voltage_rating" (by decide) "50 V"
    ⟨⟨1, "part", 20, "voltage_rating", some "50 V", none⟩, by decide, by decide, by decide, by decide, by decide,
      by decide, by decide⟩ (by decide +kernel)
  rw [hlabel] at hspec
  refine ⟨doc, hdoc, hspec, hwell.distinct, fun other hmem hne => hother other hmem fun heq => hne ?_⟩
  subst heq
  rcases List.mem_cons.mp hmem with rfl | hten
  · have hempty : listedIn (fun a b => decide (a ≤ b)) "" sampleDb 1 none samplePart = [] := by decide +kernel
    exact absurd (hempty.symm.trans hown) nofun
  · exact List.mem_singleton.mp hten

end StockManager.Kicad
