import Mathlib
import StockManager.Effects.SpecPartition
import StockManager.Properties.SpecRoundTrip

/-! # The four buckets of a spec payload

Every key of a payload lies in one bucket; the exception is a key that the payload gives in vain and
the description gives again. -/

namespace StockManager.Specs

variable {py : CharTables} {readers : Readers} {categorySlug : Option String} {provider : String}
  {raw : List (String × String)} {description : Option String} {attributes mined : String → Option String}

def VerbatimApart (provider : String) (spec other : SpecKey) : Prop :=
  ∀ name ∈ verbatimIfUnextracted, name ∈ aliasesFor provider spec → name ∉ aliasesFor provider other

theorem commonSpecs_apart (provider : String) : commonSpecs.Pairwise (VerbatimApart provider) := by
  have hmouser : commonSpecs.Pairwise (fun spec other => ∀ name ∈ verbatimIfUnextracted,
      name ∈ spec.mouserAliases → name ∉ other.mouserAliases) := by decide
  have hdigikey : commonSpecs.Pairwise (fun spec other => ∀ name ∈ verbatimIfUnextracted,
      name ∈ spec.digikeyAliases → name ∉ other.digikeyAliases) := by decide
  by_cases h : provider = "mouser"
  · refine hmouser.imp fun hapart name => ?_
    rw [aliasesFor, aliasesFor, if_pos h, if_pos h]
    exact hapart name
  · refine hdigikey.imp fun hapart name => ?_
    rw [aliasesFor, aliasesFor, if_neg h, if_neg h]
    exact hapart name

theorem not_mem_own_aliases {slug : String} {specs : List SpecKey} (hslug : slug ≠ "common")
    (h : Dict.find slug canonicalSpecs = some specs) {spec : SpecKey} (hspec : spec ∈ specs) :
    ∀ name ∈ verbatimIfUnextracted, name ∉ aliasesFor provider spec := by
  have htable : ∀ item ∈ canonicalSpecs, item.1 = "common" ∨ ∀ spec ∈ item.2,
      ∀ name ∈ verbatimIfUnextracted, name ∉ spec.mouserAliases ∧ name ∉ spec.digikeyAliases := by
    decide
  intro name hname
  have hnot := ((htable _ (Dict.mem_of_find h)).resolve_left hslug) spec hspec name hname
  rw [aliasesFor]
  split
  next => exact hnot.1
  next => exact hnot.2

theorem specKeysFor_apart (categorySlug : Option String) (provider : String) :
    (specKeysFor categorySlug).Pairwise (VerbatimApart provider) := by
  rw [specKeysFor]
  split
  next => exact commonSpecs_apart provider
  next hslug =>
    rw [not_or] at hslug
    obtain ⟨slug, rfl⟩ : ∃ slug, categorySlug = some slug := by
      cases categorySlug with
      | none => exact absurd rfl hslug.1
      | some slug => exact ⟨slug, rfl⟩
    have hcommon : slug ≠ "common" := fun h => hslug.2 (congrArg some h)
    cases hfind : Dict.find slug canonicalSpecs with
    | none =>
      rw [Option.getD_some, hfind, Option.getD_none, List.append_nil]
      exact (commonSpecs_apart provider).filter _
    | some specs =>
      rw [Option.getD_some, hfind, Option.getD_some]
      have hown {spec : SpecKey} (hspec : spec ∈ specs) :=
        @not_mem_own_aliases provider slug specs hcommon hfind spec hspec
      refine List.pairwise_append.mpr ⟨(commonSpecs_apart provider).filter _, ?_, ?_⟩
      · exact List.pairwise_of_forall_mem_list fun spec hspec other _ name hname hmem =>
          absurd hmem (hown hspec name hname)
      · exact fun spec _ other hother name hname _ => hown hother name hname

theorem toSpecValue_raw {spec : SpecKey} {rawKey rawValue : String} {value : SpecValue}
    (h : toSpecValue readers spec rawKey rawValue = some value) :
    value.rawKey = rawKey ∧ value.rawValue = rawValue := by
  obtain ⟨text, -, rfl⟩ := Option.map_eq_some_iff.mp h
  split
  next => exact ⟨rfl, rfl⟩
  next =>
    split
    next => exact ⟨rfl, rfl⟩
    next => split <;> exact ⟨rfl, rfl⟩

theorem mem_candidates {aliases : List String} {pair : String × String}
    (h : pair ∈ candidates attributes mined aliases) :
    pair.1 ∈ aliases ∧ (attributes pair.1 = some pair.2 ∨ mined pair.1 = some pair.2) := by
  rcases List.mem_append.mp h with h | h
  all_goals
    obtain ⟨name, hname, hpair⟩ := List.mem_filterMap.mp h
    obtain ⟨value, hvalue, rfl⟩ := Option.map_eq_some_iff.mp hpair
  · exact ⟨hname, .inl hvalue⟩
  · exact ⟨hname, .inr hvalue⟩

/-- What holds once the specs `resolvedSpecs` are resolved. -/
structure ResolvedBy (provider : String) (attributes mined : String → Option String)
    (resolvedSpecs : List SpecKey) (resolved : Resolved) : Prop where
  winner : ∀ item ∈ resolved.canonical, item.2.rawKey ∈ resolved.consumed
  source : ∀ item ∈ resolved.canonical, attributes item.2.rawKey = some item.2.rawValue ∨
    mined item.2.rawKey = some item.2.rawValue
  aliases : ∀ item ∈ resolved.canonical, ∃ spec ∈ resolvedSpecs, item.2.rawKey ∈ aliasesFor provider spec
  consumed : ∀ key ∈ resolved.consumed, (attributes key).isSome = true ∨ (mined key).isSome = true

theorem ResolvedBy.step {specs : List SpecKey} {resolved : Resolved} {spec : SpecKey}
    (h : ResolvedBy provider attributes mined specs resolved)
    (hapart : ∀ other ∈ specs, VerbatimApart provider other spec) :
    ResolvedBy provider attributes mined (specs ++ [spec])
      (resolveSpec readers provider attributes mined resolved spec) := by
  have hweaken {name : String} (hname : ∃ other ∈ specs, name ∈ aliasesFor provider other) :
      ∃ other ∈ specs ++ [spec], name ∈ aliasesFor provider other := by
    obtain ⟨other, hother, hmem⟩ := hname
    exact ⟨other, List.mem_append_left _ hother, hmem⟩
  have hsource {key : String}
      (hkey : key ∈ (candidates attributes mined (aliasesFor provider spec)).map Prod.fst) :
      key ∈ aliasesFor provider spec ∧ ((attributes key).isSome = true ∨ (mined key).isSome = true) := by
    obtain ⟨pair, hpair, rfl⟩ := List.mem_map.mp hkey
    obtain ⟨hmem, hvalue⟩ := mem_candidates hpair
    exact ⟨hmem, hvalue.imp (fun heq => by rw [heq]; rfl) fun heq => by rw [heq]; rfl⟩
  have hconsumed {key : String} (hkey : key ∈ resolved.consumed ++
      (candidates attributes mined (aliasesFor provider spec)).map Prod.fst) :
      (attributes key).isSome = true ∨ (mined key).isSome = true := by
    rcases List.mem_append.mp hkey with hkey | hkey
    · exact h.consumed key hkey
    · exact (hsource hkey).2
  rw [resolveSpec]
  split
  next => exact ⟨h.winner, h.source, fun item hitem => hweaken (h.aliases item hitem), h.consumed⟩
  next =>
    split
    next value hfound =>
      obtain ⟨pair, hpair, hvalue⟩ := List.exists_of_findSome?_eq_some hfound
      obtain ⟨hkey, hraw⟩ := toSpecValue_raw hvalue
      obtain ⟨hmem, hgiven⟩ := mem_candidates hpair
      rw [← hkey, ← hraw] at hgiven
      refine ⟨fun item hitem => ?_, fun item hitem => ?_, fun item hitem => ?_, fun key => hconsumed⟩
      all_goals rcases Dict.mem_put hitem with rfl | hold
      · refine List.mem_append_right _ ?_
        rw [hkey]
        exact List.mem_map_of_mem hpair
      · exact List.mem_append_left _ (h.winner item hold)
      · exact hgiven
      · exact h.source item hold
      · exact ⟨spec, by simp, by rw [hkey]; exact hmem⟩
      · exact hweaken (h.aliases item hold)
    next =>
      refine ⟨fun item hitem => ?_, h.source, fun item hitem => hweaken (h.aliases item hitem),
        fun key hkey => hconsumed (List.mem_of_mem_filter hkey)⟩
      -- a winner of an earlier spec is not among the aliases given back here
      refine List.mem_filter.mpr ⟨List.mem_append_left _ (h.winner item hitem), decide_eq_true ?_⟩
      intro ⟨hmem, hverbatim⟩
      obtain ⟨other, hother, halias⟩ := h.aliases item hitem
      exact hapart other hother _ hverbatim halias (hsource hmem).1

theorem foldl_resolvedBy (readers : Readers) {specs : List SpecKey}
    (hapart : specs.Pairwise (VerbatimApart provider)) :
    ResolvedBy provider attributes mined specs
      (specs.foldl (resolveSpec readers provider attributes mined) ⟨[], []⟩) := by
  induction specs using List.reverseRecOn with
  | nil => exact ⟨by simp, by simp, by simp, by simp⟩
  | append_singleton specs spec ih =>
    rw [List.pairwise_append] at hapart
    rw [List.foldl_append]
    exact (ih hapart.1).step fun other hother => hapart.2.2 other hother spec (by simp)

theorem resolveCanonical_resolvedBy (readers : Readers) (categorySlug : Option String) (provider : String)
    (attributes mined : String → Option String) :
    ResolvedBy provider attributes mined (specKeysFor categorySlug)
      (resolveCanonical readers categorySlug provider attributes mined) :=
  foldl_resolvedBy readers (specKeysFor_apart categorySlug provider)

def minedPairs (py : CharTables) (provider : String) (raw : List (String × String))
    (description : Option String) : List (String × String) :=
  (keptPairs (minedSpecs py provider description)).filter fun pair =>
    pair.1 ∉ (keptPairs raw).map Prod.fst

def resolvedOf (py : CharTables) (readers : Readers) (categorySlug : Option String) (provider : String)
    (raw : List (String × String)) (description : Option String) : Resolved :=
  resolveCanonical readers categorySlug provider (fun key => Dict.find key (keptPairs raw))
    fun key => Dict.find key (minedPairs py provider raw description)

def keptKeys (py : CharTables) (provider : String) (raw : List (String × String))
    (description : Option String) : List String :=
  Dict.keys (keptPairs raw ++ minedPairs py provider raw description)

theorem mem_keys_minedPairs {key : String} : key ∈ Dict.keys (minedPairs py provider raw description) ↔
    key ∈ Dict.keys (keptPairs (minedSpecs py provider description)) ∧
      key ∉ Dict.keys (keptPairs raw) := by
  simp only [minedPairs, Dict.keys, List.mem_map, List.mem_filter, decide_eq_true_eq]
  constructor
  · rintro ⟨pair, ⟨hpair, hnew⟩, hkey⟩
    exact ⟨⟨pair, hpair, hkey⟩, hkey ▸ hnew⟩
  · rintro ⟨⟨pair, hpair, hkey⟩, hnew⟩
    exact ⟨pair, ⟨hpair, hkey ▸ hnew⟩, hkey⟩

theorem nodup_keptKeys : (keptKeys py provider raw description).Nodup := by
  rw [keptKeys, Dict.keys, List.map_append]
  refine List.nodup_append.mpr ⟨nodup_keptPairs, ?_, fun a ha b hb heq => ?_⟩
  · exact nodup_keptPairs.sublist (List.filter_sublist.map _)
  · rw [heq] at ha
    exact (mem_keys_minedPairs.mp hb).2 ha

theorem consumed_kept {key : String}
    (h : key ∈ (resolvedOf py readers categorySlug provider raw description).consumed) :
    key ∈ keptKeys py provider raw description := by
  have hsome {d : List (String × String)} (hfind : (Dict.find key d).isSome = true) :
      key ∈ Dict.keys d := by
    by_contra hnot
    rw [Dict.find_eq_none.mpr hnot] at hfind
    exact absurd hfind (by simp)
  rw [keptKeys, Dict.keys, List.map_append, List.mem_append]
  exact ((resolveCanonical_resolvedBy readers categorySlug provider _ _).consumed key h).imp hsome hsome

def IsCatalog (py : CharTables) (key : String) : Prop :=
  key ∈ providerReservedCustomFieldKeys ∨ isCatalogKey py key = true

theorem mem_canonical {key : String} :
    key ∈ (normalise py readers categorySlug provider raw description).canonical.map (·.2.rawKey) →
      key ∈ (resolvedOf py readers categorySlug provider raw description).consumed := by
  intro h
  obtain ⟨item, hitem, rfl⟩ := List.mem_map.mp h
  exact (resolveCanonical_resolvedBy readers categorySlug provider _ _).winner item hitem

theorem mem_keys_foldl_put {rows : List (String × String)} {key : String} :
    key ∈ Dict.keys (rows.foldl (fun d pair => Dict.put pair.1 pair.2 d) []) ↔
      key ∈ rows.map Prod.fst := by
  induction rows using List.reverseRecOn with
  | nil => exact Iff.rfl
  | append_singleton rows pair ih =>
    rw [List.foldl_append, List.map_append, List.mem_append]
    show key ∈ Dict.keys (Dict.put pair.1 pair.2 _) ↔ _
    rw [Dict.put, Dict.mem_keys_upsert, ih, List.map_singleton, List.mem_singleton, or_comm]

theorem mem_keys_filter {rows : List (String × String)} {key : String} (p : String → Bool) :
    key ∈ (rows.filter fun pair => p pair.1).map Prod.fst ↔ key ∈ Dict.keys rows ∧ p key = true := by
  simp only [Dict.keys, List.mem_map, List.mem_filter]
  constructor
  · rintro ⟨pair, ⟨hpair, hp⟩, hkey⟩
    exact ⟨⟨pair, hpair, hkey⟩, hkey ▸ hp⟩
  · rintro ⟨⟨pair, hpair, hkey⟩, hp⟩
    exact ⟨pair, ⟨hpair, hkey ▸ hp⟩, hkey⟩

theorem mem_optional {key : String} :
    key ∈ Dict.keys (normalise py readers categorySlug provider raw description).optional ↔
      (key ∈ keptKeys py provider raw description ∧
        key ∉ (resolvedOf py readers categorySlug provider raw description).consumed) ∧
        ¬ IsCatalog py key := by
  refine mem_keys_foldl_put.trans ((mem_keys_filter fun key =>
    decide (¬ (key ∈ providerReservedCustomFieldKeys ∨ isCatalogKey py key = true))).trans ?_)
  rw [decide_eq_true_iff]
  refine and_congr_left fun _ => (mem_keys_filter fun key => decide (key ∉
    (resolvedOf py readers categorySlug provider raw description).consumed)).trans ?_
  rw [decide_eq_true_iff]
  rfl

theorem mem_catalog {key : String} :
    key ∈ Dict.keys (normalise py readers categorySlug provider raw description).catalog ↔
      (key ∈ keptKeys py provider raw description ∧
        key ∉ (resolvedOf py readers categorySlug provider raw description).consumed) ∧
        IsCatalog py key := by
  refine mem_keys_foldl_put.trans ((mem_keys_filter fun key =>
    decide (key ∈ providerReservedCustomFieldKeys ∨ isCatalogKey py key = true)).trans ?_)
  rw [decide_eq_true_iff]
  refine and_congr_left fun _ => (mem_keys_filter fun key => decide (key ∉
    (resolvedOf py readers categorySlug provider raw description).consumed)).trans ?_
  rw [decide_eq_true_iff]
  rfl

def Superseded (py : CharTables) (readers : Readers) (categorySlug : Option String) (provider : String)
    (raw : List (String × String)) (description : Option String) (key : String) : Prop :=
  key ∈ (resolvedOf py readers categorySlug provider raw description).consumed ∧
    key ∉ (normalise py readers categorySlug provider raw description).canonical.map (·.2.rawKey)

theorem dropped_eq : ∃ superseded : List String,
    (normalise py readers categorySlug provider raw description).dropped =
      refusedKeys raw ++ (refusedKeys (minedSpecs py provider description)).filter
        (fun key => key ∉ Dict.keys (keptPairs raw)) ++ superseded ∧
      superseded.Nodup ∧ ∀ key, key ∈ superseded ↔
        Superseded py readers categorySlug provider raw description key := by
  refine ⟨_, rfl, nodup_keptKeys.filter _, fun key => ?_⟩
  rw [List.mem_filter, decide_eq_true_eq]
  exact and_iff_right_of_imp fun h => consumed_kept h.1

def RefusedOf (py : CharTables) (provider : String) (raw : List (String × String))
    (description : Option String) (key : String) : Prop :=
  Refused raw key ∨ Refused (minedSpecs py provider description) key ∧ key ∉ Dict.keys (keptPairs raw)

theorem mem_dropped {key : String} :
    key ∈ (normalise py readers categorySlug provider raw description).dropped ↔
      RefusedOf py provider raw description key ∨
        Superseded py readers categorySlug provider raw description key := by
  obtain ⟨superseded, hdropped, -, hmem⟩ := @dropped_eq py readers categorySlug provider raw description
  rw [hdropped, List.mem_append, List.mem_append, hmem, mem_refusedKeys, List.mem_filter,
    mem_refusedKeys, decide_eq_true_eq, RefusedOf]

def InCanonical (out : NormalisedSpecs) (key : String) : Prop :=
  key ∈ out.canonical.map (·.2.rawKey)

/-- The key lies in one of the four places and in no other. -/
def OnePlace (out : NormalisedSpecs) (key : String) : Prop :=
  (InCanonical out key ∧ key ∉ Dict.keys out.optional ∧ key ∉ Dict.keys out.catalog ∧
      key ∉ out.dropped) ∨
    (¬ InCanonical out key ∧ key ∈ Dict.keys out.optional ∧ key ∉ Dict.keys out.catalog ∧
      key ∉ out.dropped) ∨
    (¬ InCanonical out key ∧ key ∉ Dict.keys out.optional ∧ key ∈ Dict.keys out.catalog ∧
      key ∉ out.dropped) ∨
    (¬ InCanonical out key ∧ key ∉ Dict.keys out.optional ∧ key ∉ Dict.keys out.catalog ∧
      key ∈ out.dropped)

/-- Every key given lies in one place, and no key is dropped twice. -/
structure Buckets (py : CharTables) (readers : Readers) (categorySlug : Option String)
    (provider : String) (raw : List (String × String)) (description : Option String) : Prop where
  onePlace : ∀ key, Given raw key ∨ Given (minedSpecs py provider description) key →
    OnePlace (normalise py readers categorySlug provider raw description) key
  dropped : (normalise py readers categorySlug provider raw description).dropped.Nodup

/-- No key that the payload gives in vain is given by the description. -/
def NoneGivenAgain (py : CharTables) (provider : String) (raw : List (String × String))
    (description : Option String) : Prop :=
  ∀ key, Refused raw key → ¬ Given (minedSpecs py provider description) key

theorem kept_or_refused {key : String}
    (h : Given raw key ∨ Given (minedSpecs py provider description) key) :
    key ∈ keptKeys py provider raw description ∨ RefusedOf py provider raw description key := by
  rw [keptKeys, Dict.keys, List.map_append, List.mem_append]
  by_cases hkept : key ∈ Dict.keys (keptPairs raw)
  · exact .inl (.inl hkept)
  · rcases h with h | h
    · exact .inr (.inl ((given_iff.mp h).resolve_left hkept))
    · rcases given_iff.mp h with h | h
      · exact .inl (.inr (mem_keys_minedPairs.mpr ⟨h, hkept⟩))
      · exact .inr (.inr ⟨h, hkept⟩)

theorem not_refused_of_kept {key : String} (h : key ∈ Dict.keys (keptPairs raw)) : ¬ Refused raw key := by
  rw [mem_keys_keptPairs] at h
  intro hrefused
  rw [(refused_iff.mp hrefused).2] at h
  exact absurd h (by simp)

theorem not_refusedOf_of_kept {key : String} (hcond : NoneGivenAgain py provider raw description)
    (h : key ∈ keptKeys py provider raw description) : ¬ RefusedOf py provider raw description key := by
  rw [keptKeys, Dict.keys, List.map_append, List.mem_append] at h
  rintro (hrefused | ⟨hrefused, hnew⟩)
  · refine h.elim (fun h => not_refused_of_kept h hrefused) fun h => hcond key hrefused ?_
    exact given_iff.mpr (.inl (mem_keys_minedPairs.mp h).1)
  · exact h.elim hnew fun h => not_refused_of_kept (mem_keys_minedPairs.mp h).1 hrefused

theorem onePlace_of_noneGivenAgain (hcond : NoneGivenAgain py provider raw description) {key : String}
    (h : Given raw key ∨ Given (minedSpecs py provider description) key) :
    OnePlace (normalise py readers categorySlug provider raw description) key := by
  have hwinner := @mem_canonical py readers categorySlug provider raw description key
  have hconsumed := @consumed_kept py readers categorySlug provider raw description key
  have hapart := @not_refusedOf_of_kept py provider raw description key hcond
  have hor := kept_or_refused h
  rw [OnePlace]
  simp only [mem_optional, mem_catalog, mem_dropped, Superseded, InCanonical]
  by_cases hkept : key ∈ keptKeys py provider raw description
  · have hrefused := hapart hkept
    by_cases hc : key ∈ (resolvedOf py readers categorySlug provider raw description).consumed
    · by_cases hw : key ∈ (normalise py readers categorySlug provider raw description).canonical.map
        (·.2.rawKey) <;> simp [hkept, hrefused, hc, hw]
    · by_cases hcatalog : IsCatalog py key <;>
        simp [hkept, hrefused, hc, mt hwinner hc, hcatalog]
  · have hrefused := hor.resolve_left hkept
    have hc := mt hconsumed hkept
    simp [hkept, hrefused, hc, mt hwinner hc]

theorem nodup_dropped (hcond : NoneGivenAgain py provider raw description) :
    (normalise py readers categorySlug provider raw description).dropped.Nodup := by
  obtain ⟨superseded, hdropped, hnodup, hmem⟩ := @dropped_eq py readers categorySlug provider raw description
  rw [hdropped]
  refine List.nodup_append.mpr ⟨List.nodup_append.mpr ⟨nodup_refusedKeys, nodup_refusedKeys.filter _,
    fun key hkey other hother heq => ?_⟩, hnodup, fun key hkey other hother heq => ?_⟩
  · rw [heq, mem_refusedKeys] at hkey
    rw [List.mem_filter, mem_refusedKeys] at hother
    exact hcond other hkey hother.1.1
  · rw [heq, List.mem_append, mem_refusedKeys, List.mem_filter, mem_refusedKeys, decide_eq_true_eq] at hkey
    exact not_refusedOf_of_kept hcond (consumed_kept ((hmem other).mp hother).1) hkey

theorem noneGivenAgain_of_buckets
    (h : Buckets py readers categorySlug provider raw description) :
    NoneGivenAgain py provider raw description := by
  intro key hrefused hgiven
  have hnew : key ∉ Dict.keys (keptPairs raw) := fun hkept => not_refused_of_kept hkept hrefused
  have hnodup := h.dropped
  obtain ⟨superseded, hdropped, -, hmem⟩ := @dropped_eq py readers categorySlug provider raw description
  rw [hdropped, List.nodup_append, List.nodup_append] at hnodup
  have hfirst := mem_refusedKeys.mpr hrefused
  rcases given_iff.mp hgiven with hkept | hagain
  · have hone := h.onePlace key (.inr hgiven)
    have hmined : key ∈ keptKeys py provider raw description := by
      rw [keptKeys, Dict.keys, List.map_append, List.mem_append]
      exact .inr (mem_keys_minedPairs.mpr ⟨hkept, hnew⟩)
    have hdrop : RefusedOf py provider raw description key := .inl hrefused
    have hwinner := @mem_canonical py readers categorySlug provider raw description key
    rw [OnePlace] at hone
    simp only [mem_optional, mem_catalog, mem_dropped, Superseded, InCanonical] at hone
    by_cases hc : key ∈ (resolvedOf py readers categorySlug provider raw description).consumed
    · by_cases hw : key ∈ (normalise py readers categorySlug provider raw description).canonical.map
        (·.2.rawKey)
      · simp [hdrop, hc, hw] at hone
      · exact hnodup.2.2 key (List.mem_append_left _ hfirst) key ((hmem key).mpr ⟨hc, hw⟩) rfl
    · by_cases hcatalog : IsCatalog py key <;>
        simp [hmined, hdrop, hc, mt hwinner hc, hcatalog] at hone
  · refine hnodup.1.2.2 key hfirst key (List.mem_filter.mpr ⟨mem_refusedKeys.mpr hagain, ?_⟩) rfl
    exact decide_eq_true hnew

theorem canonical_given : ∀ item ∈ (normalise py readers categorySlug provider raw description).canonical,
    ∃ pair ∈ raw ++ minedSpecs py provider description, strip pair.1 = item.2.rawKey ∧
      strip pair.2 = item.2.rawValue ∧ isJunkValue item.2.rawValue = false := by
  intro item hitem
  rcases (resolveCanonical_resolvedBy readers categorySlug provider _ _).source item hitem with h | h
  · rw [find_keptPairs] at h
    obtain ⟨pair, hpair, hgiven⟩ := firstReal_value h
    exact ⟨pair, List.mem_append_left _ hpair, hgiven⟩
  · have hmem := List.mem_of_mem_filter (Dict.mem_of_find h)
    obtain ⟨pair, hpair, hgiven⟩ := firstReal_value (mem_keptPairs.mp hmem)
    exact ⟨pair, List.mem_append_right _ hpair, hgiven⟩

theorem firstReal_congr {raw' : List (String × String)}
    (h : ∀ key ≠ "", valuesOf raw' key = valuesOf raw key) (key : String) :
    firstReal raw' key = firstReal raw key := by
  rw [firstReal, firstReal]
  split
  next => rfl
  next hskip => rw [h key (not_or.mp hskip).1]

theorem canonical_congr {raw' : List (String × String)}
    (h : ∀ key ≠ "", valuesOf raw' key = valuesOf raw key) :
    (normalise py readers categorySlug provider raw' description).canonical =
      (normalise py readers categorySlug provider raw description).canonical := by
  have hfind : (fun key => Dict.find key (keptPairs raw')) = fun key => Dict.find key (keptPairs raw) := by
    funext key
    rw [find_keptPairs, find_keptPairs, firstReal_congr h]
  have hmined : minedPairs py provider raw' description = minedPairs py provider raw description := by
    refine List.filter_congr fun pair _ => decide_eq_decide.mpr (not_congr ?_)
    show pair.1 ∈ Dict.keys (keptPairs raw') ↔ pair.1 ∈ Dict.keys (keptPairs raw)
    rw [mem_keys_keptPairs, mem_keys_keptPairs, firstReal_congr h]
  show (resolvedOf py readers categorySlug provider raw' description).canonical =
    (resolvedOf py readers categorySlug provider raw description).canonical
  rw [resolvedOf, resolvedOf, hfind, hmined]

/-- Each key of a payload and of its description lies in one place, each canonical value was given
and the canonical map does not depend on the order of distinct keys, exactly when the description
gives no key that the payload gives in vain. -/
theorem normalise_partitions (py : CharTables) (readers : Readers) (categorySlug : Option String)
    (provider : String) (raw : List (String × String)) (description : Option String) :
    (Buckets py readers categorySlug provider raw description ∧
      (∀ item ∈ (normalise py readers categorySlug provider raw description).canonical,
        ∃ pair ∈ raw ++ minedSpecs py provider description, strip pair.1 = item.2.rawKey ∧
          strip pair.2 = item.2.rawValue ∧ isJunkValue item.2.rawValue = false) ∧
      ∀ raw', (∀ key ≠ "", valuesOf raw' key = valuesOf raw key) →
        (normalise py readers categorySlug provider raw' description).canonical =
          (normalise py readers categorySlug provider raw description).canonical) ↔
      NoneGivenAgain py provider raw description := by
  refine ⟨fun h => noneGivenAgain_of_buckets h.1, fun h => ⟨⟨fun key => ?_, nodup_dropped h⟩,
    canonical_given, fun raw' => canonical_congr⟩⟩
  exact onePlace_of_noneGivenAgain h

/-- A junk value in the payload and a real one in the description -/
theorem dropped_and_canonical : ¬ ∀ (categorySlug : Option String) (provider : String)
    (raw : List (String × String)) (description : Option String),
    Buckets asciiTables.toCharTables (valueReaders asciiTables) categorySlug provider raw description := by
  intro h
  have hcond := noneGivenAgain_of_buckets
    (h (some "resistor") "mouser" [("Resistance", "-")] (some "Resistor - 0402, 10 Ohms"))
  refine hcond "Resistance" (mem_refusedKeys.mp (by decide)) ⟨by decide, ?_⟩
  decide

end StockManager.Specs
