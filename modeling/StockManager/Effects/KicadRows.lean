import StockManager.Effects.CategoryWalks
import StockManager.Model.KicadDocuments

/-! # The fields of a KiCad document -/

namespace StockManager.Kicad

open CategorySettings (CategoryRules)

variable {fields : List (String × Field)} {names keys taken : List String} {specs specs' : List (String × String)}
variable {name key value label : String} {c : Char}

theorem truthy_eq_some {value : Option String} {text : String} :
    truthy value = some text ↔ value = some text ∧ text ≠ "" := by
  rw [truthy, Option.filter_eq_some_iff, decide_eq_true_eq]

def Under (names : List String) (fields : List (String × Field)) : Prop := (Dict.keys fields).Sublist names

theorem under_put (h : Under names fields) (hname : name ∉ names) (field : Field) :
    Under (names ++ [name]) (Dict.put name field fields) := by
  rw [Under, Dict.put_of_not_mem fun hmem => hname (h.subset hmem), Dict.keys, List.map_append]
  exact h.append (List.Sublist.refl _)

theorem under_putField (h : Under names fields) (hname : name ∉ names) (value : Option String) :
    Under (names ++ [name]) (putField name value fields) := by
  unfold putField
  split
  next => exact h.trans (List.sublist_append_left _ _)
  next => exact under_put h hname _

def ownFieldNames : List String :=
  ["footprint", "datasheet", "value", "description", "keywords", "MPN", "Manufacturer", "IPN", "StockManager",
    "Sim.Device", "Sim.Pins", "Sim.Params", "Sim.Library"]

theorem under_addSimFields (config : Option PartEda) (spiceNames : List (Uuid × String))
    (h : Under (ownFieldNames.take 9) fields) : Under ownFieldNames (addSimFields config spiceNames fields) := by
  have hall : Under ownFieldNames fields := h.trans (List.take_sublist _ _)
  unfold addSimFields
  split
  next => exact hall
  next =>
    split
    next => exact hall
    next =>
      split
      next => exact hall
      next =>
        exact under_putField (under_putField (under_putField (under_putField h (by decide) _) (by decide) _)
          (by decide) _) (by decide) _

theorem under_ownFields (baseUrl : String) (row : PartRow) (datasheet rendered : Option String)
    (spiceNames : List (Uuid × String)) :
    Under ownFieldNames (ownFields baseUrl row datasheet rendered spiceNames) := by
  have hempty : Under [] [] := List.Sublist.refl _
  refine under_addSimFields _ _ (under_put (under_putField (under_putField (under_putField (under_putField
    (under_putField (under_put (under_putField (under_putField hempty ?_ _) ?_ _) ?_ _) ?_ _) ?_ _) ?_ _) ?_ _)
    ?_ _) ?_ _) <;> decide

/-- Only the schematic value may be empty. -/
def Filled (fields : List (String × Field)) : Prop := ∀ item ∈ fields, item.1 ≠ "value" → item.2.value ≠ ""

theorem filled_put {field : Field} (h : Filled fields)
    (hfield : name ≠ "value" → field.value ≠ "") : Filled (Dict.put name field fields) := by
  intro item hitem
  rcases Dict.mem_put hitem with rfl | hold
  · exact hfield
  · exact h item hold

theorem filled_putField (h : Filled fields) (name : String) (value : Option String) :
    Filled (putField name value fields) := by
  unfold putField
  split
  next => exact h
  next value hvalue => exact filled_put h fun _ => (truthy_eq_some.mp hvalue).2

theorem filled_addSimFields (config : Option PartEda) (spiceNames : List (Uuid × String)) (h : Filled fields) :
    Filled (addSimFields config spiceNames fields) := by
  unfold addSimFields
  split
  next => exact h
  next =>
    split
    next => exact h
    next =>
      split
      next => exact h
      next => exact filled_putField (filled_putField (filled_putField (filled_putField h _ _) _ _) _ _) _ _

theorem filled_ownFields (baseUrl : String) (row : PartRow) (datasheet rendered : Option String)
    (spiceNames : List (Uuid × String)) : Filled (ownFields baseUrl row datasheet rendered spiceNames) := by
  have hempty : Filled [] := fun _ h => absurd h List.not_mem_nil
  have hlink : baseUrl ++ "/parts/" ++ uuidStr row.part.id ≠ "" := by
    intro h
    have hlength := congrArg String.length h
    simp only [String.length_append] at hlength
    have hparts : ("/parts/" : String).length = 7 := by decide
    have hnone : ("" : String).length = 0 := rfl
    omega
  exact filled_addSimFields _ _ (filled_put (filled_putField (filled_putField (filled_putField (filled_putField
    (filled_putField (filled_put (filled_putField (filled_putField hempty _ _) _ _) fun h => absurd rfl h)
    _ _) _ _) _ _) _ _) _ _) fun _ => hlink)

/-- No two names are equal when case is ignored. -/
def Distinct (fields : List (String × Field)) : Prop := ((Dict.keys fields).map String.toLower).Nodup

theorem distinct_ownFields (baseUrl : String) (row : PartRow) (datasheet rendered : Option String)
    (spiceNames : List (Uuid × String)) : Distinct (ownFields baseUrl row datasheet rendered spiceNames) := by
  have hnames : (ownFieldNames.map String.toLower).Nodup := by decide +kernel
  exact hnames.sublist ((under_ownFields baseUrl row datasheet rendered spiceNames).map _)

theorem keys_putField_of_not_mem (h : name ∉ Dict.keys fields) (value : Option String) :
    Dict.keys (putField name value fields) =
      Dict.keys fields ++ if (truthy value).isSome then [name] else [] := by
  unfold putField
  split
  next hnone => rw [hnone, Option.isSome_none, if_neg Bool.false_ne_true, List.append_nil]
  next hsome =>
    rw [hsome, Option.isSome_some, if_pos rfl, Dict.put_of_not_mem h, Dict.keys, List.map_append]
    rfl

theorem find_putField_of_ne {name other : String} (hne : name ≠ other) (value : Option String) :
    Dict.find other (putField name value fields) = Dict.find other fields := by
  unfold putField
  split
  next => rfl
  next => exact Dict.find_upsert_of_ne hne _ _ _

def Taken (taken : List String) (fields : List (String × Field)) : Prop :=
  ∀ name ∈ Dict.keys fields, name.toLower ∈ taken

theorem Taken.putField (h : Taken taken fields) (hfree : label.toLower ∉ taken)
    (value : Option String) : Taken (label.toLower :: taken) (putField label value fields) := by
  intro name hname
  rw [keys_putField_of_not_mem fun hmem => hfree (h label hmem)] at hname
  rcases List.mem_append.mp hname with hold | hnew
  · exact List.mem_cons_of_mem _ (h name hold)
  · split at hnew
    next => exact List.mem_singleton.mp hnew ▸ List.mem_cons_self
    next => exact absurd hnew List.not_mem_nil

theorem Distinct.putField (h : Distinct fields) (htaken : Taken taken fields)
    (hfree : label.toLower ∉ taken) (value : Option String) : Distinct (putField label value fields) := by
  rw [Distinct, keys_putField_of_not_mem fun hmem => hfree (htaken label hmem), List.map_append]
  refine List.nodup_append.mpr ⟨h, ?_, fun a ha b hb hab => ?_⟩
  · split <;> simp
  · obtain ⟨name, hname, rfl⟩ := List.mem_map.mp ha
    obtain ⟨label', hlabel, rfl⟩ := List.mem_map.mp hb
    split at hlabel
    next =>
      rw [List.mem_singleton.mp hlabel] at hab
      exact hfree (hab ▸ htaken name hname)
    next => exact absurd hlabel List.not_mem_nil

theorem distinct_putSpecFieldsFrom (htaken : Taken taken fields) (h : Distinct fields) :
    Distinct (putSpecFieldsFrom specs keys taken fields) := by
  induction keys generalizing taken fields with
  | nil => exact h
  | cons key keys ih =>
    rw [putSpecFieldsFrom]
    split
    next => exact ih htaken h
    next hfree => exact ih (htaken.putField hfree _) (h.putField htaken hfree _)

theorem filled_putSpecFieldsFrom (h : Filled fields) : Filled (putSpecFieldsFrom specs keys taken fields) := by
  induction keys generalizing taken fields with
  | nil => exact h
  | cons key keys ih =>
    rw [putSpecFieldsFrom]
    split
    next => exact ih h
    next => exact ih (filled_putField h _ _)

theorem taken_start (fields : List (String × Field)) :
    Taken (builtInFieldNames ++ (Dict.keys fields).map String.toLower) fields :=
  fun _ hname => List.mem_append_right _ (List.mem_map_of_mem hname)

theorem distinct_putSpecFields (h : Distinct fields) : Distinct (putSpecFields keys specs fields) :=
  distinct_putSpecFieldsFrom (taken_start fields) h

theorem find_putSpecFieldsFrom_of_taken (h : name.toLower ∈ taken) :
    Dict.find name (putSpecFieldsFrom specs keys taken fields) = Dict.find name fields := by
  induction keys generalizing taken fields with
  | nil => rfl
  | cons key keys ih =>
    rw [putSpecFieldsFrom]
    split
    next => exact ih h
    next hfree =>
      rw [ih (List.mem_cons_of_mem _ h), find_putField_of_ne]
      rintro rfl
      exact hfree h

theorem find_putSpecFieldsFrom (htaken : Taken taken fields)
    (hlabels : (keys.map fun key => (specFieldLabel key).toLower).Nodup) (hkey : key ∈ keys)
    (hfree : (specFieldLabel key).toLower ∉ taken) (hvalue : truthy (Dict.find key specs) = some value) :
    Dict.find (specFieldLabel key) (putSpecFieldsFrom specs keys taken fields) = some ⟨value, true⟩ := by
  induction keys generalizing taken fields with
  | nil => exact absurd hkey List.not_mem_nil
  | cons first keys ih =>
    rw [List.map_cons, List.nodup_cons] at hlabels
    rw [putSpecFieldsFrom]
    rcases List.mem_cons.mp hkey with rfl | hrest
    · rw [if_neg hfree, find_putSpecFieldsFrom_of_taken List.mem_cons_self, putField, hvalue]
      exact Dict.find_upsert_self _ _ _ _
    · have hne : (specFieldLabel key).toLower ≠ (specFieldLabel first).toLower := fun heq =>
        hlabels.1 (heq ▸ List.mem_map_of_mem hrest)
      split
      next => exact ih htaken hlabels.2 hrest hfree
      next hfirst =>
        refine ih (htaken.putField hfirst _) hlabels.2 hrest ?_
        rw [List.mem_cons, not_or]
        exact ⟨hne, hfree⟩

/-- Lower-case letters and underscores -/
def ValidKey (key : String) : Prop := ∀ c ∈ key.toList, isKeyChar c = true

def spaced (c : Char) : Char := if c = '_' then ' ' else c

theorem toLower_titled (behind : Bool) (text : List Char) (h : ∀ c ∈ text, c.toLower = c) :
    (titled behind text).map Char.toLower = text := by
  induction text generalizing behind with
  | nil => rfl
  | cons c text ih =>
    rw [List.forall_mem_cons] at h
    have hupper : c.toUpper.toLower = c := (Char.toLower_toUpper_eq_toLower c).trans h.1
    rw [titled]
    split
    next =>
      split
      next => rw [List.map_cons, ih _ h.2, h.1, h.1]
      next => rw [List.map_cons, ih _ h.2, hupper]
    next => rw [List.map_cons, ih _ h.2, h.1]

theorem isKeyChar_iff : isKeyChar c = true ↔ (97 ≤ c.toNat ∧ c.toNat ≤ 122) ∨ c = '_' := by
  rw [isKeyChar, Bool.or_eq_true, Bool.and_eq_true, decide_eq_true_eq, decide_eq_true_eq, decide_eq_true_eq]
  exact Iff.rfl

theorem toLower_spaced (h : isKeyChar c = true) : (spaced c).toLower = spaced c := by
  rw [spaced]
  split
  next => decide
  next hne =>
    have hletter := (isKeyChar_iff.mp h).resolve_right hne
    refine Char.toLower_eq_of_not_isUpper fun hupper => ?_
    have hrange : 65 ≤ c.toNat ∧ c.toNat ≤ 90 := by
      rw [Char.isUpper, decide_eq_true_eq] at hupper
      exact hupper
    omega

theorem toLower_specFieldLabel (h : ValidKey key) :
    (specFieldLabel key).toLower.toList = key.toList.map spaced := by
  have hlower : ∀ c ∈ key.toList.map spaced, c.toLower = c := by
    intro c hc
    obtain ⟨letter, hletter, rfl⟩ := List.mem_map.mp hc
    exact toLower_spaced (h letter hletter)
  rw [specFieldLabel, String.toLower, String.toList_map, String.toList_ofList]
  exact toLower_titled false _ hlower

theorem spaced_inj {c d : Char} (hc : isKeyChar c = true) (hd : isKeyChar d = true)
    (h : spaced c = spaced d) : c = d := by
  have hspace : isKeyChar ' ' = false := by decide
  rw [spaced, spaced] at h
  split at h
  next hc' =>
    split at h
    next hd' => rw [hc', hd']
    next =>
      rw [← h, hspace] at hd
      exact absurd hd Bool.false_ne_true
  next =>
    split at h
    next =>
      rw [h, hspace] at hc
      exact absurd hc Bool.false_ne_true
    next => exact h

theorem map_spaced_inj {text text' : List Char} (h : ∀ c ∈ text, isKeyChar c = true)
    (h' : ∀ c ∈ text', isKeyChar c = true) (heq : text.map spaced = text'.map spaced) : text = text' := by
  induction text generalizing text' with
  | nil => exact (List.map_eq_nil_iff.mp heq.symm).symm
  | cons c text ih =>
    cases text' with
    | nil => exact absurd heq (List.cons_ne_nil _ _)
    | cons c' text' =>
      rw [List.forall_mem_cons] at h h'
      rw [List.map_cons, List.map_cons, List.cons.injEq] at heq
      rw [spaced_inj h.1 h'.1 heq.1, ih h.2 h'.2 heq.2]

theorem specFieldLabel_inj {key key' : String} (h : ValidKey key) (h' : ValidKey key')
    (heq : (specFieldLabel key).toLower = (specFieldLabel key').toLower) : key = key' := by
  have hlists : key.toList.map spaced = key'.toList.map spaced := by
    rw [← toLower_specFieldLabel h, ← toLower_specFieldLabel h', heq]
  exact String.toList_inj.mp (map_spaced_inj h h' hlists)

theorem label_free (h : ValidKey key) (hbuilt : (specFieldLabel key).toLower ∉ builtInFieldNames)
    (hunder : Under ownFieldNames fields) :
    (specFieldLabel key).toLower ∉ builtInFieldNames ++ (Dict.keys fields).map String.toLower := by
  have hdot : '.' ∉ (specFieldLabel key).toLower.toList := by
    rw [toLower_specFieldLabel h]
    intro hmem
    obtain ⟨c, hc, heq⟩ := List.mem_map.mp hmem
    have hkey := h c hc
    rw [spaced] at heq
    split at heq
    next => exact absurd heq (by decide)
    next =>
      rw [heq] at hkey
      exact absurd hkey (by decide)
  rw [List.mem_append, not_or]
  refine ⟨hbuilt, fun hmem => ?_⟩
  have hown : (specFieldLabel key).toLower ∈ ownFieldNames.map String.toLower :=
    (hunder.map String.toLower).subset hmem
  have hsplit : ownFieldNames.map String.toLower =
      builtInFieldNames ++ ["sim.device", "sim.pins", "sim.params", "sim.library"] := by decide +kernel
  rw [hsplit] at hown
  have hsim : ∀ name ∈ ["sim.device", "sim.pins", "sim.params", "sim.library"], '.' ∈ name.toList := by decide
  exact hdot (hsim _ ((List.mem_append.mp hown).resolve_left hbuilt))

theorem find_putSpecFields (hvalid : ∀ key ∈ keys, ValidKey key) (hkeys : keys.Nodup)
    (hunder : Under ownFieldNames fields) (hkey : key ∈ keys)
    (hbuilt : (specFieldLabel key).toLower ∉ builtInFieldNames)
    (hvalue : truthy (Dict.find key specs) = some value) :
    Dict.find (specFieldLabel key) (putSpecFields keys specs fields) = some ⟨value, true⟩ := by
  have hlabels : (keys.map fun key => (specFieldLabel key).toLower).Nodup :=
    hkeys.map_on fun a ha b hb heq => specFieldLabel_inj (hvalid a ha) (hvalid b hb) heq
  exact find_putSpecFieldsFrom (taken_start fields) hlabels hkey (label_free (hvalid key hkey) hbuilt hunder) hvalue

theorem putSpecFieldsFrom_congr (h : ∀ key ∈ keys, Dict.find key specs = Dict.find key specs') :
    putSpecFieldsFrom specs keys taken fields = putSpecFieldsFrom specs' keys taken fields := by
  induction keys generalizing taken fields with
  | nil => rfl
  | cons key keys ih =>
    rw [List.forall_mem_cons] at h
    rw [putSpecFieldsFrom, putSpecFieldsFrom, h.1, ih h.2, ih h.2]

theorem renderValue_congr {template : Option String}
    (h : ∀ key ∈ placeholderKeys template, Dict.find key specs = Dict.find key specs') (mpn : Option String) :
    renderValue template specs mpn = renderValue template specs' mpn := by
  have hpieces : (pieces (template.getD "").toList).map (substitute specs mpn) =
      (pieces (template.getD "").toList).map (substitute specs' mpn) := by
    refine List.map_congr_left fun piece hpiece => ?_
    cases piece with
    | char c => rfl
    | key name =>
      rw [substitute, substitute]
      split
      next => rfl
      next hmpn =>
        have hmem : name ∈ placeholderKeys template :=
          List.mem_filterMap.mpr ⟨.key name, hpiece, if_neg hmpn⟩
        rw [h name hmem]
  rw [renderValue, renderValue, hpieces]

end StockManager.Kicad

/-! ## Documents of a listing and of one part

The lookups of a listing are batched over its rows; each row finds in them what it would
find alone. -/

namespace StockManager.Kicad

open CategorySettings (CategoryRow CategoryRules OnePerId rulesByCategory find_rulesByCategory mem_workspaceRows
  fieldList)

variable {db : Db} {workspaceId partId : Uuid} {row : PartRow} {rows : List PartRow} {baseUrl : String}
variable {key value : String} {keys : List String} {category : PartCategory}

/-- The unique columns -/
structure Keyed (db : Db) : Prop where
  parts : (db.parts.map (·.id)).Nodup
  categories : (db.categories.map (·.id)).Nodup
  customFields : (db.customFields.map fun field =>
    (field.workspaceId, field.objectType, field.objectId, field.key)).Nodup

/-- A stored list of spec keys is deduplicated and its keys are checked. -/
def ValidFields (db : Db) : Prop :=
  ∀ category ∈ db.categories, ∀ keys, fieldList category.kicadFields = some keys →
    keys.Nodup ∧ ∀ key ∈ keys, ValidKey key

/-- A value of the part that is neither archived nor empty -/
def Live (db : Db) (workspaceId partId : Uuid) (key value : String) : Prop :=
  ∃ field ∈ db.customFields, field.workspaceId = workspaceId ∧ field.objectType = "part" ∧
    field.objectId = partId ∧ field.key = key ∧ field.archivedAt = none ∧ truthy field.value = some value

def fieldItem (field : CustomField) : Option (Uuid × String × String) :=
  (truthy field.value).map fun value => (field.objectId, field.key, value)

theorem foldl_fields {step : List (Uuid × List (String × String)) → CustomField → List (Uuid × List (String × String))}
    (hstep : ∀ out field, step out field = (fieldItem field).elim out fun item =>
      Dict.upsert item.1 [] (Dict.put item.2.1 item.2.2) out)
    (fields : List CustomField) (out : List (Uuid × List (String × String))) :
    fields.foldl step out =
      Dict.collect Prod.fst [] (fun item specs => Dict.put item.2.1 item.2.2 specs) out
        (fields.filterMap fieldItem) := by
  induction fields generalizing out with
  | nil => rfl
  | cons field fields ih =>
    rw [List.foldl_cons, ih, hstep, List.filterMap_cons]
    cases fieldItem field <;> rfl

theorem customFieldsByPart_eq (partIds : List Uuid) (keys : List String) :
    customFieldsByPart db workspaceId partIds keys =
      Dict.collect Prod.fst [] (fun item specs => Dict.put item.2.1 item.2.2 specs) []
        ((db.customFields.filter fun field => field.workspaceId = workspaceId ∧ field.objectType = "part" ∧
          field.objectId ∈ partIds ∧ field.key ∈ keys ∧ field.archivedAt = none).filterMap fieldItem) := by
  refine foldl_fields (fun out field => ?_) _ _
  rw [fieldItem]
  cases truthy field.value <;> rfl

theorem nodup_filterMap {α β κ : Type} {f : α → Option β} {key : α → κ} {key' : β → κ} {l : List α}
    (hf : ∀ a b, f a = some b → key' b = key a) (h : (l.map key).Nodup) :
    ((l.filterMap f).map key').Nodup := by
  induction l with
  | nil => exact List.nodup_nil
  | cons a l ih =>
    rw [List.map_cons, List.nodup_cons] at h
    rw [List.filterMap_cons]
    cases hb : f a with
    | none => exact ih h.2
    | some b =>
      refine List.nodup_cons.mpr ⟨fun hmem => ?_, ih h.2⟩
      obtain ⟨b', hb', heq⟩ := List.mem_map.mp hmem
      obtain ⟨a', ha', hfa'⟩ := List.mem_filterMap.mp hb'
      rw [hf a b hb, hf a' b' hfa'] at heq
      exact h.1 (heq ▸ List.mem_map_of_mem ha')

theorem find_customFieldsByPart (hdb : Keyed db) {partIds : List Uuid}
    (hpart : partId ∈ partIds) (hkey : key ∈ keys) :
    Dict.find key ((Dict.find partId (customFieldsByPart db workspaceId partIds keys)).getD []) = some value ↔
      Live db workspaceId partId key value := by
  rw [customFieldsByPart_eq, Dict.getD_find_collect, Dict.find, Option.getD_none]
  -- the items of one part have different keys
  have hnodup : ((((db.customFields.filter fun field => field.workspaceId = workspaceId ∧
      field.objectType = "part" ∧ field.objectId ∈ partIds ∧ field.key ∈ keys ∧
        field.archivedAt = none).filterMap fieldItem).filter (·.1 = partId)).map (·.2.1)).Nodup := by
    have hrows : ((db.customFields.filter fun field => field.workspaceId = workspaceId ∧
        field.objectType = "part" ∧ field.objectId ∈ partIds ∧ field.key ∈ keys ∧
          field.archivedAt = none).map fun field => (field.objectId, field.key)).Nodup := by
      refine List.Nodup.map_on ?_ ((List.Nodup.of_map _ hdb.customFields).filter _)
      intro a ha b hb heq
      obtain ⟨ha, hwa⟩ := List.mem_filter.mp ha
      obtain ⟨hb, hwb⟩ := List.mem_filter.mp hb
      rw [decide_eq_true_eq] at hwa hwb
      refine List.inj_on_of_nodup_map hdb.customFields ha hb ?_
      rw [hwa.1, hwb.1, hwa.2.1, hwb.2.1, heq]
    have hitems := @nodup_filterMap _ _ _ fieldItem (fun field => (field.objectId, field.key))
      (fun item => (item.1, item.2.1)) _ (fun field item h => by
        obtain ⟨text, -, rfl⟩ := Option.map_eq_some_iff.mp h
        rfl) hrows
    refine List.Nodup.map_on ?_ ((List.Nodup.of_map _ hitems).filter _)
    intro a ha b hb heq
    obtain ⟨ha, hpa⟩ := List.mem_filter.mp ha
    obtain ⟨hb, hpb⟩ := List.mem_filter.mp hb
    rw [decide_eq_true_eq] at hpa hpb
    refine List.inj_on_of_nodup_map hitems ha hb ?_
    rw [hpa, hpb, heq]
  have hfold := Dict.foldl_put_of_nodup (fun item : Uuid × String × String => item.2.1)
    (fun item => item.2.2) hnodup
  rw [hfold, ← Dict.mem_iff_find]
  · constructor
    · intro hmem
      obtain ⟨item, hitem, heq⟩ := List.mem_map.mp hmem
      obtain ⟨hitem, hid⟩ := List.mem_filter.mp hitem
      obtain ⟨field, hfield, hitem⟩ := List.mem_filterMap.mp hitem
      obtain ⟨hfield, hwhere⟩ := List.mem_filter.mp hfield
      obtain ⟨text, htext, rfl⟩ := Option.map_eq_some_iff.mp hitem
      obtain ⟨rfl, rfl⟩ := Prod.mk.injEq _ _ _ _ ▸ heq
      rw [decide_eq_true_eq] at hwhere hid
      exact ⟨field, hfield, hwhere.1, hwhere.2.1, hid, rfl, hwhere.2.2.2.2, htext⟩
    · rintro ⟨field, hfield, hws, htype, rfl, rfl, harchived, htext⟩
      refine List.mem_map.mpr ⟨(field.objectId, field.key, value), ?_, rfl⟩
      refine List.mem_filter.mpr ⟨List.mem_filterMap.mpr ⟨field, ?_, ?_⟩, decide_eq_true rfl⟩
      · exact List.mem_filter.mpr ⟨hfield, decide_eq_true ⟨hws, htype, hpart, hkey, harchived⟩⟩
      · rw [fieldItem, htext, Option.map_some]
  · rw [Dict.keys, List.map_map]
    exact hnodup

theorem find_spiceLibraryNames {datafileIds : List Uuid} {id : Uuid} (h : id ∈ datafileIds) :
    Dict.find id (spiceLibraryNames db workspaceId datafileIds) =
      Dict.find id (spiceLibraryNames db workspaceId [id]) := by
  rw [spiceLibraryNames, spiceLibraryNames, Dict.find_map_key, Dict.find_map_key, List.find?_filter, List.find?_filter]
  refine congrArg (Option.map _) (congrArg (fun p => List.find? p _) (funext fun datafile => ?_))
  by_cases hid : datafile.id = id
  · simp [hid, h]
  · simp [hid]

section Agree

variable {specs specs' : List (Uuid × List (String × String))} {spiceNames spiceNames' : List (Uuid × String)}
  {rules rules' : List (Uuid × CategoryRules)}

def ruleFor (rules : List (Uuid × CategoryRules)) (row : PartRow) : CategoryRules :=
  (row.category.bind fun category => Dict.find category.id rules).getD ⟨none, none⟩

theorem addSimFields_congr {config : Option PartEda} {fields : List (String × Field)}
    (h : ∀ id, config.bind (·.spiceDatafileId) = some id → Dict.find id spiceNames = Dict.find id spiceNames') :
    addSimFields config spiceNames fields = addSimFields config spiceNames' fields := by
  cases config with
  | none => rfl
  | some config =>
    rw [Option.bind_some] at h
    rw [addSimFields, addSimFields]
    cases hid : config.spiceDatafileId with
    | none => rfl
    | some id => rw [Option.bind_some, Option.bind_some, h id hid]

theorem document_congr (hrule : ruleFor rules row = ruleFor rules' row)
    (hspecs : ∀ key ∈ datasheetFieldKey :: (placeholderKeys (ruleFor rules row).valueTemplate ++
        (ruleFor rules row).kicadFields.getD []),
      Dict.find key ((Dict.find row.part.id specs).getD []) =
        Dict.find key ((Dict.find row.part.id specs').getD []))
    (hspice : ∀ id, row.config.bind (·.spiceDatafileId) = some id →
      Dict.find id spiceNames = Dict.find id spiceNames') :
    document baseUrl row specs spiceNames rules = document baseUrl row specs' spiceNames' rules' := by
  rw [List.forall_mem_cons, List.forall_mem_append] at hspecs
  obtain ⟨hdatasheet, htemplate, hfields⟩ := hspecs
  have hrendered := @renderValue_congr _ _ _ htemplate row.part.mpn
  have hown := fun rendered => @addSimFields_congr spiceNames spiceNames' row.config
    (Dict.put "StockManager" ⟨baseUrl ++ "/parts/" ++ uuidStr row.part.id, true⟩ <|
      putField "IPN" row.part.internalPartNumber <| putField "Manufacturer" row.part.manufacturer <|
      putField "MPN" row.part.mpn <| putField "keywords" (some (keywordsOf row.config rendered)) <|
      putField "description" row.part.description <|
      Dict.put "value" ⟨((truthy (row.config.bind (·.value))).or (truthy rendered)).getD row.part.name, false⟩ <|
      putField "datasheet" (datasheetUrl baseUrl
        (Dict.find datasheetFieldKey ((Dict.find row.part.id specs').getD []))) <|
      putField "footprint" (footprintRef row) []) hspice
  unfold document
  simp only [← ruleFor.eq_1, hrule] at hrendered hfields ⊢
  simp only [hrendered, hdatasheet, ownFields, hown, putSpecFields, putSpecFieldsFrom_congr hfields]

end Agree

def categoryRows (db : Db) : List CategoryRow := db.categories.map (·.toCategoryRow)

theorem onePerId_categoryRows (hdb : Keyed db) : OnePerId (categoryRows db) := by
  refine OnePerId.of_nodup ?_
  rw [categoryRows, List.map_map]
  exact hdb.categories

theorem mem_rowsStmt :
    row ∈ rowsStmt db workspaceId ↔
      ∃ part ∈ db.parts, (part.workspaceId = workspaceId ∧ part.archivedAt = none) ∧ partRow db part = row := by
  simp only [rowsStmt, List.mem_map, List.mem_filter, decide_eq_true_eq, and_assoc]

theorem category_of_row (hrow : row ∈ rowsStmt db workspaceId) (h : row.category = some category) :
    category ∈ activeCategories db workspaceId ∧ row.part.categoryId = some category.id := by
  obtain ⟨part, -, ⟨hws, -⟩, rfl⟩ := mem_rowsStmt.mp hrow
  have hfound : joinCategory db part.workspaceId part.categoryId = some category := h
  have hmem := List.mem_of_find?_eq_some hfound
  have hwhere : some category.id = part.categoryId ∧ category.workspaceId = part.workspaceId ∧
      category.archivedAt = none := by simpa using List.find?_some hfound
  refine ⟨List.mem_filter.mpr ⟨hmem, decide_eq_true ⟨hwhere.2.1.trans hws, hwhere.2.2⟩⟩, hwhere.1.symm⟩

theorem categories_of_rows (hrows : ∀ row ∈ rows, row ∈ rowsStmt db workspaceId) :
    ∀ c ∈ rows.filterMap fun row => row.category.map (·.toCategoryRow),
      c ∈ CategorySettings.workspaceRows (categoryRows db) workspaceId ∧ c.archivedAt = none := by
  intro c hc
  obtain ⟨row, hrow, hcategory⟩ := List.mem_filterMap.mp hc
  obtain ⟨category, hjoined, rfl⟩ := Option.map_eq_some_iff.mp hcategory
  obtain ⟨hmem, hwhere⟩ := List.mem_filter.mp (category_of_row (hrows row hrow) hjoined).1
  rw [decide_eq_true_eq] at hwhere
  exact ⟨mem_workspaceRows.mpr ⟨List.mem_map_of_mem hmem, hwhere.1⟩, hwhere.2⟩

def rulesOf (db : Db) (workspaceId : Uuid) (rows : List PartRow) : List (Uuid × CategoryRules) :=
  rulesByCategory (categoryRows db) workspaceId (rows.filterMap fun row => row.category.map (·.toCategoryRow)) none

theorem find_rulesOf (hdb : Keyed db) (hrows : ∀ row ∈ rows, row ∈ rowsStmt db workspaceId) (hrow : row ∈ rows)
    (h : row.category = some category) :
    Dict.find category.id (rulesOf db workspaceId rows) =
      some (CategorySettings.inherited category.id (CategorySettings.ownRules category.toCategoryRow)
        (CategorySettings.dictOf CategorySettings.ownRules
          (CategorySettings.activeRows (categoryRows db) workspaceId none))
        (CategorySettings.dictOf (·.parentId)
          (CategorySettings.activeRows (categoryRows db) workspaceId none))) := by
  have hc : category.toCategoryRow ∈ rows.filterMap fun row => row.category.map (·.toCategoryRow) :=
    List.mem_filterMap.mpr ⟨row, hrow, by rw [h, Option.map_some]⟩
  exact find_rulesByCategory (onePerId_categoryRows hdb) (categories_of_rows hrows) hc
    fun _ hnone => absurd hnone (Option.some_ne_none _).symm

theorem ruleFor_rulesOf (hdb : Keyed db) (hrows : ∀ row ∈ rows, row ∈ rowsStmt db workspaceId) (hrow : row ∈ rows) :
    ruleFor (rulesOf db workspaceId rows) row = ruleFor (rulesOf db workspaceId [row]) row := by
  have halone : ∀ r ∈ [row], r ∈ rowsStmt db workspaceId := fun r hr => List.mem_singleton.mp hr ▸ hrows row hrow
  rw [ruleFor, ruleFor]
  cases h : row.category with
  | none => rfl
  | some category =>
    rw [Option.bind_some, Option.bind_some, find_rulesOf hdb hrows hrow h,
      find_rulesOf hdb halone (List.mem_singleton_self row) h]

theorem placeholderKeys_none : placeholderKeys none = [] := by
  have hempty : ((none : Option String).getD "").toList = [] := rfl
  rw [placeholderKeys, hempty, pieces, List.filterMap_nil]

theorem wanted_of_rule {rules : List (Uuid × CategoryRules)}
    (h : key ∈ placeholderKeys (ruleFor rules row).valueTemplate ++ (ruleFor rules row).kicadFields.getD []) :
    key ∈ wantedCustomFieldKeys (rules.map Prod.snd) := by
  cases hfound : row.category.bind fun category => Dict.find category.id rules with
  | none =>
    rw [ruleFor, hfound, Option.getD_none, placeholderKeys_none] at h
    exact absurd h List.not_mem_nil
  | some rule =>
    rw [ruleFor, hfound, Option.getD_some] at h
    obtain ⟨category, -, hfind⟩ := Option.bind_eq_some_iff.mp hfound
    exact List.mem_flatMap.mpr ⟨rule, List.mem_map_of_mem (Dict.mem_of_find hfind), h⟩

def documentOf (baseUrl : String) (db : Db) (workspaceId : Uuid) (row : PartRow) : Option Document :=
  (documents baseUrl db workspaceId [row]).head?

def keysOf (rules : List (Uuid × CategoryRules)) : List String :=
  datasheetFieldKey :: wantedCustomFieldKeys (rules.map Prod.snd)

def specsOf (db : Db) (workspaceId : Uuid) (rows : List PartRow) : List (Uuid × List (String × String)) :=
  customFieldsByPart db workspaceId (rows.map (·.part.id)) (keysOf (rulesOf db workspaceId rows))

def spiceOf (db : Db) (workspaceId : Uuid) (rows : List PartRow) : List (Uuid × String) :=
  spiceLibraryNames db workspaceId (rows.filterMap fun row => row.config.bind (·.spiceDatafileId))

theorem documents_rows (rows : List PartRow) :
    documents baseUrl db workspaceId rows = rows.filterMap fun row =>
      document baseUrl row (specsOf db workspaceId rows) (spiceOf db workspaceId rows)
        (rulesOf db workspaceId rows) := rfl

theorem documentOf_eq (row : PartRow) :
    documentOf baseUrl db workspaceId row =
      document baseUrl row (specsOf db workspaceId [row]) (spiceOf db workspaceId [row])
        (rulesOf db workspaceId [row]) := by
  rw [documentOf, documents_rows, List.filterMap_cons, List.filterMap_nil]
  cases document baseUrl row _ _ _ <;> rfl

theorem find_specsOf (hdb : Keyed db) (hrow : row ∈ rows)
    (hkey : key ∈ datasheetFieldKey :: (placeholderKeys (ruleFor (rulesOf db workspaceId rows) row).valueTemplate ++
      (ruleFor (rulesOf db workspaceId rows) row).kicadFields.getD [])) :
    Dict.find key ((Dict.find row.part.id (specsOf db workspaceId rows)).getD []) = some value ↔
      Live db workspaceId row.part.id key value := by
  have hpart : row.part.id ∈ rows.map (·.part.id) := List.mem_map_of_mem hrow
  refine find_customFieldsByPart hdb hpart ?_
  rcases List.mem_cons.mp hkey with rfl | hrule
  · exact List.mem_cons_self
  · exact List.mem_cons_of_mem _ (wanted_of_rule hrule)

/-- The batched documents are those of the rows taken one at a time. -/
theorem documents_eq (hdb : Keyed db) (hrows : ∀ row ∈ rows, row ∈ rowsStmt db workspaceId) :
    documents baseUrl db workspaceId rows = rows.filterMap (documentOf baseUrl db workspaceId) := by
  rw [documents_rows]
  refine List.filterMap_congr fun row hrow => ?_
  have hrule := ruleFor_rulesOf hdb hrows hrow
  rw [documentOf_eq]
  refine document_congr hrule (fun key hkey => Option.ext fun value => ?_) fun id hid => ?_
  · rw [find_specsOf hdb hrow hkey, find_specsOf hdb (List.mem_singleton_self row) (hrule ▸ hkey)]
  · have hmem : ∀ rows' : List PartRow, row ∈ rows' →
        id ∈ rows'.filterMap fun row => row.config.bind (·.spiceDatafileId) :=
      fun rows' hrow' => List.mem_filterMap.mpr ⟨row, hrow', hid⟩
    rw [spiceOf, spiceOf, find_spiceLibraryNames (hmem rows hrow),
      find_spiceLibraryNames (hmem [row] (List.mem_singleton_self row))]

theorem documentOf_isSome (row : PartRow) :
    (documentOf baseUrl db workspaceId row).isSome = (symbolIdStr row).isSome := by
  rw [documentOf_eq, document, Option.isSome_map]

theorem documentOf_id {doc : Document} (h : documentOf baseUrl db workspaceId row = some doc) :
    doc.id = row.part.id := by
  rw [documentOf_eq] at h
  obtain ⟨text, -, rfl⟩ := Option.map_eq_some_iff.mp h
  rfl

theorem inheritedFrom_kicadFields {ancestors : List (Uuid × CategoryRules)} {rules : CategoryRules} {ids : List Uuid}
    (h : (CategorySettings.inheritedFrom ancestors rules ids).kicadFields = some keys) :
    rules.kicadFields = some keys ∨
      ∃ id rule, Dict.find id ancestors = some rule ∧ rule.kicadFields = some keys := by
  induction ids generalizing rules with
  | nil => exact .inl h
  | cons id ids ih =>
    rw [CategorySettings.inheritedFrom] at h
    split at h
    next => exact .inl h
    next rule hfind =>
      have hfilled : (rules.kicadFields.or rule.kicadFields) = some keys →
          rules.kicadFields = some keys ∨
            ∃ id rule, Dict.find id ancestors = some rule ∧ rule.kicadFields = some keys := by
        intro hor
        rcases Option.or_eq_some_iff.mp hor with hown | ⟨-, hrule⟩
        · exact .inl hown
        · exact .inr ⟨id, rule, hfind, hrule⟩
      dsimp only at h
      split at h
      next => exact hfilled h
      next => exact (ih h).elim hfilled .inr

theorem validFields_ruleFor (hdb : Keyed db) (hfields : ValidFields db)
    (hrows : ∀ row ∈ rows, row ∈ rowsStmt db workspaceId) (hrow : row ∈ rows) :
    ((ruleFor (rulesOf db workspaceId rows) row).kicadFields.getD []).Nodup ∧
      ∀ key ∈ (ruleFor (rulesOf db workspaceId rows) row).kicadFields.getD [], ValidKey key := by
  have hempty : ([] : List String).Nodup ∧ ∀ key ∈ [], ValidKey key :=
    ⟨List.nodup_nil, fun _ h => absurd h List.not_mem_nil⟩
  cases h : row.category with
  | none =>
    rw [ruleFor, h]
    exact hempty
  | some category =>
    rw [ruleFor, h, Option.bind_some, find_rulesOf hdb hrows hrow h, Option.getD_some]
    cases hkeys : (CategorySettings.inherited category.id _ _ _).kicadFields with
    | none => exact hempty
    | some keys =>
      have hcategory := (List.mem_filter.mp (category_of_row (hrows row hrow) h).1).1
      rw [CategorySettings.inherited] at hkeys
      split at hkeys
      next => exact hfields category hcategory keys hkeys
      next =>
        rcases inheritedFrom_kicadFields hkeys with hown | ⟨id, rule, hfind, hrule⟩
        · exact hfields category hcategory keys hown
        · have hactive : OnePerId (CategorySettings.activeRows (categoryRows db) workspaceId none) :=
            (onePerId_categoryRows hdb).mono fun _ hr => (List.mem_filter.mp hr).1
          rw [CategorySettings.find_dictOf hactive] at hfind
          obtain ⟨found, hfound, rfl⟩ := Option.map_eq_some_iff.mp hfind
          have hmem := (List.mem_filter.mp (List.mem_of_find?_eq_some hfound)).1
          obtain ⟨stored, hstored, rfl⟩ := List.mem_map.mp hmem
          exact hfields stored hstored keys hrule

end StockManager.Kicad
