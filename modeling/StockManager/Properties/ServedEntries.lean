import StockManager.Effects.PackageMembers
import StockManager.Model.KicadLibrary
import StockManager.Properties.EntryNames

/-! # What the KiCad library names and the package ships -/

namespace StockManager.Eda

open Sexpr (Text Node)

variable {entry : StoredEntry} {model : Model} {s : State} {symbol : Entry}

/-- The node has the row's name, and a head. -/
def EntryNamed (model : Model) (name : Text) (node : Node) : Prop :=
  Sexpr.entryName node = .ok name ∧ Headed model node

theorem EntryNamed.shaped {name : Text} {node : Node}
    (h : EntryNamed model name node) : EntryShaped model name node := ⟨⟨name, h.1⟩, h.2⟩

theorem entryNamed_law {offers : Model → Text → Node → Prop} {agree : Prop} (hagree : agree) :
    RowLaw offers agree EntryNamed where
  filed {model name offeredName offered node} _ _ hhead hnode hname := by
    refine ⟨hname hagree, ?_⟩
    obtain rfl | hrenamed := hnode
    · exact hhead
    · exact hhead.of_head (Sexpr.head_rename hrenamed)
  renamed {model name newName node renamed} h hrename :=
    ⟨Sexpr.entryName_rename hrename, h.2.of_head (Sexpr.head_rename hrename)⟩

theorem entryNamed_of_run {env : Env} (hsha : Function.Injective env.sha256)
    (hs : s.Fresh) {calls : List (Ctx × Request)}
    (hcalls : Outcome.Meets (exec env) (NameAgrees env) s calls) :
    Library env EntryNamed (Outcome.run (exec env) s calls) := by
  refine Outcome.run_invariant_of_meets ?_ (hs.library env _) hcalls
  intro call m t hm hcall ht
  exact hm.steps hsha (entryNamed_law hcall) (exec_steps ht)

/-- The names in the symbol library of a stem; a library nests its entries one level deeper
than their own files. -/
def symbolNames (members : List (Text × ByteArray)) (stem : Text) : List Text :=
  (members.filter fun m => m.1 = symbolMember stem).flatMap fun m =>
    ((libraryFile (Sexpr.maxDepth + 1) m.2).getD []).map (·.1)

def footprintFolder (stem : Text) : Text := footprintsDir ++ (stem ++ ".pretty/".toList)

/-- The name in a footprint file. -/
def footprintName (data : ByteArray) : Option Text :=
  (decode data).bind fun text => (Sexpr.parse text >>= Sexpr.entryName).toOption

/-- The names in the footprint library of a stem. -/
def footprintNames (members : List (Text × ByteArray)) (stem : Text) : List Text :=
  (members.filter fun m => (footprintFolder stem).isPrefixOf m.1).filterMap fun m =>
    footprintName m.2

theorem before_separator {a b later rest : Text} (h : a ++ '/' :: later = b ++ '/' :: rest)
    (hb : '/' ∉ b) (hrest : '/' ∉ rest) : a = b := by
  induction b generalizing a with
  | nil =>
    cases a with
    | nil => rfl
    | cons c a =>
      have htail : a ++ '/' :: later = rest := (List.cons.inj h).2
      exact absurd (htail ▸ List.mem_append_right a List.mem_cons_self) hrest
  | cons d b ih =>
    cases a with
    | nil => exact absurd ((List.cons.inj h).1 ▸ List.mem_cons_self) hb
    | cons c a =>
      obtain ⟨rfl, htail⟩ := List.cons.inj h
      rw [ih htail fun hmem => hb (List.mem_cons_of_mem _ hmem)]

theorem separator_notMem_of_isSafe {name : Text} (h : isSafeMemberName name = true) : '/' ∉ name := by
  simp only [isSafeMemberName, decide_eq_true_eq, List.all_eq_true] at h
  intro hmem
  exact (h.2.2.2.2 '/' hmem).1 (by decide)

theorem symbolMember_inj {a b : Text} (h : symbolMember a = symbolMember b) : a = b :=
  List.append_cancel_right (List.append_cancel_left h)

theorem head_symbolMember (stem : Text) : (symbolMember stem).head? = some 's' := rfl

theorem head_footprintMember (stem name : Text) : (footprintMember stem name).head? = some 'f' := rfl

theorem head_blobMember (kind : StorageKind) (name : Text) :
    (blobMember kind name).head? = some 'r' ∨ (blobMember kind name).head? = some '3' := by
  unfold blobMember
  split_ifs
  · exact Or.inl rfl
  · exact Or.inr rfl

theorem prefix_footprintMember {stem stem' name : Text} (hstem : '/' ∉ stem') (hname : '/' ∉ name) :
    (footprintFolder stem).isPrefixOf (footprintMember stem' name) = true ↔ stem = stem' := by
  rw [List.isPrefixOf_iff_prefix, footprintFolder, footprintMember, List.prefix_append_right_inj]
  have hfolder : ".pretty/".toList = ".pretty".toList ++ ['/'] := rfl
  constructor
  · rintro ⟨later, hlater⟩
    have hsplit : (stem ++ ".pretty".toList) ++ '/' :: later =
        (stem' ++ ".pretty".toList) ++ '/' :: (name ++ ".kicad_mod".toList) := by
      rw [hfolder] at hlater
      simpa using hlater
    have hbefore : '/' ∉ stem' ++ ".pretty".toList := by
      rw [List.mem_append]
      rintro (hmem | hmem)
      · exact hstem hmem
      · exact absurd hmem (by decide)
    have hafter : '/' ∉ name ++ ".kicad_mod".toList := by
      rw [List.mem_append]
      rintro (hmem | hmem)
      · exact hname hmem
      · exact absurd hmem (by decide)
    exact List.append_cancel_right (before_separator hsplit hbefore hafter)
  · rintro rfl
    rw [← List.append_assoc]
    exact List.prefix_append _ _

section Names

variable {env : Env} {collate : Text → Text → Bool} {metadata : Plan → ByteArray} {s : State}
  {workspaceId : Uuid} {plan : Plan} {members : List (Text × ByteArray)}

theorem member_blob (hplan : planPackage collate s workspaceId = .ok plan)
    (hentry : entry ∈ plan.blobs) : ∃ kind, entry.member = blobMember kind entry.name := by
  rw [planPackage_ok hplan] at hentry
  have hsource := (winners_dedupeMembers _).mem entry hentry
  rw [List.mem_mergeSort, List.mem_filterMap] at hsource
  obtain ⟨row, _, hblob⟩ := hsource
  rw [blobEntry, Option.map_eq_some_iff] at hblob
  obtain ⟨kind, _, rfl⟩ := hblob
  exact ⟨.data kind, rfl⟩

theorem member_footprint (hplan : planPackage collate s workspaceId = .ok plan)
    (hentry : entry ∈ plan.footprints) :
    entry.member = footprintMember entry.stem entry.name ∧ '/' ∉ entry.stem ∧
      '/' ∉ entry.name := by
  obtain ⟨row, _, hpackaged, rfl⟩ := (mem_plan_footprints hplan).mp hentry
  rw [isPackaged, decide_eq_true_eq] at hpackaged
  exact ⟨rfl, separator_notMem_of_isSafe hpackaged.2, separator_notMem_of_isSafe hpackaged.1⟩

theorem storedName_row (hlib : Library env EntryNamed s)
    (hmodel : model ≠ .datafile) {row : Entry} (hrow : row ∈ activeRows s workspaceId model)
    (hkind : entry.kind = model.entryKind) (hsha : entry.sha256 = row.sha256) :
    storedName (storeOf s workspaceId) entry = row.name := by
  obtain ⟨node, hholds, hname, _⟩ := hlib.files model hmodel row (mem_activeRows.mp hrow).1
  obtain ⟨_, hnode⟩ := stored_row hrow hholds ⟨_, hname⟩ hkind hsha
  apply storedName_eq
  rw [hnode]
  exact hname

theorem storedName_symbol (hlib : Library env EntryNamed s)
    (hplan : planPackage collate s workspaceId = .ok plan)
    (hentry : entry ∈ plan.symbols) : storedName (storeOf s workspaceId) entry = entry.name := by
  obtain ⟨row, hrow, _, rfl⟩ := (mem_plan_symbols hplan).mp hentry
  exact storedName_row hlib (by decide) hrow rfl rfl

theorem storedName_footprint (hlib : Library env EntryNamed s)
    (hplan : planPackage collate s workspaceId = .ok plan)
    (hentry : entry ∈ plan.footprints) :
    storedName (storeOf s workspaceId) entry = entry.name := by
  obtain ⟨row, hrow, _, rfl⟩ := (mem_plan_footprints hplan).mp hentry
  exact storedName_row hlib (by decide) hrow rfl rfl

theorem symbolNames_build (hlib : Library env EntryNamed s)
    (h : buildArchive collate metadata s workspaceId = .ok (plan, members)) (stem : Text) :
    symbolNames members stem = (plan.symbols.filter fun e => e.stem = stem).map (·.name) := by
  have hshaped := hlib.imp fun _ _ _ => EntryNamed.shaped
  obtain ⟨hplan, blobs, hblobs, rfl⟩ := buildArchive_ok hshaped h
  have hmetadata : ¬ metadataMember = symbolMember stem := fun heq => by
    have hhead := congrArg List.head? heq
    rw [head_symbolMember] at hhead
    cases hhead
  have hfootprints : (plan.footprints.map (footprintFile (storeOf s workspaceId)
      plan.identifier)).filter (fun m => m.1 = symbolMember stem) = [] := by
    rw [List.filter_eq_nil_iff]
    intro m hm
    obtain ⟨entry, hentry, rfl⟩ := List.mem_map.mp hm
    rw [decide_eq_true_eq]
    intro heq
    have hhead := congrArg List.head? heq
    rw [head_symbolMember, footprintFile, (member_footprint hplan hentry).1,
      head_footprintMember] at hhead
    exact absurd hhead (by decide)
  have hfiles : blobs.filter (fun m => m.1 = symbolMember stem) = [] := by
    rw [List.filter_eq_nil_iff]
    intro m hm
    rw [decide_eq_true_eq]
    intro heq
    have hmember : m.1 ∈ plan.blobs.map (·.member) := hblobs ▸ List.mem_map_of_mem hm
    obtain ⟨entry, hentry, hentryMember⟩ := List.mem_map.mp hmember
    obtain ⟨kind, hkind⟩ := member_blob hplan hentry
    have hhead := congrArg List.head? heq
    rw [head_symbolMember, ← hentryMember, hkind] at hhead
    obtain hblob | hblob := head_blobMember kind entry.name
    all_goals
      rw [hblob] at hhead
      exact absurd hhead (by decide)
  have hlibraries : ((GroupRuns.groupBy (·.stem) plan.symbols).map
      (libraryMember (storeOf s workspaceId) plan.footprints)).filter
        (fun m => m.1 = symbolMember stem) =
      ((GroupRuns.groupBy (·.stem) plan.symbols).filter fun library => library.1 = stem).map
        (libraryMember (storeOf s workspaceId) plan.footprints) := by
    rw [List.filter_map]
    congr 1
    apply List.filter_congr
    intro library _
    rw [Function.comp_apply, libraryMember, decide_eq_decide]
    exact ⟨symbolMember_inj, fun heq => heq ▸ rfl⟩
  rw [symbolNames, List.filter_cons_of_neg (by simpa using hmetadata), List.filter_append,
    List.filter_append, hfootprints, hfiles, List.append_nil, List.append_nil, hlibraries,
    (runs_plan_symbols hplan).filter_key stem]
  split_ifs with hstem
  · rw [List.map_singleton, List.flatMap_singleton, libraryFile_member plan.footprints _ (by decide)]
    · rw [Option.getD_some, List.map_map]
      apply List.map_congr_left
      intro entry hentry
      exact storedName_symbol hlib hplan (List.mem_filter.mp hentry).1
    · intro entry hentry
      obtain ⟨hstored, hhead⟩ := stored_symbol hshaped hplan (List.mem_filter.mp hentry).1
      exact ⟨hstored, hhead, Nat.succ_le_succ hstored.stable.shallow⟩
  · have hnone : plan.symbols.filter (fun e => e.stem = stem) = [] := by
      rw [List.filter_eq_nil_iff]
      intro entry hentry heq
      exact hstem (List.mem_map.mpr ⟨entry, hentry, of_decide_eq_true heq⟩)
    rw [hnone]
    rfl

theorem footprintName_file (hlib : Library env EntryNamed s)
    (hplan : planPackage collate s workspaceId = .ok plan) (identifier : Text)
    (hentry : entry ∈ plan.footprints) :
    footprintName (footprintFile (storeOf s workspaceId) identifier entry).2 = some entry.name := by
  obtain ⟨hstored, root, hhead⟩ :=
    stored_footprint (hlib.imp fun _ _ _ => EntryNamed.shaped) hplan hentry
  rw [footprintName, footprintFile, decode_encode, Option.bind_some,
    (stable_packagedFootprint hstored.stable).parse_emit]
  simp only [bind, Except.bind]
  rw [(packagedFootprint_named hhead hstored.name).2, storedName_footprint hlib hplan hentry]
  rfl

theorem footprintNames_build (hlib : Library env EntryNamed s)
    (h : buildArchive collate metadata s workspaceId = .ok (plan, members)) (stem : Text) :
    footprintNames members stem = (plan.footprints.filter fun e => e.stem = stem).map (·.name) := by
  have hshaped := hlib.imp fun _ _ _ => EntryNamed.shaped
  obtain ⟨hplan, blobs, hblobs, rfl⟩ := buildArchive_ok hshaped h
  have hother : ∀ path : Text, path.head? ≠ some 'f' →
      ¬ (footprintFolder stem).isPrefixOf path = true := by
    intro path hhead hprefix
    obtain ⟨later, rfl⟩ := List.isPrefixOf_iff_prefix.mp hprefix
    exact hhead rfl
  have hlibraries : ((GroupRuns.groupBy (·.stem) plan.symbols).map
      (libraryMember (storeOf s workspaceId) plan.footprints)).filter
        (fun m => (footprintFolder stem).isPrefixOf m.1) = [] := by
    rw [List.filter_eq_nil_iff]
    intro m hm
    obtain ⟨library, _, rfl⟩ := List.mem_map.mp hm
    apply hother
    rw [libraryMember, head_symbolMember]
    decide
  have hfiles : blobs.filter (fun m => (footprintFolder stem).isPrefixOf m.1) = [] := by
    rw [List.filter_eq_nil_iff]
    intro m hm
    apply hother
    have hmember : m.1 ∈ plan.blobs.map (·.member) := hblobs ▸ List.mem_map_of_mem hm
    obtain ⟨entry, hentry, hentryMember⟩ := List.mem_map.mp hmember
    obtain ⟨kind, hkind⟩ := member_blob hplan hentry
    rw [← hentryMember, hkind]
    obtain hblob | hblob := head_blobMember kind entry.name
    all_goals
      rw [hblob]
      decide
  have hmetadata : ¬ (footprintFolder stem).isPrefixOf metadataMember = true :=
    hother _ (by decide)
  rw [footprintNames, List.filter_cons_of_neg (by simpa using hmetadata), List.filter_append,
    List.filter_append, hlibraries, hfiles, List.nil_append, List.append_nil, List.filter_map,
    List.filterMap_map]
  have hfilter : plan.footprints.filter ((fun m : Text × ByteArray =>
      (footprintFolder stem).isPrefixOf m.1) ∘
        footprintFile (storeOf s workspaceId) plan.identifier) =
      plan.footprints.filter fun e => e.stem = stem := by
    apply List.filter_congr
    intro entry hentry
    obtain ⟨hmember, hstem, hname⟩ := member_footprint hplan hentry
    rw [Function.comp_apply, footprintFile, hmember, Bool.eq_iff_iff, decide_eq_true_eq,
      prefix_footprintMember hstem hname]
    exact eq_comm
  rw [hfilter, ← List.filterMap_eq_map]
  apply List.filterMap_congr
  intro entry hentry
  exact footprintName_file hlib hplan plan.identifier (List.mem_filter.mp hentry).1

end Names

/-- The hosted entry the symbol slot resolves from. -/
def hostedSymbol (row : PartRow) : Option Entry :=
  if (truthy (row.config.bind (·.symbolRefExternal))).isSome then none else row.symbol

def hostedFootprint (row : PartRow) : Option Entry :=
  if (truthy (row.config.bind (·.footprintRefExternal))).isSome then none else row.footprint

/-- The listing of a bucket or `partDetail` serves the document of the row. -/
def Serves (collate : Text → Text → Bool) (s : State) (catalogue : Catalogue) (workspaceId : Uuid)
    (row : PartRow) (doc : Document) : Prop :=
  document row = some doc ∧
    ((∃ categoryId, row ∈ bucketRows collate s catalogue workspaceId categoryId) ∨
      ∃ partId, detailRow s catalogue workspaceId partId = some row)

/-- The part is in the listing of its bucket. -/
def Listed (collate : Text → Text → Bool) (s : State) (catalogue : Catalogue) (workspaceId : Uuid)
    (row : PartRow) : Prop :=
  row ∈ bucketRows collate s catalogue workspaceId (row.category.map (·.id)) ∧
    (document row).isSome = true

/-- The part resolves its symbol from the hosted one or from nothing. -/
def OnlySource (row : PartRow) (symbol : Entry) : Prop :=
  truthy (row.config.bind (·.symbolRefExternal)) = none ∧
    row.config.bind (·.symbolId) = some symbol.id ∧
    truthy (row.category.bind (·.defaultSymbolRef)) = none

section Served

variable {env : Env} {collate : Text → Text → Bool} {metadata : Plan → ByteArray} {s : State}
  {catalogue : Catalogue} {workspaceId : Uuid} {plan : Plan}
  {members : List (Text × ByteArray)} {row : PartRow}

theorem mem_bucketRows {categoryId : Option Uuid}
    (h : row ∈ bucketRows collate s catalogue workspaceId categoryId) :
    row ∈ partRows s catalogue workspaceId := by
  rw [bucketRows, List.mem_mergeSort] at h
  exact (List.mem_filter.mp h).1

theorem Serves.mem {doc : Document} (h : Serves collate s catalogue workspaceId row doc) :
    row ∈ partRows s catalogue workspaceId := by
  obtain ⟨_, ⟨categoryId, hbucket⟩ | ⟨partId, hdetail⟩⟩ := h
  · exact mem_bucketRows hbucket
  · exact List.mem_of_find?_eq_some hdetail

theorem joinEntry_mem {entryId : Option Uuid} {entry : Entry}
    (h : joinEntry s workspaceId model entryId = some entry) :
    entry ∈ activeRows s workspaceId model := by
  have hfound := List.find?_some h
  simp only [decide_eq_true_eq] at hfound
  exact mem_activeRows.mpr ⟨List.mem_of_find?_eq_some h, hfound.2⟩

theorem exists_part (h : row ∈ partRows s catalogue workspaceId) :
    ∃ part, row = partRow s catalogue part ∧ part.workspaceId = workspaceId := by
  obtain ⟨part, hpart, rfl⟩ := List.mem_map.mp h
  obtain ⟨_, hpart⟩ := List.mem_filter.mp hpart
  simp only [decide_eq_true_eq] at hpart
  exact ⟨part, rfl, hpart.1⟩

theorem entryRef_joined {entry : Entry} (h : entry ∈ activeRows s workspaceId model) :
    entryRef entry.name ((joinCategory s workspaceId entry.categoryId).map (·.librarySlug)) =
      stemNickname (libraryStem s entry) ++ ':' :: entry.name := by
  rw [entryRef, libraryNickname, libraryStem, categorySlug, joinCategory,
    (mem_activeRows.mp h).2.1]

theorem resolveRef_hosted {external : Option Text} {hosted : Option Entry} {entry : Entry}
    (slug default : Option Text)
    (h : (if (truthy external).isSome then none else hosted) = some entry) :
    hosted = some entry ∧
      resolveRef external hosted slug default = some (entryRef entry.name slug) := by
  split_ifs at h with hexternal
  rw [Bool.not_eq_true, Option.isSome_eq_false_iff, Option.isNone_iff_eq_none] at hexternal
  rw [resolveRef, hexternal, h]
  exact ⟨rfl, rfl⟩

theorem hostedSymbol_named (hrow : row ∈ partRows s catalogue workspaceId)
    (h : hostedSymbol row = some symbol) : symbol ∈ activeRows s workspaceId .symbol ∧
      symbolIdStr row = some (stemNickname (libraryStem s symbol) ++ ':' :: symbol.name) := by
  obtain ⟨part, rfl, rfl⟩ := exists_part hrow
  obtain ⟨hsymbol, href⟩ := resolveRef_hosted (partRow s catalogue part).symbolCategorySlug
    ((partRow s catalogue part).category.bind (·.defaultSymbolRef)) h
  have hslug : (partRow s catalogue part).symbolCategorySlug = (joinCategory s part.workspaceId
      ((partRow s catalogue part).symbol.bind (·.categoryId))).map (·.librarySlug) := rfl
  rw [hsymbol, Option.bind_some] at hslug
  have hactive : symbol ∈ activeRows s part.workspaceId .symbol := joinEntry_mem hsymbol
  refine ⟨hactive, ?_⟩
  rw [symbolIdStr, href, hslug, entryRef_joined hactive]

theorem hostedFootprint_named (hrow : row ∈ partRows s catalogue workspaceId) {footprint : Entry}
    (h : hostedFootprint row = some footprint) :
    footprint ∈ activeRows s workspaceId .footprint ∧
      footprintRef row = some (stemNickname (libraryStem s footprint) ++ ':' :: footprint.name) := by
  obtain ⟨part, rfl, rfl⟩ := exists_part hrow
  obtain ⟨hfootprint, href⟩ := resolveRef_hosted (partRow s catalogue part).footprintCategorySlug
    ((partRow s catalogue part).category.bind (·.defaultFootprintRef)) h
  have hslug : (partRow s catalogue part).footprintCategorySlug =
      (joinCategory s part.workspaceId
        ((partRow s catalogue part).footprint.bind (·.categoryId))).map (·.librarySlug) := rfl
  rw [hfootprint, Option.bind_some] at hslug
  have hactive : footprint ∈ activeRows s part.workspaceId .footprint := joinEntry_mem hfootprint
  refine ⟨hactive, ?_⟩
  rw [footprintRef, href, hslug, entryRef_joined hactive]

theorem mem_own_bucket (hrow : row ∈ partRows s catalogue workspaceId) :
    row ∈ bucketRows collate s catalogue workspaceId (row.category.map (·.id)) := by
  rw [bucketRows, List.mem_mergeSort, List.mem_filter]
  refine ⟨hrow, ?_⟩
  cases hcategory : row.category with
  | none => rfl
  | some category =>
    obtain ⟨part, rfl, _⟩ := exists_part hrow
    have hfound := List.find?_some (p := fun c : PartCategory => some c.id = part.categoryId ∧
      c.workspaceId = part.workspaceId ∧ c.archivedAt = none) hcategory
    simp only [decide_eq_true_eq] at hfound
    exact decide_eq_true hfound.1.symm

theorem count_names {entries : List StoredEntry} (h : (entries.map (·.name)).Nodup)
    (stem name : Text) : ((entries.filter fun e => e.stem = stem).map (·.name)).count name =
      if ∃ e ∈ entries, e.stem = stem ∧ e.name = name then 1 else 0 := by
  have hnodup : ((entries.filter fun e => e.stem = stem).map (·.name)).Nodup :=
    h.sublist (List.filter_sublist.map _)
  split_ifs with hmem
  · obtain ⟨e, he, hstem, rfl⟩ := hmem
    exact List.count_eq_one_of_mem hnodup
      (List.mem_map_of_mem (List.mem_filter.mpr ⟨he, decide_eq_true hstem⟩))
  · rw [List.count_eq_zero, List.mem_map]
    rintro ⟨e, he, hname⟩
    obtain ⟨he, hstem⟩ := List.mem_filter.mp he
    exact hmem ⟨e, he, of_decide_eq_true hstem, hname⟩

theorem eq_of_name (hlib : Library env EntryNamed s) (hmodel : model ≠ .datafile)
    {entry entry' : Entry} (h : entry ∈ activeRows s workspaceId model)
    (h' : entry' ∈ activeRows s workspaceId model) (hname : entry.name = entry'.name) :
    entry = entry' :=
  List.inj_on_of_nodup_map (nodup_names hlib hmodel) h h' hname

/-- An active symbol's name is in the library of its stem once, or the name or the stem cannot
name a file and it is nowhere. -/
theorem count_symbolNames (hlib : Library env EntryNamed s)
    (h : buildArchive collate metadata s workspaceId = .ok (plan, members))
    (hsymbol : symbol ∈ activeRows s workspaceId .symbol) :
    (symbolNames members (libraryStem s symbol)).count symbol.name =
      if isPackaged (symbol, libraryStem s symbol) then 1 else 0 := by
  have hplan := (buildArchive_ok (hlib.imp fun _ _ _ => EntryNamed.shaped) h).1
  rw [symbolNames_build hlib h, count_names (nodup_plan_symbols hlib hplan)]
  congr 1
  rw [eq_iff_iff]
  constructor
  · rintro ⟨e, he, _, hname⟩
    obtain ⟨other, hother, hpackaged, rfl⟩ := (mem_plan_symbols hplan).mp he
    obtain rfl := eq_of_name hlib (by decide) hother hsymbol hname
    exact hpackaged
  · intro hpackaged
    exact ⟨_, (mem_plan_symbols hplan).mpr ⟨symbol, hsymbol, hpackaged, rfl⟩, rfl, rfl⟩

theorem count_footprintNames (hlib : Library env EntryNamed s)
    (h : buildArchive collate metadata s workspaceId = .ok (plan, members)) {footprint : Entry}
    (hfootprint : footprint ∈ activeRows s workspaceId .footprint) :
    (footprintNames members (libraryStem s footprint)).count footprint.name =
      if isPackaged (footprint, libraryStem s footprint) then 1 else 0 := by
  have hplan := (buildArchive_ok (hlib.imp fun _ _ _ => EntryNamed.shaped) h).1
  rw [footprintNames_build hlib h, count_names (nodup_plan_footprints hlib hplan)]
  congr 1
  rw [eq_iff_iff]
  constructor
  · rintro ⟨e, he, _, hname⟩
    obtain ⟨other, hother, hpackaged, rfl⟩ := (mem_plan_footprints hplan).mp he
    obtain rfl := eq_of_name hlib (by decide) hother hfootprint hname
    exact hpackaged
  · intro hpackaged
    exact ⟨_, (mem_plan_footprints hplan).mpr ⟨footprint, hfootprint, hpackaged, rfl⟩, rfl, rfl⟩

theorem listed_of_onlySource (hlib : Library env EntryNamed s)
    (hsymbol : symbol ∈ activeRows s workspaceId .symbol)
    (hrow : row ∈ partRows s catalogue workspaceId) (h : OnlySource row symbol) :
    Listed collate s catalogue workspaceId row := by
  refine ⟨mem_own_bucket hrow, ?_⟩
  obtain ⟨hexternal, hid, _⟩ := h
  obtain ⟨part, rfl, rfl⟩ := exists_part hrow
  obtain ⟨hmem, hworkspace, hactive⟩ := mem_activeRows.mp hsymbol
  have hjoin : (partRow s catalogue part).symbol = some symbol := by
    have hexists : (joinEntry s part.workspaceId .symbol (some symbol.id)).isSome = true := by
      rw [joinEntry, List.find?_isSome]
      exact ⟨symbol, hmem, decide_eq_true ⟨rfl, hworkspace, hactive⟩⟩
    obtain ⟨found, hfound⟩ := Option.isSome_iff_exists.mp hexists
    have hsame := List.find?_some hfound
    simp only [decide_eq_true_eq] at hsame
    obtain rfl := hlib.eq_of_id (List.mem_of_find?_eq_some hfound) hmem (Option.some.inj hsame.1)
    have hjoined : (partRow s catalogue part).symbol = joinEntry s part.workspaceId .symbol
        ((partRow s catalogue part).config.bind (·.symbolId)) := rfl
    rw [hjoined, hid, hfound]
  rw [document, symbolIdStr, resolveRef, hexternal, hjoin]
  rfl

/-- Where the package is built, every entry the KiCad library names is in it once when its name
and its stem can name a file, and is left out otherwise; a part is listed either way. -/
theorem served_entries_shipped (hlib : Library env EntryNamed s)
    (h : buildArchive collate metadata s workspaceId = .ok (plan, members))
    (catalogue : Catalogue) :
    (∀ row doc symbol, Serves collate s catalogue workspaceId row doc →
      hostedSymbol row = some symbol →
        doc.symbolIdStr = stemNickname (libraryStem s symbol) ++ ':' :: symbol.name ∧
          (symbolNames members (libraryStem s symbol)).count symbol.name =
            if isPackaged (symbol, libraryStem s symbol) then 1 else 0) ∧
      (∀ row doc footprint, Serves collate s catalogue workspaceId row doc →
        hostedFootprint row = some footprint →
          doc.footprint =
              some (stemNickname (libraryStem s footprint) ++ ':' :: footprint.name) ∧
            (footprintNames members (libraryStem s footprint)).count footprint.name =
              if isPackaged (footprint, libraryStem s footprint) then 1 else 0) ∧
      ∀ symbol ∈ activeRows s workspaceId .symbol, ∀ row ∈ partRows s catalogue workspaceId,
        OnlySource row symbol → Listed collate s catalogue workspaceId row ∧
          (symbol.name ∈ symbolNames members (libraryStem s symbol) ↔
            isPackaged (symbol, libraryStem s symbol) = true) := by
  refine ⟨?_, ?_, ?_⟩
  · intro row doc symbol hserves hhosted
    obtain ⟨hactive, href⟩ := hostedSymbol_named hserves.mem hhosted
    have hdoc := hserves.1
    rw [document, href] at hdoc
    obtain rfl := Option.some.inj hdoc
    exact ⟨rfl, count_symbolNames hlib h hactive⟩
  · intro row doc footprint hserves hhosted
    obtain ⟨hactive, href⟩ := hostedFootprint_named hserves.mem hhosted
    have hdoc := hserves.1
    rw [document, Option.map_eq_some_iff] at hdoc
    obtain ⟨_, _, rfl⟩ := hdoc
    refine ⟨?_, count_footprintNames hlib h hactive⟩
    rw [href]
    rfl
  · intro symbol hsymbol row hrow honly
    refine ⟨listed_of_onlySource hlib hsymbol hrow honly, ?_⟩
    rw [← List.count_pos_iff, count_symbolNames hlib h hsymbol]
    split_ifs with hpackaged
    · exact ⟨fun _ => hpackaged, fun _ => Nat.one_pos⟩
    · exact ⟨fun hpos => absurd hpos (Nat.lt_irrefl 0), fun htrue => absurd htrue hpackaged⟩

end Served

/-- The library after one symbol was uploaded, with id 7. -/
def oneSymbol (text : String) : State :=
  Outcome.run (exec sampleEnv) sampleState [(sampleCtx 7, .uploadSymbol text.toUTF8 none none)]

def plainState : State := oneSymbol "(symbol \"LM317\")"

def slashState : State := oneSymbol "(symbol \"LM317/T\")"

/-- One part, with the symbol 7. -/
def sampleCatalogue : Catalogue :=
  ⟨[⟨3, 1, "Regulator".toList, none, none⟩], [⟨1, 3, some 7, none, none, none⟩]⟩

def noMetadata (_ : Plan) : ByteArray := ByteArray.empty

/-- The members of the package of workspace 1. -/
def sampleMembers (s : State) : List (Text × ByteArray) :=
  ((buildArchive textLe noMetadata s 1).toOption.map (·.2)).getD []

theorem exists_package (h : (buildArchive textLe noMetadata s 1).toOption.isSome = true) :
    ∃ plan, buildArchive textLe noMetadata s 1 = .ok (plan, sampleMembers s) := by
  cases hbuild : buildArchive textLe noMetadata s 1 with
  | error e =>
    rw [hbuild] at h
    cases h
  | ok package =>
    refine ⟨package.1, ?_⟩
    rw [sampleMembers, hbuild]
    rfl

/-- The row of a part, as the library serves it. -/
def sampleRow (s : State) : PartRow :=
  partRow s sampleCatalogue ⟨3, 1, "Regulator".toList, none, none⟩

theorem serves_sampleRow {doc : Document} (h : document (sampleRow s) = some doc) :
    Serves textLe s sampleCatalogue 1 (sampleRow s) doc :=
  ⟨h, Or.inr ⟨3, rfl⟩⟩

theorem served_entries_shipped_sample :
    ∃ symbol, hostedSymbol (sampleRow plainState) = some symbol ∧
      (document (sampleRow plainState)).map (·.symbolIdStr) =
        some "PCM_SM_uncategorized:LM317".toList ∧
      (symbolNames (sampleMembers plainState)
        (libraryStem plainState symbol)).count symbol.name = 1 := by
  have hlib : Library sampleEnv EntryNamed plainState :=
    entryNamed_of_run sampleEnv_injective ⟨rfl, rfl, rfl, rfl⟩ ⟨fun _ _ _ _ => rfl, trivial⟩
  have hbuilt : (buildArchive textLe noMetadata plainState 1).toOption.isSome = true := by
    decide +kernel
  obtain ⟨plan, hbuild⟩ := exists_package hbuilt
  have hdoc : (document (sampleRow plainState)).map (·.symbolIdStr) =
      some "PCM_SM_uncategorized:LM317".toList := by decide +kernel
  obtain ⟨doc, hserved, _⟩ := Option.map_eq_some_iff.mp hdoc
  have hsome : (hostedSymbol (sampleRow plainState)).isSome = true := by
    decide +kernel
  obtain ⟨symbol, hsymbol⟩ := Option.isSome_iff_exists.mp hsome
  have hcount := ((served_entries_shipped hlib hbuild sampleCatalogue).1 _ doc symbol
    (serves_sampleRow hserved) hsymbol).2
  have hpackaged : ((hostedSymbol (sampleRow plainState)).map fun symbol =>
      isPackaged (symbol, libraryStem plainState symbol)) = some true := by
    decide +kernel
  rw [hsymbol] at hpackaged
  rw [if_pos (Option.some.inj hpackaged)] at hcount
  exact ⟨symbol, hsymbol, hdoc, hcount⟩

/-- A symbol whose name has a separator is served and not shipped. -/
theorem served_symbol_not_shipped :
    (∀ row ∈ slashState.symbols,
        fileName slashState .symbol row = some row.name) ∧
      (∃ plan, buildArchive textLe noMetadata slashState 1 =
        .ok (plan, sampleMembers slashState)) ∧
      ∃ doc symbol, Serves textLe slashState sampleCatalogue 1
          (sampleRow slashState) doc ∧
        hostedSymbol (sampleRow slashState) = some symbol ∧
        doc.symbolIdStr = "PCM_SM_uncategorized:LM317/T".toList ∧
        (symbolNames (sampleMembers slashState)
          (libraryStem slashState symbol)).count symbol.name ≠ 1 := by
  refine ⟨by decide +kernel, exists_package (by decide +kernel), ?_⟩
  have hdoc : (document (sampleRow slashState)).map (·.symbolIdStr) =
      some "PCM_SM_uncategorized:LM317/T".toList := by decide +kernel
  obtain ⟨doc, hserved, hid⟩ := Option.map_eq_some_iff.mp hdoc
  have hcount : ((hostedSymbol (sampleRow slashState)).map fun symbol =>
      (symbolNames (sampleMembers slashState)
        (libraryStem slashState symbol)).count symbol.name) = some 0 := by
    decide +kernel
  obtain ⟨symbol, hsymbol, hzero⟩ := Option.map_eq_some_iff.mp hcount
  refine ⟨doc, symbol, serves_sampleRow hserved, hsymbol, hid, ?_⟩
  rw [hzero]
  decide

end StockManager.Eda
