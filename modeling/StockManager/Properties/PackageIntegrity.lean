import StockManager.Properties.ServedEntries

/-! # The package of a workspace stands on its own -/

namespace StockManager.Eda

open Sexpr (Text Node)

variable {entry : StoredEntry} {name stem : Text} {data : ByteArray}

theorem entryShaped_law (offers : Model → Text → Node → Prop) (agree : Prop) :
    RowLaw offers agree EntryShaped where
  filed {model name offeredName offered node} _ hnamed hhead hnode _ := by
    obtain rfl | hrenamed := hnode
    · exact ⟨⟨offeredName, hnamed⟩, hhead⟩
    · exact ⟨⟨name, Sexpr.entryName_rename hrenamed⟩, hhead.of_head (Sexpr.head_rename hrenamed)⟩
  renamed {model name newName node renamed} h hrename :=
    ⟨⟨newName, Sexpr.entryName_rename hrename⟩, h.2.of_head (Sexpr.head_rename hrename)⟩

theorem entryShaped_of_run {env : Env} (hsha : Function.Injective env.sha256) {s : State}
    (hs : s.Fresh) (calls : List (Ctx × Request)) :
    Library env EntryShaped (Outcome.run (exec env) s calls) := by
  refine Outcome.run_invariant ?_ calls (hs.library env _)
  intro call m t hm ht
  exact hm.steps hsha (entryShaped_law _ _) (exec_steps ht)

theorem isSafeMemberName_append {name ending : Text} (h : isSafeMemberName name = true)
    (hending : isSafeMemberName ending = true) (hdots : 2 < ending.length) :
    isSafeMemberName (name ++ ending) = true := by
  simp only [isSafeMemberName, decide_eq_true_eq] at h hending ⊢
  have hne : ending ≠ [] := hending.1
  have hlong : 2 < (name ++ ending).length := by
    rw [List.length_append]
    omega
  refine ⟨fun heq => ?_, fun heq => ?_, fun heq => ?_, ?_, ?_⟩
  · rw [heq] at hlong
    exact absurd hlong (by decide)
  · rw [heq] at hlong
    exact absurd hlong (by decide)
  · rw [heq] at hlong
    exact absurd hlong (by decide)
  · rw [List.getLast?_append_of_ne_nil name hne]
    exact hending.2.2.2.1
  · rw [List.all_append, h.2.2.2.2, hending.2.2.2.2]
    rfl

/-- A path with no way out of its folder. -/
def Flat (path : Text) : Prop :=
  path = metadataMember ∨ ∃ folder file, path = folder ++ file ∧ isSafeMemberName file = true ∧
    (folder = symbolsDir ∨ folder = modelsDir ∨ folder = spiceDir ∨
      ∃ stem, isSafeMemberName stem = true ∧ folder = footprintFolder stem)

theorem flat_symbolMember (h : isSafeMemberName stem = true) :
    Flat (symbolMember stem) :=
  Or.inr ⟨symbolsDir, stem ++ ".kicad_sym".toList, rfl,
    isSafeMemberName_append h (by decide) (by decide), Or.inl rfl⟩

theorem flat_footprintMember (hstem : isSafeMemberName stem = true)
    (hname : isSafeMemberName name = true) : Flat (footprintMember stem name) := by
  refine Or.inr ⟨footprintFolder stem, name ++ ".kicad_mod".toList, ?_,
    isSafeMemberName_append hname (by decide) (by decide),
    Or.inr (Or.inr (Or.inr ⟨stem, hstem, rfl⟩))⟩
  simp only [footprintMember, footprintFolder, List.append_assoc]

theorem flat_blobMember (kind : StorageKind) (h : isSafeMemberName name = true) :
    Flat (blobMember kind name) := by
  unfold blobMember
  split_ifs
  · exact Or.inr ⟨spiceDir, name, rfl, h, Or.inr (Or.inr (Or.inl rfl))⟩
  · exact Or.inr ⟨modelsDir, name, rfl, h, Or.inr (Or.inl rfl)⟩

theorem footprintMember_inj {stem stem' name name' : Text} (hstem : '/' ∉ stem')
    (hname : '/' ∉ name') (h : footprintMember stem name = footprintMember stem' name') :
    stem = stem' ∧ name = name' := by
  have hprefix : (footprintFolder stem).isPrefixOf (footprintMember stem' name') = true := by
    rw [← h, List.isPrefixOf_iff_prefix]
    refine ⟨name ++ ".kicad_mod".toList, ?_⟩
    simp only [footprintMember, footprintFolder, List.append_assoc]
  obtain rfl := (prefix_footprintMember hstem hname).mp hprefix
  refine ⟨rfl, ?_⟩
  rw [footprintMember, footprintMember] at h
  exact List.append_cancel_right (List.append_cancel_left (List.append_cancel_left
    (List.append_cancel_left h)))

/-- The symbol ships as stored, or with the value of a `Footprint` property pointed at the
packaged footprint of the name it had. -/
def Repointed (footprints : List StoredEntry) (members : List (Text × ByteArray))
    (stored written : Node) : Prop :=
  written = stored ∨ ∃ current f, Sexpr.getProperty stored footprintProperty = some current ∧
    f ∈ footprints ∧ f.name = afterLast ':' current ∧ f.member ∈ members.map (·.1) ∧
    Sexpr.ValueChanged footprintProperty (stemNickname f.stem ++ ':' :: f.name) stored written

/-- What a package is to its readers. -/
structure WellFormed (read : ReadFile) (plan : Plan) (members : List (Text × ByteArray)) :
    Prop where
  distinct : (members.map (·.1)).Nodup
  flat : ∀ m ∈ members, Flat m.1
  libraries : ∀ entry ∈ plan.symbols, symbolMember entry.stem ∈ members.map (·.1)
  symbols : ∀ stem data, (symbolMember stem, data) ∈ members → ∃ text found,
    decode data = some text ∧ Sexpr.entries text = .ok found ∧
    List.Forall₂ (fun entry item => Repointed plan.footprints members (entryNode read entry) item.2)
      (plan.symbols.filter fun entry => entry.stem = stem) found
  footprints : ∀ entry ∈ plan.footprints, entry.member ∈ members.map (·.1)
  models : ∀ entry ∈ plan.footprints, ∀ data, (entry.member, data) ∈ members → ∃ text node,
    decode data = some text ∧ Sexpr.parse text = .ok node ∧
    (∀ name, pcmModelPath plan.identifier name ∈ Sexpr.modelPaths node →
      modelsDir ++ name ∈ members.map (·.1)) ∧
    ∀ path, 2 ≤ (Sexpr.modelPaths node).count path → ∃ stored,
      2 ≤ (Sexpr.modelPaths (entryNode read entry)).count stored ∧
        installedPath plan.identifier stored = some path

/-- An active 3D model of that name ships. -/
def HasModel (s : State) (workspaceId : Uuid) (name : Text) : Prop :=
  isSafeMemberName name = true ∧ ∃ file ∈ activeRows s workspaceId .datafile, file.name = name ∧
    (file.kind = some .step ∨ file.kind = some .wrl)

/-- The state of a workspace whose package stands on its own. -/
structure Packable (s : State) (workspaceId : Uuid) : Prop where
  /-- A packaged symbol leaves the library that holds it a level. -/
  shallow : ∀ row ∈ activeRows s workspaceId .symbol,
    isPackaged (row, libraryStem s row) = true → ∀ node, storedNode s .symbol row = some node →
      Sexpr.depth (.node node) < Sexpr.maxDepth
  /-- The workspace's own model paths of a packaged footprint name active models. -/
  models : ∀ row ∈ activeRows s workspaceId .footprint,
    isPackaged (row, libraryStem s row) = true → ∀ node, storedNode s .footprint row = some node →
      ∀ name, (storedModelPrefix ++ name ∈ Sexpr.modelPaths node → isSafeMemberName name = true →
          HasModel s workspaceId name) ∧
        (pcmModelPath (packageIdentifier workspaceId) name ∈ Sexpr.modelPaths node →
          HasModel s workspaceId name)
  /-- No footprint names a model both as stored and as installed. -/
  spellings : ∀ row ∈ activeRows s workspaceId .footprint,
    isPackaged (row, libraryStem s row) = true → ∀ node, storedNode s .footprint row = some node →
      ∀ name, ¬ (storedModelPrefix ++ name ∈ Sexpr.modelPaths node ∧
        pcmModelPath (packageIdentifier workspaceId) name ∈ Sexpr.modelPaths node)

section Build

variable {env : Env} {collate : Text → Text → Bool} {metadata : Plan → ByteArray} {s : State}
  {workspaceId : Uuid} {plan : Plan} {members : List (Text × ByteArray)}

theorem flat_blob (hplan : planPackage collate s workspaceId = .ok plan)
    (hentry : entry ∈ plan.blobs) : Flat entry.member := by
  rw [planPackage_ok hplan] at hentry
  have hsource := (winners_dedupeMembers _).mem entry hentry
  rw [List.mem_mergeSort, List.mem_filterMap] at hsource
  obtain ⟨row, hrow, hblob⟩ := hsource
  rw [blobEntry, Option.map_eq_some_iff] at hblob
  obtain ⟨kind, _, rfl⟩ := hblob
  exact flat_blobMember _ (List.mem_filter.mp hrow).2

theorem paths_build (hlib : Library env EntryShaped s)
    (h : buildArchive collate metadata s workspaceId = .ok (plan, members)) :
    members.map (·.1) = metadataMember ::
      (((GroupRuns.groupBy (·.stem) plan.symbols).map (·.1)).map symbolMember ++
        plan.footprints.map (·.member) ++ plan.blobs.map (·.member)) := by
  obtain ⟨_, blobs, hblobs, rfl⟩ := buildArchive_ok hlib h
  rw [List.map_cons, List.map_append, List.map_append, hblobs, List.map_map, List.map_map,
    List.map_map]
  rfl

theorem symbol_isPackaged (hplan : planPackage collate s workspaceId = .ok plan)
    (hentry : entry ∈ plan.symbols) :
    isSafeMemberName entry.stem = true ∧ isSafeMemberName entry.name = true := by
  obtain ⟨row, _, hpackaged, rfl⟩ := (mem_plan_symbols hplan).mp hentry
  rw [isPackaged, decide_eq_true_eq] at hpackaged
  exact ⟨hpackaged.2, hpackaged.1⟩

theorem footprint_isPackaged (hplan : planPackage collate s workspaceId = .ok plan)
    (hentry : entry ∈ plan.footprints) :
    isSafeMemberName entry.stem = true ∧ isSafeMemberName entry.name = true := by
  obtain ⟨row, _, hpackaged, rfl⟩ := (mem_plan_footprints hplan).mp hentry
  rw [isPackaged, decide_eq_true_eq] at hpackaged
  exact ⟨hpackaged.2, hpackaged.1⟩

theorem flat_build (hlib : Library env EntryShaped s)
    (h : buildArchive collate metadata s workspaceId = .ok (plan, members)) :
    ∀ m ∈ members, Flat m.1 := by
  intro m hm
  have hplan := (buildArchive_ok hlib h).1
  have hpath : m.1 ∈ members.map (·.1) := List.mem_map_of_mem hm
  rw [paths_build hlib h, List.mem_cons, List.mem_append, List.mem_append] at hpath
  obtain hmetadata | (hsymbol | hfootprint) | hblob := hpath
  · exact Or.inl hmetadata
  · obtain ⟨stem, hstem, hpath⟩ := List.mem_map.mp hsymbol
    obtain ⟨p, hp, rfl⟩ := List.mem_map.mp hstem
    obtain ⟨entry, hentry, hkey⟩ := (runs_plan_symbols hplan).inhabited p hp
    rw [← hpath, ← hkey]
    exact flat_symbolMember (symbol_isPackaged hplan hentry).1
  · obtain ⟨entry, hentry, hpath⟩ := List.mem_map.mp hfootprint
    obtain ⟨hstem, hname⟩ := footprint_isPackaged hplan hentry
    rw [← hpath, (member_footprint hplan hentry).1]
    exact flat_footprintMember hstem hname
  · obtain ⟨entry, hentry, hpath⟩ := List.mem_map.mp hblob
    rw [← hpath]
    exact flat_blob hplan hentry

/-- No two members have one path: the folders begin differently, and within one the stems,
the names and the winners are distinct. -/
theorem distinct_build (hlib : Library env EntryShaped s)
    (h : buildArchive collate metadata s workspaceId = .ok (plan, members)) :
    (members.map (·.1)).Nodup := by
  have hplan := (buildArchive_ok hlib h).1
  have hlibraries : (((GroupRuns.groupBy (·.stem) plan.symbols).map (·.1)).map
      symbolMember).Nodup :=
    (runs_plan_symbols hplan).keys.map fun _ _ => symbolMember_inj
  have hnames := nodup_plan_footprints hlib hplan
  have hfootprints : (plan.footprints.map (·.member)).Nodup := by
    apply hnames.of_map.map_on
    intro a ha b hb hmember
    obtain ⟨hbmember, hbstem, hbname⟩ := member_footprint hplan hb
    rw [(member_footprint hplan ha).1, hbmember] at hmember
    exact List.inj_on_of_nodup_map hnames ha hb (footprintMember_inj hbstem hbname hmember).2
  have hblobs : (plan.blobs.map (·.member)).Nodup := by
    rw [planPackage_ok hplan]
    exact (winners_dedupeMembers _).nodup
  have hsymbolHead : ∀ path ∈ ((GroupRuns.groupBy (·.stem) plan.symbols).map (·.1)).map
      symbolMember, path.head? = some 's' := by
    intro path hpath
    obtain ⟨stem, _, rfl⟩ := List.mem_map.mp hpath
    rfl
  have hfootprintHead : ∀ path ∈ plan.footprints.map (·.member), path.head? = some 'f' := by
    intro path hpath
    obtain ⟨entry, hentry, rfl⟩ := List.mem_map.mp hpath
    rw [(member_footprint hplan hentry).1]
    rfl
  have hblobHead : ∀ path ∈ plan.blobs.map (·.member),
      path.head? = some 'r' ∨ path.head? = some '3' := by
    intro path hpath
    obtain ⟨entry, hentry, rfl⟩ := List.mem_map.mp hpath
    obtain ⟨kind, hkind⟩ := member_blob hplan hentry
    rw [hkind]
    exact head_blobMember kind entry.name
  rw [paths_build hlib h, List.nodup_cons, List.nodup_append, List.nodup_append]
  refine ⟨?_, ⟨hlibraries, hfootprints, ?_⟩, hblobs, ?_⟩
  · rw [List.mem_append, List.mem_append]
    have hhead : metadataMember.head? = some 'm' := rfl
    rintro ((hmem | hmem) | hmem)
    · exact absurd (hhead.symm.trans (hsymbolHead _ hmem)) (by decide)
    · exact absurd (hhead.symm.trans (hfootprintHead _ hmem)) (by decide)
    · obtain heq | heq := hblobHead _ hmem
      · exact absurd (hhead.symm.trans heq) (by decide)
      · exact absurd (hhead.symm.trans heq) (by decide)
  · intro a ha b hb heq
    have hhead := hsymbolHead a ha
    rw [heq, hfootprintHead b hb] at hhead
    exact absurd hhead (by decide)
  · intro a ha b hb heq
    obtain hblob | hblob := hblobHead b hb
    all_goals
      rw [← heq] at hblob
      obtain hsymbol | hfootprint := List.mem_append.mp ha
      · exact absurd ((hsymbolHead a hsymbol).symm.trans hblob) (by decide)
      · exact absurd ((hfootprintHead a hfootprint).symm.trans hblob) (by decide)

theorem libraryFile_entries {found : List (Text × Node)}
    (h : libraryFile Sexpr.maxDepth data = some found) :
    ∃ text, decode data = some text ∧ Sexpr.entries text = .ok found := by
  obtain ⟨text, htext, hfound⟩ := Option.bind_eq_some_iff.mp h
  refine ⟨text, htext, ?_⟩
  have hentries : (Sexpr.entries text).toOption = some found := hfound
  cases hread : Sexpr.entries text with
  | error e =>
    rw [hread] at hentries
    cases hentries
  | ok entries =>
    rw [hread] at hentries
    rw [Option.some.inj hentries]

theorem repointed_packagedSymbol {footprints : List StoredEntry}
    (hmembers : ∀ f ∈ footprints, f.member ∈ members.map (·.1)) (node : Node) :
    Repointed footprints members node (packagedSymbol footprints node) := by
  obtain heq | ⟨current, f, hcurrent, hf, hname, hchanged⟩ := packagedSymbol_cases footprints node
  · exact Or.inl heq
  · exact Or.inr ⟨current, f, hcurrent, hf, hname, hmembers f hf, hchanged⟩

theorem library_mem (hlib : Library env EntryShaped s)
    (h : buildArchive collate metadata s workspaceId = .ok (plan, members))
    (hmem : (symbolMember stem, data) ∈ members) :
    (symbolMember stem, data) = libraryMember (storeOf s workspaceId) plan.footprints
      (stem, plan.symbols.filter fun entry => entry.stem = stem) := by
  obtain ⟨hplan, blobs, hblobs, rfl⟩ := buildArchive_ok hlib h
  have hhead := head_symbolMember stem
  rw [List.mem_cons, List.mem_append, List.mem_append] at hmem
  obtain heq | (hlibrary | hfootprint) | hblob := hmem
  · rw [(Prod.mk.inj heq).1] at hhead
    exact absurd hhead (by decide)
  · obtain ⟨library, hgroup, heq⟩ := List.mem_map.mp hlibrary
    obtain rfl : library.1 = stem := symbolMember_inj (Prod.mk.inj heq).1
    rw [← heq, ← (runs_plan_symbols hplan).group library hgroup]
  · obtain ⟨entry, hentry, heq⟩ := List.mem_map.mp hfootprint
    have hpath : entry.member = symbolMember stem := (Prod.mk.inj heq).1
    rw [← hpath, (member_footprint hplan hentry).1, head_footprintMember] at hhead
    exact absurd hhead (by decide)
  · have hpath : symbolMember stem ∈ plan.blobs.map (·.member) :=
      hblobs ▸ List.mem_map_of_mem hblob
    obtain ⟨entry, hentry, heq⟩ := List.mem_map.mp hpath
    obtain ⟨kind, hkind⟩ := member_blob hplan hentry
    rw [← heq, hkind] at hhead
    obtain hother | hother := head_blobMember kind entry.name
    all_goals
      rw [hother] at hhead
      exact absurd hhead (by decide)

theorem shallow_symbol (hlib : Library env EntryShaped s) (hpackable : Packable s workspaceId)
    (hplan : planPackage collate s workspaceId = .ok plan)
    (hentry : entry ∈ plan.symbols) :
    Sexpr.depth (.node (entryNode (storeOf s workspaceId) entry)) < Sexpr.maxDepth := by
  obtain ⟨row, hrow, hpackaged, rfl⟩ := (mem_plan_symbols hplan).mp hentry
  obtain ⟨node, hholds, hname, _⟩ :=
    hlib.files .symbol (by decide) row (mem_activeRows.mp hrow).1
  have hnode : entryNode (storeOf s workspaceId) (symbolEntry (row, libraryStem s row)) = node :=
    (stored_row hrow hholds hname rfl rfl).2
  rw [hnode]
  exact hpackable.shallow row hrow hpackaged node hholds.storedNode

theorem symbols_build (hlib : Library env EntryShaped s) (hpackable : Packable s workspaceId)
    (h : buildArchive collate metadata s workspaceId = .ok (plan, members))
    (hmem : (symbolMember stem, data) ∈ members) : ∃ text found,
      decode data = some text ∧ Sexpr.entries text = .ok found ∧
      List.Forall₂ (fun entry item => Repointed plan.footprints members
        (entryNode (storeOf s workspaceId) entry) item.2)
        (plan.symbols.filter fun entry => entry.stem = stem) found := by
  have hplan := (buildArchive_ok hlib h).1
  have hentries : ∀ entry ∈ plan.symbols.filter (fun entry => entry.stem = stem),
      Stored (storeOf s workspaceId) entry ∧
        Sexpr.head (entryNode (storeOf s workspaceId) entry) = some Sexpr.symbolRoot ∧
        Sexpr.depth (.node (entryNode (storeOf s workspaceId) entry)) + 1 ≤ Sexpr.maxDepth := by
    intro entry hentry
    have hentry := (List.mem_filter.mp hentry).1
    obtain ⟨hstored, hhead⟩ := stored_symbol hlib hplan hentry
    exact ⟨hstored, hhead, shallow_symbol hlib hpackable hplan hentry⟩
  have hlimit : 2 ≤ Sexpr.maxDepth := by decide
  have hfile := libraryFile_member plan.footprints
    (stem, plan.symbols.filter fun entry => entry.stem = stem) hlimit hentries
  rw [← library_mem hlib h hmem] at hfile
  obtain ⟨text, htext, hfound⟩ := libraryFile_entries hfile
  refine ⟨text, _, htext, hfound, ?_⟩
  rw [List.forall₂_map_right_iff, List.forall₂_same]
  intro entry _
  apply repointed_packagedSymbol
  intro f hf
  rw [paths_build hlib h]
  exact List.mem_cons_of_mem _ (List.mem_append_left _ (List.mem_append_right _
    (List.mem_map_of_mem hf)))

theorem mem_of_hasModel (hlib : Library env EntryShaped s)
    (h : buildArchive collate metadata s workspaceId = .ok (plan, members))
    (hmodel : HasModel s workspaceId name) : modelsDir ++ name ∈ members.map (·.1) := by
  have hplan := (buildArchive_ok hlib h).1
  obtain ⟨hsafe, file, hfile, rfl, hkind⟩ := hmodel
  have hcovers : modelsDir ++ file.name ∈ plan.blobs.map (·.member) := by
    obtain ⟨kind, hsome, hspice⟩ : ∃ kind, file.kind = some kind ∧ kind ≠ .spice := by
      obtain hstep | hwrl := hkind
      · exact ⟨.step, hstep, by decide⟩
      · exact ⟨.wrl, hwrl, by decide⟩
    have hblob : blobEntry file = some ⟨file.name, file.sha256, file.sizeBytes, .data kind, [],
        modelsDir ++ file.name, []⟩ := by
      rw [blobEntry, hsome, Option.map_some, blobMember,
        if_neg fun heq => hspice (StorageKind.data.inj heq)]
    rw [planPackage_ok hplan]
    exact (winners_dedupeMembers _).covers _ (List.mem_mergeSort.mpr (List.mem_filterMap.mpr
      ⟨file, List.mem_filter.mpr ⟨hfile, hsafe⟩, hblob⟩))
  rw [paths_build hlib h]
  exact List.mem_cons_of_mem _ (List.mem_append_right _ hcovers)

theorem mem_of_packagedModel (hlib : Library env EntryShaped s)
    (h : buildArchive collate metadata s workspaceId = .ok (plan, members)) {row : Entry}
    (hname : name ∈ packagedModels collate s workspaceId row) :
    modelsDir ++ name ∈ members.map (·.1) := by
  have hplan := (buildArchive_ok hlib h).1
  have hshipped := of_decide_eq_true (List.mem_filter.mp hname).2
  obtain ⟨blob, hblob, rfl⟩ := List.mem_map.mp hshipped
  obtain ⟨hblob, hkind⟩ := List.mem_filter.mp hblob
  have hmember : blob.member = modelsDir ++ blob.name := by
    have hsource := (winners_dedupeMembers _).mem blob hblob
    rw [List.mem_mergeSort, List.mem_filterMap] at hsource
    obtain ⟨file, _, hfile⟩ := hsource
    rw [blobEntry, Option.map_eq_some_iff] at hfile
    obtain ⟨kind, _, rfl⟩ := hfile
    have hspice : (StorageKind.data kind) ≠ .data .spice := by
      rintro heq
      rw [heq] at hkind
      cases hkind
    dsimp only
    rw [blobMember, if_neg hspice]
  rw [paths_build hlib h, ← hmember]
  apply List.mem_cons_of_mem _ (List.mem_append_right _ _)
  rw [planPackage_ok hplan]
  exact List.mem_map_of_mem hblob

end Build

/-- A path the rewriting gives under the install directory was so spelled, or was the
workspace's own. -/
theorem installedPath_pcm {identifier stored name : Text}
    (h : installedPath identifier stored = some (pcmModelPath identifier name)) :
    stored = pcmModelPath identifier name ∨
      (stored = storedModelPrefix ++ name ∧ isSafeMemberName name = true) := by
  unfold installedPath at h
  split at h
  next => exact Or.inl (Option.some.inj h)
  next rest hrest =>
    split_ifs at h with hsafe
    obtain rfl : rest = name := List.append_cancel_left (Option.some.inj h)
    exact Or.inr ⟨Sexpr.afterPrefix_eq_some.mp hrest, hsafe⟩

theorem count_filterMap_le {l : List Text} {f : Text → Option Text} {a b : Text}
    (h : ∀ x ∈ l, f x = some b → x = a) : (l.filterMap f).count b ≤ l.count a := by
  induction l with
  | nil => exact Nat.le_refl _
  | cons first rest ih =>
    have hrest := ih fun x hx => h x (List.mem_cons_of_mem _ hx)
    rw [List.filterMap_cons, List.count_cons]
    cases hfirst : f first with
    | none =>
      dsimp only
      omega
    | some c =>
      dsimp only
      rw [List.count_cons]
      by_cases hc : c = b
      · rw [h first List.mem_cons_self (hc ▸ hfirst), hc]
        simp only [beq_self_eq_true, if_true]
        omega
      · rw [if_neg (by simpa using hc)]
        omega

theorem exists_repeated {identifier path : Text} {stored : List Text}
    (hspellings : ∀ name, ¬ (storedModelPrefix ++ name ∈ stored ∧
      pcmModelPath identifier name ∈ stored))
    (h : 2 ≤ (stored.filterMap (installedPath identifier)).count path) :
    ∃ p, 2 ≤ stored.count p ∧ installedPath identifier p = some path := by
  have hmem : path ∈ stored.filterMap (installedPath identifier) :=
    List.count_pos_iff.mp (by omega)
  obtain ⟨p, hp, hinstalled⟩ := List.mem_filterMap.mp hmem
  refine ⟨p, h.trans (count_filterMap_le ?_), hinstalled⟩
  intro q hq hq'
  by_cases hown : ∃ name, path = pcmModelPath identifier name
  · obtain ⟨name, rfl⟩ := hown
    obtain rfl | ⟨rfl, _⟩ := installedPath_pcm hinstalled
    · obtain rfl | ⟨rfl, _⟩ := installedPath_pcm hq'
      · rfl
      · exact absurd ⟨hq, hp⟩ (hspellings name)
    · obtain rfl | ⟨rfl, _⟩ := installedPath_pcm hq'
      · exact absurd ⟨hp, hq⟩ (hspellings name)
      · rfl
  · have hsame : ∀ r, installedPath identifier r = some path → r = path := by
      intro r hr
      unfold installedPath at hr
      split at hr
      next => exact Option.some.inj hr
      next rest _ =>
        split_ifs at hr
        exact absurd ⟨rest, (Option.some.inj hr).symm⟩ hown
    rw [hsame p hinstalled, hsame q hq']

section Build

variable {env : Env} {collate : Text → Text → Bool} {metadata : Plan → ByteArray} {s : State}
  {workspaceId : Uuid} {plan : Plan} {members : List (Text × ByteArray)}

theorem models_build (hlib : Library env EntryShaped s) (hpackable : Packable s workspaceId)
    (h : buildArchive collate metadata s workspaceId = .ok (plan, members))
    (hentry : entry ∈ plan.footprints) (hmem : (entry.member, data) ∈ members) :
    ∃ text node, decode data = some text ∧ Sexpr.parse text = .ok node ∧
      (∀ name, pcmModelPath plan.identifier name ∈ Sexpr.modelPaths node →
        modelsDir ++ name ∈ members.map (·.1)) ∧
      ∀ path, 2 ≤ (Sexpr.modelPaths node).count path → ∃ stored,
        2 ≤ (Sexpr.modelPaths (entryNode (storeOf s workspaceId) entry)).count stored ∧
          installedPath plan.identifier stored = some path := by
  obtain ⟨hplan, blobs, hblobs, hmembers⟩ := buildArchive_ok hlib h
  have hfile : footprintFile (storeOf s workspaceId) plan.identifier entry ∈ members := by
    rw [hmembers]
    exact List.mem_cons_of_mem _ (List.mem_append_left _ (List.mem_append_right _
      (List.mem_map_of_mem hentry)))
  have hdata : (entry.member, data) =
      footprintFile (storeOf s workspaceId) plan.identifier entry :=
    List.inj_on_of_nodup_map (distinct_build hlib h) hmem hfile rfl
  have hidentifier : plan.identifier = packageIdentifier workspaceId := by
    rw [planPackage_ok hplan]
  obtain ⟨row, hrow, hpackaged, hrowEntry⟩ := (mem_plan_footprints hplan).mp hentry
  have hmodels : entry.models = packagedModels collate s workspaceId row := by rw [hrowEntry]; rfl
  obtain ⟨node, hholds, hname, _⟩ :=
    hlib.files .footprint (by decide) row (mem_activeRows.mp hrow).1
  have hnode : entryNode (storeOf s workspaceId) entry = node := by
    rw [hrowEntry]
    exact (stored_row hrow hholds hname rfl rfl).2
  refine ⟨Sexpr.emit (packagedFootprint plan.identifier entry.models node),
    packagedFootprint plan.identifier entry.models node, ?_, ?_, ?_, ?_⟩
  · rw [(Prod.mk.inj hdata).2, decode_encode, hnode]
  · exact (stable_packagedFootprint hholds.stable).parse_emit
  · intro name hpath
    obtain ⟨stored, hstoredPath, hinstalled⟩ | ⟨linked, hlinked, heq⟩ :=
      mem_modelPaths_packagedFootprint hpath
    · apply mem_of_hasModel hlib h
      have hcond := hpackable.models row hrow hpackaged node hholds.storedNode name
      obtain rfl | ⟨rfl, hsafe⟩ := installedPath_pcm hinstalled
      · exact hcond.2 (hidentifier ▸ hstoredPath)
      · exact hcond.1 hstoredPath hsafe
    · obtain rfl : name = linked := List.append_cancel_left heq
      exact mem_of_packagedModel hlib h (hmodels ▸ hlinked)
  · intro path hcount
    have hle := count_modelPaths_packagedFootprint plan.identifier entry.models node path
    rw [hnode]
    apply exists_repeated
    · intro name
      rw [hidentifier]
      exact hpackable.spellings row hrow hpackaged node hholds.storedNode name
    · omega

end Build

/-- In every state a run reaches, a package built where the packaged symbols leave a level, the
workspace's own model paths name active models, and none is spelled twice stands on its own. -/
theorem package_wellFormed {env : Env} (hsha : Function.Injective env.sha256) {s : State}
    (hs : s.Fresh) (calls : List (Ctx × Request)) {collate : Text → Text → Bool}
    {metadata : Plan → ByteArray} {workspaceId : Uuid} {plan : Plan}
    {members : List (Text × ByteArray)}
    (hpackable : Packable (Outcome.run (exec env) s calls) workspaceId)
    (h : buildArchive collate metadata (Outcome.run (exec env) s calls) workspaceId =
      .ok (plan, members)) :
    WellFormed (storeOf (Outcome.run (exec env) s calls) workspaceId) plan members := by
  have hlib := entryShaped_of_run hsha hs calls
  have hplan := (buildArchive_ok hlib h).1
  refine ⟨distinct_build hlib h, flat_build hlib h, ?_, fun stem data => symbols_build hlib hpackable h,
    ?_, fun entry hentry data => models_build hlib hpackable h hentry⟩
  · intro entry hentry
    rw [paths_build hlib h]
    exact List.mem_cons_of_mem _ (List.mem_append_left _ (List.mem_append_left _
      (List.mem_map_of_mem ((runs_plan_symbols hplan).covers entry hentry))))
  · intro entry hentry
    rw [paths_build hlib h]
    exact List.mem_cons_of_mem _ (List.mem_append_left _ (List.mem_append_right _
      (List.mem_map_of_mem hentry)))

/-- A 3D model with id 7 and a footprint that names it. -/
def modelCalls : List (Ctx × Request) :=
  [(sampleCtx 7, .uploadDatafile (some "cube.step".toList) "ISO-10303-21;".toUTF8 none),
    (sampleCtx 8, .uploadFootprint "(footprint \"R\" (model \"${STOCKMGR_3D}/cube.step\"))".toUTF8
      none none)]

def modelState : State := Outcome.run (exec sampleEnv) sampleState modelCalls

theorem modelState_packable : Packable modelState 1 := by
  have hsymbols : activeRows modelState 1 .symbol = [] := by
    have hnone : (activeRows modelState 1 .symbol).isEmpty = true := by decide +kernel
    exact List.isEmpty_iff.mp hnone
  have hpaths : ∀ row ∈ activeRows modelState 1 .footprint,
      (storedNode modelState .footprint row).map Sexpr.modelPaths =
        some [storedModelPrefix ++ "cube.step".toList] := by decide +kernel
  have hfile : ∃ file ∈ activeRows modelState 1 .datafile, file.name = "cube.step".toList ∧
      (file.kind = some .step ∨ file.kind = some .wrl) := by decide +kernel
  have hother : ∀ name, pcmModelPath (packageIdentifier 1) name ∉
      [storedModelPrefix ++ "cube.step".toList] := by
    intro name hmem
    have hchar := congrArg (·[2]?) (List.mem_singleton.mp hmem)
    have hpcm : (pcmModelPath (packageIdentifier 1) name)[2]? = some 'K' := rfl
    rw [hpcm] at hchar
    exact absurd hchar (by decide)
  have hread : ∀ row ∈ activeRows modelState 1 .footprint, ∀ node,
      storedNode modelState .footprint row = some node →
        Sexpr.modelPaths node = [storedModelPrefix ++ "cube.step".toList] := by
    intro row hrow node hnode
    have hmapped := hpaths row hrow
    rw [hnode] at hmapped
    exact Option.some.inj hmapped
  refine ⟨?_, ?_, ?_⟩
  · intro row hrow
    rw [hsymbols] at hrow
    cases hrow
  · intro row hrow _ node hnode name
    rw [hread row hrow node hnode]
    refine ⟨fun hmem hsafe => ?_, fun hmem => absurd hmem (hother name)⟩
    obtain rfl := List.append_cancel_left (List.mem_singleton.mp hmem)
    exact ⟨hsafe, hfile⟩
  · intro row hrow _ node hnode name hboth
    rw [hread row hrow node hnode] at hboth
    exact hother name hboth.2

theorem package_wellFormed_sample : ∃ plan,
    buildArchive textLe noMetadata modelState 1 = .ok (plan, sampleMembers modelState) ∧
      plan.footprints.length = 1 ∧
      WellFormed (storeOf modelState 1) plan (sampleMembers modelState) := by
  have hbuilt : ((buildArchive textLe noMetadata modelState 1).toOption.map fun package =>
      package.1.footprints.length) = some 1 := by decide +kernel
  have hsome : (buildArchive textLe noMetadata modelState 1).toOption.isSome = true := by
    rw [← Option.isSome_map, hbuilt]
    rfl
  obtain ⟨plan, hbuild⟩ := exists_package hsome
  refine ⟨plan, hbuild, ?_, package_wellFormed sampleEnv_injective ⟨rfl, rfl, rfl, rfl⟩ modelCalls
    modelState_packable hbuild⟩
  rw [hbuild] at hbuilt
  exact Option.some.inj hbuilt

/-- The model is renamed after the footprint was stored. -/
def renamedModelState : State :=
  Outcome.run (exec sampleEnv) sampleState (modelCalls ++
    [(sampleCtx 9, .patch .datafile 7 ⟨.set ⟨"box.step".toList, by decide⟩, .unset⟩)])

def dangles (plan : Plan) (members : List (Text × ByteArray)) : Prop :=
  ∃ entry ∈ plan.footprints, ∃ m ∈ members, m.1 = entry.member ∧
    ∃ path ∈ (((decode m.2).bind fun text => (Sexpr.parse text).toOption).map
      Sexpr.modelPaths).getD [], ∃ name ∈ Sexpr.afterPrefix (pcmModelDir plan.identifier) path,
        modelsDir ++ name ∉ members.map (·.1)

theorem not_wellFormed_of_dangles {read : ReadFile} {plan : Plan}
    {members : List (Text × ByteArray)} (h : dangles plan members) :
    ¬ WellFormed read plan members := by
  intro hwell
  obtain ⟨entry, hentry, ⟨path, data⟩, hm, rfl, model, hmodel, name, hname, habsent⟩ := h
  obtain ⟨text, node, htext, hnode, hmodels, _⟩ := hwell.models entry hentry data hm
  simp only [htext, hnode, Option.bind_some, Except.toOption, Option.map_some,
    Option.getD_some] at hmodel
  rw [Sexpr.afterPrefix_eq_some.mp hname] at hmodel
  exact habsent (hmodels name hmodel)

/-- The package then holds the file under its new name and the footprint the old path. -/
theorem renamed_model_dangles : ∃ plan,
    buildArchive textLe noMetadata renamedModelState 1 =
        .ok (plan, sampleMembers renamedModelState) ∧
      ¬ WellFormed (storeOf renamedModelState 1) plan (sampleMembers renamedModelState) := by
  have hbuilt : ∃ package ∈ (buildArchive textLe noMetadata renamedModelState 1).toOption,
      dangles package.1 package.2 := by
    unfold dangles
    decide +kernel
  obtain ⟨⟨plan, members⟩, hpackage, hdangles⟩ := hbuilt
  have hbuild : buildArchive textLe noMetadata renamedModelState 1 = .ok (plan, members) := by
    cases hresult : buildArchive textLe noMetadata renamedModelState 1 with
    | error e =>
      rw [hresult] at hpackage
      cases hpackage
    | ok package =>
      rw [hresult] at hpackage
      rw [Option.some.inj hpackage]
  have hmembers : sampleMembers renamedModelState = members := by
    rw [sampleMembers, hbuild]
    rfl
  rw [hmembers]
  exact ⟨plan, hbuild, not_wellFormed_of_dangles hdangles⟩

end StockManager.Eda
