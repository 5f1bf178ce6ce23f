import StockManager.Effects.PackageNodes

/-! # What the members of a package read as -/

namespace StockManager.Sexpr

theorem Reads.line {k : ℕ} {text text' : Text} {members members' : List Item}
    (h : Reads k text members) (h' : Reads k text' members') :
    Reads k (text ++ '\n' :: text') (members ++ members') :=
  h.append (h'.space rfl) (endsAtom_cons rfl text')

theorem reads_bare (k : ℕ) {word : String} (h : needsQuoting word.toList = false) :
    Reads k word.toList [bare word] := by
  have hreads := reads_emitAtom k ⟨word.toList, false⟩
  unfold requotedAtom at hreads
  rw [emitAtom, if_neg (by simp [h]), h] at hreads
  exact hreads

theorem Reads.document_line {k limit : ℕ} {text : Text} {members : List Item}
    (h : Reads k text members) (hk : k + 1 ≤ limit) :
    parseFrom limit ('(' :: (text ++ [')', '\n'])) [] none = .ok members := by
  have hroom : ([] : List Node).length + 1 + k ≤ limit := by
    rw [List.length_nil]
    omega
  have hfits : ([] : List Node).length < limit := by
    rw [List.length_nil]
    omega
  rw [parseFrom_open (fun _ => rfl) hfits,
    h limit [] [] none [')', '\n'] hroom (endsAtom_cons rfl ['\n']),
    List.nil_append, parseFrom_closeRoot, parseFrom_space rfl, parseFrom.eq_def]
  rfl

theorem reads_emitLines {k : ℕ} {nodes : List Node}
    (h : ∀ node ∈ nodes, Stable node ∧ depth (.node node) ≤ k) :
    Reads k (['\n'].intercalate (nodes.map emit)) (nodes.map .node) := by
  have hone : ∀ node ∈ nodes, Reads k (emit node) [Item.node node] := by
    intro node hnode
    obtain ⟨hstable, hdepth⟩ := h node hnode
    have hreads := (reads_render 0 (.node node)).mono hdepth
    rw [requoted_node.mpr hstable.marked] at hreads
    exact hreads
  cases nodes with
  | nil => exact reads_nil k
  | cons first rest =>
    rw [List.map_cons, intercalate_cons, List.map_cons]
    have hsep : isWhitespace '\n' = true := rfl
    have hrest := reads_separated hsep emit Item.node
      fun node hnode => hone node (List.mem_cons_of_mem _ hnode)
    apply (hone first List.mem_cons_self).append hrest
    cases rest with
    | nil => exact fun c hc => by cases hc
    | cons second rest =>
      rw [List.map_cons, List.flatMap_cons, List.append_assoc]
      exact endsAtom_cons rfl _

theorem symbolChildren_map {nodes : List Node}
    (h : ∀ node ∈ nodes, head node = some symbolRoot) :
    symbolChildren (nodes.map Item.node) = nodes := by
  have hall : (nodes.map Item.node).filterMap Item.node? = nodes := by
    rw [List.filterMap_map]
    exact List.filterMap_some
  rw [symbolChildren, hall, List.filter_eq_self]
  intro node hnode
  exact decide_eq_true (h node hnode)

theorem mapM_named {α : Type} {entries : List α} {node : α → Node} {name : α → Text}
    (h : ∀ a ∈ entries, entryName (node a) = .ok (name a)) :
    (entries.map node).mapM named = .ok (entries.map fun a => (name a, node a)) := by
  rw [List.mapM_map]
  apply Outcome.mapM_eq_ok
  intro a ha
  rw [Function.comp_apply, named, h a ha]
  rfl

end StockManager.Sexpr

namespace StockManager.Eda

open Sexpr (Text Node Item Reads bare)

theorem encode_append (a b : Text) : encode (a ++ b) = encode a ++ encode b := by
  rw [encode, String.ofList_append, String.toByteArray_append]
  rfl

theorem foldl_encode (texts : List Text) (start : Text) :
    (texts.map encode).foldl (· ++ ·) (encode start) = encode (start ++ texts.flatten) := by
  induction texts generalizing start with
  | nil => simp
  | cons text rest ih =>
    rw [List.map_cons, List.foldl_cons, ← encode_append, ih, List.flatten_cons,
      List.append_assoc]

def libraryText (entries : List Text) : Text :=
  libraryHeader ++ (['\n'].intercalate entries ++ "\n)\n".toList)

theorem map_intersperse {α β : Type} (f : α → β) (sep : α) (l : List α) :
    (l.map f).intersperse (f sep) = (l.intersperse sep).map f := by
  induction l with
  | nil => rfl
  | cons first rest ih =>
    cases rest with
    | nil => rfl
    | cons second rest =>
      rw [List.map_cons, List.map_cons, List.intersperse_cons_cons, List.intersperse_cons_cons,
        ← List.map_cons, ih]
      rfl

theorem symbolLibrary_encode (entries : List Text) :
    symbolLibrary (entries.map encode) = encode (libraryText entries) := by
  have hstart : ByteArray.empty = encode [] := rfl
  rw [symbolLibrary, map_intersperse, hstart, foldl_encode, List.nil_append, libraryText, encode_append,
    encode_append]
  rfl

def libraryFront : List Item :=
  [bare "kicad_symbol_lib", .node [bare "version", bare "20211014"],
    .node [bare "generator", bare "stockmanager"]]

theorem reads_field (k : ℕ) (name value : String) (hname : Sexpr.needsQuoting name.toList = false)
    (hvalue : Sexpr.needsQuoting value.toList = false) :
    Reads (k + 1) ('(' :: (name.toList ++ ' ' :: value.toList ++ [')']))
      [.node [bare name, bare value]] :=
  ((Sexpr.reads_bare k hname).append ((Sexpr.reads_bare k hvalue).space rfl)
    (Sexpr.endsAtom_cons rfl _)).enclosed

theorem libraryText_eq (entries : List Text) :
    libraryText entries = '(' :: ("kicad_symbol_lib".toList ++
      ' ' :: ("(version 20211014)".toList ++ ' ' :: "(generator stockmanager)".toList) ++
        '\n' :: (['\n'].intercalate entries ++ ['\n']) ++ [')', '\n']) := by
  have hheader : libraryHeader = '(' :: ("kicad_symbol_lib".toList ++
      ' ' :: ("(version 20211014)".toList ++ ' ' :: "(generator stockmanager)".toList) ++
        ['\n']) := by decide
  have hend : "\n)\n".toList = ['\n'] ++ [')', '\n'] := rfl
  rw [libraryText, hheader, hend]
  generalize "kicad_symbol_lib".toList = word
  generalize "(version 20211014)".toList = version
  generalize "(generator stockmanager)".toList = generator
  simp

theorem parseFrom_library {limit : ℕ} {nodes : List Node} (hlimit : 2 ≤ limit)
    (h : ∀ node ∈ nodes, Sexpr.Stable node ∧ Sexpr.depth (.node node) + 1 ≤ limit) :
    Sexpr.parseFrom limit (libraryText (nodes.map Sexpr.emit)) [] none =
      .ok (libraryFront ++ nodes.map Item.node) := by
  obtain ⟨k, rfl⟩ : ∃ k, limit = k + 2 := Nat.exists_eq_add_of_le' hlimit
  have hversion : Reads (k + 1) "(version 20211014)".toList
      [.node [bare "version", bare "20211014"]] :=
    reads_field k "version" "20211014" rfl rfl
  have hgenerator : Reads (k + 1) "(generator stockmanager)".toList
      [.node [bare "generator", bare "stockmanager"]] :=
    reads_field k "generator" "stockmanager" rfl rfl
  have hspace : Sexpr.isWhitespace ' ' = true := rfl
  have hends : ∀ text : Text, Sexpr.EndsAtom (' ' :: text) := Sexpr.endsAtom_cons rfl
  have hword : Reads (k + 1) "kicad_symbol_lib".toList [bare "kicad_symbol_lib"] :=
    Sexpr.reads_bare (k + 1) rfl
  have hfields := hversion.append (hgenerator.space hspace) (hends _)
  have hfront := hword.append (hfields.space hspace) (hends _)
  have hentries : Reads (k + 1) (['\n'].intercalate (nodes.map Sexpr.emit)) (nodes.map .node) :=
    Sexpr.reads_emitLines fun node hnode => ⟨(h node hnode).1, by
      have hle := (h node hnode).2
      omega⟩
  have hall := hfront.line (hentries.line (Sexpr.reads_nil (k + 1)))
  rw [List.append_nil] at hall
  have hread := hall.document_line (Nat.le_refl (k + 2))
  rw [libraryText_eq]
  exact hread

/-- The entries a library file holds, read with a bound on the nesting. -/
def libraryFile (limit : ℕ) (data : ByteArray) : Option (List (Text × Node)) :=
  (decode data).bind fun text =>
    (Sexpr.parseFrom limit text [] none >>= Sexpr.rootEntries).toOption

theorem rootEntries_library {α : Type} {entries : List α} {node : α → Node} {name : α → Text}
    (hhead : ∀ n ∈ entries.map node, Sexpr.head n = some Sexpr.symbolRoot)
    (hname : ∀ a ∈ entries, Sexpr.entryName (node a) = .ok (name a)) :
    Sexpr.rootEntries (libraryFront ++ (entries.map node).map Item.node) =
      .ok (entries.map fun a => (name a, node a)) := by
  have hchildren : Sexpr.symbolChildren
      (libraryFront ++ (entries.map node).map Item.node).tail = entries.map node := by
    have hfront : Sexpr.symbolChildren (libraryFront ++ (entries.map node).map Item.node).tail =
        Sexpr.symbolChildren ((entries.map node).map Item.node) := rfl
    rw [hfront, Sexpr.symbolChildren_map hhead]
  have hroot : Sexpr.head (libraryFront ++ (entries.map node).map Item.node) =
      some Sexpr.symbolLibRoot := rfl
  rw [Sexpr.rootEntries, if_pos hroot, hchildren, Sexpr.mapM_named hname]

end StockManager.Eda

/-! ## What the plan of a package holds and what its members are -/

namespace StockManager.Eda

open Sexpr (Text Node Stable)

variable {entry : StoredEntry} {model : Model}

/-- The node an entry is stored as. -/
def entryNode (read : ReadFile) (entry : StoredEntry) : Node :=
  (((read entry.kind entry.sha256).bind decode).bind fun text =>
    (Sexpr.parse text).toOption).getD []

def storedName (read : ReadFile) (entry : StoredEntry) : Text :=
  (Sexpr.entryName (entryNode read entry)).toOption.getD []

/-- The entry's file is the text of a named node. -/
structure Stored (read : ReadFile) (entry : StoredEntry) : Prop where
  file : read entry.kind entry.sha256 = some (encode (Sexpr.emit (entryNode read entry)))
  stable : Stable (entryNode read entry)
  name : Sexpr.entryName (entryNode read entry) = .ok (storedName read entry)

theorem storedName_eq {read : ReadFile} {name : Text}
    (h : Sexpr.entryName (entryNode read entry) = .ok name) : storedName read entry = name := by
  rw [storedName, h]
  rfl

theorem entryNode_eq {read : ReadFile} {node : Node}
    (hfile : read entry.kind entry.sha256 = some (encode (Sexpr.emit node)))
    (hstable : Stable node) : entryNode read entry = node := by
  rw [entryNode, hfile, Option.bind_some, decode_encode, Option.bind_some, hstable.parse_emit]
  rfl

def libraryMember (read : ReadFile) (footprints : List StoredEntry)
    (library : Text × List StoredEntry) : Text × ByteArray :=
  (symbolMember library.1, encode (libraryText (library.2.map fun entry =>
    Sexpr.emit (packagedSymbol footprints (entryNode read entry)))))

def footprintFile (read : ReadFile) (identifier : Text) (entry : StoredEntry) : Text × ByteArray :=
  (entry.member, encode (Sexpr.emit
    (packagedFootprint identifier entry.models (entryNode read entry))))

section Archive

variable {read : ReadFile} {plan : Plan} {metadata : ByteArray} {members : List (Text × ByteArray)}

theorem writeSymbolLibrary_stored (footprints : List StoredEntry)
    {library : Text × List StoredEntry} (h : ∀ entry ∈ library.2, Stored read entry) :
    writeSymbolLibrary read footprints library = .ok (libraryMember read footprints library) := by
  have htexts : (library.2.mapM fun entry => do
      let raw ← readStored read entry
      symbolForPackage footprints raw) = .ok (library.2.map fun entry =>
        encode (Sexpr.emit (packagedSymbol footprints (entryNode read entry)))) := by
    apply Outcome.mapM_eq_ok
    intro entry hentry
    rw [readStored, (h entry hentry).file]
    exact symbolForPackage_stored footprints (h entry hentry).stable
  rw [writeSymbolLibrary, htexts, libraryMember]
  simp only [bind, Except.bind, pure, Except.pure]
  rw [← symbolLibrary_encode, List.map_map]
  rfl

theorem writeFootprint_stored (identifier : Text) (h : Stored read entry) :
    writeFootprint read identifier entry = .ok (footprintFile read identifier entry) := by
  rw [writeFootprint, readStored, h.file]
  simp only [Outcome.orRaise, bind, Except.bind]
  rw [footprintForPackage_stored identifier entry.models h.stable]
  rfl

theorem libraryFile_member {limit : ℕ} (footprints : List StoredEntry)
    (library : Text × List StoredEntry) (hlimit : 2 ≤ limit)
    (h : ∀ entry ∈ library.2, Stored read entry ∧
      Sexpr.head (entryNode read entry) = some Sexpr.symbolRoot ∧
      Sexpr.depth (.node (entryNode read entry)) + 1 ≤ limit) :
    libraryFile limit (libraryMember read footprints library).2 =
      some (library.2.map fun entry =>
        (storedName read entry, packagedSymbol footprints (entryNode read entry))) := by
  let written := library.2.map fun entry => packagedSymbol footprints (entryNode read entry)
  have hnamed : ∀ node ∈ written, Sexpr.head node = some Sexpr.symbolRoot ∧
      Sexpr.Stable node ∧ Sexpr.depth (.node node) + 1 ≤ limit := by
    intro node hnode
    obtain ⟨entry, hentry, rfl⟩ := List.mem_map.mp hnode
    obtain ⟨hstored, hhead, hdepth⟩ := h entry hentry
    have hle := depth_packagedSymbol_le footprints (entryNode read entry)
    exact ⟨(packagedSymbol_named hhead hstored.name).1, stable_packagedSymbol hstored.stable, by omega⟩
  have hentries : Sexpr.rootEntries (libraryFront ++ written.map Sexpr.Item.node) =
      .ok (library.2.map fun entry =>
        (storedName read entry, packagedSymbol footprints (entryNode read entry))) := by
    apply rootEntries_library fun node hnode => (hnamed node hnode).1
    intro entry hentry
    obtain ⟨hstored, hhead, _⟩ := h entry hentry
    exact (packagedSymbol_named hhead hstored.name).2
  rw [libraryFile, libraryMember, decode_encode, Option.bind_some]
  have htexts : (library.2.map fun entry =>
      Sexpr.emit (packagedSymbol footprints (entryNode read entry))) = written.map Sexpr.emit := by
    rw [List.map_map]
    rfl
  rw [htexts, parseFrom_library hlimit fun node hnode => (hnamed node hnode).2]
  simp only [bind, Except.bind]
  rw [hentries]
  rfl

theorem writeArchive_stored
    (hruns : GroupRuns.Runs (·.stem) plan.symbols (GroupRuns.groupBy (·.stem) plan.symbols))
    (hsymbols : ∀ entry ∈ plan.symbols, Stored read entry)
    (hfootprints : ∀ entry ∈ plan.footprints, Stored read entry)
    (h : writeArchive metadata read plan = .ok members) :
    ∃ blobs : List (Text × ByteArray), blobs.map (·.1) = plan.blobs.map (·.member) ∧
      members = (metadataMember, metadata) ::
        ((GroupRuns.groupBy (·.stem) plan.symbols).map (libraryMember read plan.footprints) ++
          plan.footprints.map (footprintFile read plan.identifier) ++ blobs) := by
  have hlibraries : (GroupRuns.groupBy (·.stem) plan.symbols).mapM
      (writeSymbolLibrary read plan.footprints) =
        .ok ((GroupRuns.groupBy (·.stem) plan.symbols).map
          (libraryMember read plan.footprints)) := by
    apply Outcome.mapM_eq_ok
    intro library hlibrary
    apply writeSymbolLibrary_stored
    intro entry hentry
    rw [hruns.group library hlibrary] at hentry
    exact hsymbols entry (List.mem_filter.mp hentry).1
  have hfiles : plan.footprints.mapM (writeFootprint read plan.identifier) =
      .ok (plan.footprints.map (footprintFile read plan.identifier)) :=
    Outcome.mapM_eq_ok fun entry hentry =>
      writeFootprint_stored plan.identifier (hfootprints entry hentry)
  rw [writeArchive, hlibraries] at h
  simp only [bind, Except.bind] at h
  rw [hfiles] at h
  obtain ⟨blobs, hblobs, hret⟩ := Outcome.bind_ok.mp h
  refine ⟨blobs, ?_, (Outcome.pure_ok.mp hret).symm⟩
  have hcopied := Outcome.mapM_ok hblobs
  generalize plan.blobs = entries at hcopied
  clear hblobs hret h
  induction hcopied with
  | nil => rfl
  | cons hcopy _ ih =>
    rw [copyStored, Outcome.bind_ok] at hcopy
    obtain ⟨raw, _, hret⟩ := hcopy
    rw [List.map_cons, List.map_cons, ih, ← Outcome.pure_ok.mp hret]

end Archive

theorem textLe_refl (a : Text) : textLe a a = true := by
  induction a with
  | nil => rfl
  | cons c a ih => rw [textLe, if_pos rfl, ih]

theorem textLe_total (a b : Text) : textLe a b = true ∨ textLe b a = true := by
  induction a generalizing b with
  | nil => exact Or.inl rfl
  | cons c a ih =>
    cases b with
    | nil => exact Or.inr rfl
    | cons d b =>
      by_cases heq : c = d
      · rw [textLe, textLe, if_pos heq, if_pos heq.symm]
        exact ih b
      · have hne : c.toNat ≠ d.toNat := fun h => heq (Char.toNat_inj.mp h)
        rw [textLe, textLe, if_neg heq, if_neg (Ne.symm heq), decide_eq_true_eq, decide_eq_true_eq]
        omega

theorem textLe_antisymm {a b : Text} (h : textLe a b = true) (h' : textLe b a = true) : a = b := by
  induction a generalizing b with
  | nil =>
    cases b with
    | nil => rfl
    | cons d b => cases h'
  | cons c a ih =>
    cases b with
    | nil => cases h
    | cons d b =>
      rw [textLe] at h h'
      by_cases heq : c = d
      · rw [if_pos heq] at h
        rw [if_pos heq.symm] at h'
        rw [heq, ih h h']
      · rw [if_neg heq, decide_eq_true_eq] at h
        rw [if_neg (Ne.symm heq), decide_eq_true_eq] at h'
        omega

theorem textLe_trans {a b c : Text} (hab : textLe a b = true) (hbc : textLe b c = true) :
    textLe a c = true := by
  induction a generalizing b c with
  | nil => rfl
  | cons x a ih =>
    cases b with
    | nil => cases hab
    | cons y b =>
      cases c with
      | nil => cases hbc
      | cons z c =>
        rw [textLe] at hab hbc ⊢
        by_cases hxy : x = y
        · subst hxy
          rw [if_pos rfl] at hab
          by_cases hxz : x = z
          · rw [if_pos hxz] at hbc ⊢
            exact ih hab hbc
          · rw [if_neg hxz] at hbc ⊢
            exact hbc
        · rw [if_neg hxy] at hab
          by_cases hyz : y = z
          · subst hyz
            rw [if_neg hxy]
            exact hab
          · rw [if_neg hyz] at hbc
            rw [decide_eq_true_eq] at hab hbc
            have hxz : x ≠ z := by
              rintro rfl
              omega
            rw [if_neg hxz, decide_eq_true_eq]
            omega

/-- The file stem of a row. -/
def libraryStem (s : State) (row : Entry) : Text := packageStem (categorySlug s row)

def shippedModels (s : State) (workspaceId : Uuid) : List Text :=
  ((planBlobs s workspaceId).filter fun entry => isModelKind entry.kind).map (·.name)

def packagedModels (collate : Text → Text → Bool) (s : State) (workspaceId : Uuid) (row : Entry) :
    List Text :=
  (linkedModels collate s workspaceId row.id).filter (· ∈ shippedModels s workspaceId)

section Plan

variable {collate : Text → Text → Bool} {s : State} {workspaceId : Uuid} {plan : Plan}

theorem mem_activeRows {row : Entry} : row ∈ activeRows s workspaceId model ↔
    row ∈ s.rows model ∧ row.workspaceId = workspaceId ∧ row.archivedAt = none := by
  simp [activeRows]

theorem planPackage_ok (h : planPackage collate s workspaceId = .ok plan) :
    plan = ⟨workspaceId, packageIdentifier workspaceId,
      (((libraryEntries s workspaceId .symbol).filter isPackaged).map symbolEntry).mergeSort
        byStemAndName,
      (((libraryEntries s workspaceId .footprint).filter isPackaged).map fun row =>
        footprintEntry (packagedModels collate s workspaceId row.1) row).mergeSort byStemAndName,
      planBlobs s workspaceId⟩ := by
  obtain ⟨_, hret⟩ := Outcome.check_bind_ok.mp h
  exact (Outcome.pure_ok.mp hret).symm

theorem mem_libraryEntries {pair : Entry × Text} :
    pair ∈ libraryEntries s workspaceId model ↔
      pair.1 ∈ activeRows s workspaceId model ∧ pair.2 = libraryStem s pair.1 := by
  rw [libraryEntries, List.mem_map]
  constructor
  · rintro ⟨row, hrow, rfl⟩
    exact ⟨hrow, rfl⟩
  · rintro ⟨hrow, hstem⟩
    exact ⟨pair.1, hrow, Prod.ext rfl hstem.symm⟩

/-- The winners are entries, one for each member. -/
structure Winners (entries winners : List StoredEntry) : Prop where
  mem : ∀ entry ∈ winners, entry ∈ entries
  nodup : (winners.map (·.member)).Nodup
  covers : ∀ entry ∈ entries, entry.member ∈ winners.map (·.member)

theorem winners_dedupeMembers (entries : List StoredEntry) :
    Winners entries (dedupeMembers entries) := by
  induction entries using List.reverseRecOn with
  | nil =>
    have hnone : ∀ entry, entry ∉ ([] : List StoredEntry) := fun _ => List.not_mem_nil
    exact ⟨fun e he => absurd he (hnone e), List.nodup_nil, fun e he => absurd he (hnone e)⟩
  | append_singleton before entry ih =>
    have hstep : dedupeMembers (before ++ [entry]) =
        if (dedupeMembers before).any fun winner => winner.member = entry.member then
          dedupeMembers before
        else dedupeMembers before ++ [entry] := List.foldl_append ..
    rw [hstep]
    split_ifs with hany
    · obtain ⟨winner, hwinner, hmember⟩ := List.any_eq_true.mp hany
      refine ⟨fun e he => List.mem_append_left _ (ih.mem e he), ih.nodup, fun e he => ?_⟩
      obtain hbefore | hlast := List.mem_append.mp he
      · exact ih.covers e hbefore
      · obtain rfl := List.mem_singleton.mp hlast
        exact List.mem_map.mpr ⟨winner, hwinner, of_decide_eq_true hmember⟩
    · have hfresh : entry.member ∉ (dedupeMembers before).map (·.member) := by
        intro hmem
        obtain ⟨winner, hwinner, hmember⟩ := List.mem_map.mp hmem
        exact hany (List.any_eq_true.mpr ⟨winner, hwinner, decide_eq_true hmember⟩)
      refine ⟨fun e he => ?_, ?_, fun e he => ?_⟩
      · obtain hbefore | hlast := List.mem_append.mp he
        · exact List.mem_append_left _ (ih.mem e hbefore)
        · exact List.mem_append_right _ hlast
      · rw [List.map_append, List.map_singleton]
        refine List.nodup_append.mpr ⟨ih.nodup, List.nodup_singleton _, ?_⟩
        intro a ha b hb heq
        exact hfresh (List.mem_singleton.mp hb ▸ heq ▸ ha)
      · rw [List.map_append, List.mem_append]
        obtain hbefore | hlast := List.mem_append.mp he
        · exact Or.inl (ih.covers e hbefore)
        · exact Or.inr (List.mem_map_of_mem hlast)

theorem mem_plan_symbols (h : planPackage collate s workspaceId = .ok plan) :
    entry ∈ plan.symbols ↔ ∃ row ∈ activeRows s workspaceId .symbol,
      isPackaged (row, libraryStem s row) = true ∧ entry = symbolEntry (row, libraryStem s row) := by
  rw [planPackage_ok h, List.mem_mergeSort, List.mem_map]
  constructor
  · rintro ⟨⟨row, stem⟩, hmem, rfl⟩
    obtain ⟨hmem, hpackaged⟩ := List.mem_filter.mp hmem
    obtain ⟨hrow, hstem⟩ := mem_libraryEntries.mp hmem
    obtain rfl : stem = libraryStem s row := hstem
    exact ⟨row, hrow, hpackaged, rfl⟩
  · rintro ⟨row, hrow, hpackaged, rfl⟩
    exact ⟨_, List.mem_filter.mpr ⟨mem_libraryEntries.mpr ⟨hrow, rfl⟩, hpackaged⟩, rfl⟩

theorem mem_plan_footprints (h : planPackage collate s workspaceId = .ok plan)
    :
    entry ∈ plan.footprints ↔ ∃ row ∈ activeRows s workspaceId .footprint,
      isPackaged (row, libraryStem s row) = true ∧
        entry = footprintEntry (packagedModels collate s workspaceId row)
          (row, libraryStem s row) := by
  rw [planPackage_ok h, List.mem_mergeSort, List.mem_map]
  constructor
  · rintro ⟨⟨row, stem⟩, hmem, rfl⟩
    obtain ⟨hmem, hpackaged⟩ := List.mem_filter.mp hmem
    obtain ⟨hrow, hstem⟩ := mem_libraryEntries.mp hmem
    obtain rfl : stem = libraryStem s row := hstem
    exact ⟨row, hrow, hpackaged, rfl⟩
  · rintro ⟨row, hrow, hpackaged, rfl⟩
    exact ⟨_, List.mem_filter.mpr ⟨mem_libraryEntries.mpr ⟨hrow, rfl⟩, hpackaged⟩, rfl⟩

theorem byStemAndName_iff {a b : StoredEntry} : byStemAndName a b = true ↔
    textLe a.stem b.stem = true ∧ (a.stem = b.stem → textLe a.name b.name = true) := by
  rw [byStemAndName, decide_eq_true_eq]

theorem byStemAndName_trans (a b c : StoredEntry) (hab : byStemAndName a b = true)
    (hbc : byStemAndName b c = true) : byStemAndName a c = true := by
  rw [byStemAndName_iff] at hab hbc ⊢
  refine ⟨textLe_trans hab.1 hbc.1, fun heq => ?_⟩
  -- stems between two equal ones are equal
  have hmiddle : a.stem = b.stem := textLe_antisymm hab.1 (heq ▸ hbc.1)
  exact textLe_trans (hab.2 hmiddle) (hbc.2 (hmiddle.symm.trans heq))

theorem byStemAndName_total (a b : StoredEntry) :
    (byStemAndName a b || byStemAndName b a) = true := by
  rw [Bool.or_eq_true, byStemAndName_iff, byStemAndName_iff]
  by_cases heq : a.stem = b.stem
  · have hself := textLe_refl b.stem
    rw [heq]
    exact (textLe_total a.name b.name).imp (fun h => ⟨hself, fun _ => h⟩) fun h => ⟨hself, fun _ => h⟩
  · exact (textLe_total a.stem b.stem).imp (fun h => ⟨h, fun hstem => absurd hstem heq⟩)
      fun h => ⟨h, fun hstem => absurd hstem.symm heq⟩

theorem runs_plan_symbols (h : planPackage collate s workspaceId = .ok plan) :
    GroupRuns.Runs (·.stem) plan.symbols (GroupRuns.groupBy (·.stem) plan.symbols) := by
  have hanti : ∀ a b : Text, textLe a b = true → textLe b a = true → a = b :=
    fun _ _ => textLe_antisymm
  apply GroupRuns.runs_groupBy hanti
  rw [planPackage_ok h]
  exact (List.pairwise_mergeSort byStemAndName_trans byStemAndName_total _).imp
    fun hab => (byStemAndName_iff.mp hab).1

end Plan

def EntryShaped (model : Model) (_ : Text) (node : Node) : Prop :=
  (∃ name, Sexpr.entryName node = .ok name) ∧ Headed model node

/-- The files of a workspace. -/
def storeOf (s : State) (workspaceId : Uuid) : ReadFile :=
  fun kind sha256 => s.files.read (workspaceId, kind) sha256

section Package

variable {env : Env} {P : Model → Text → Node → Prop} {collate : Text → Text → Bool}
  {metadata : Plan → ByteArray} {s : State} {workspaceId : Uuid} {plan : Plan}
  {members : List (Text × ByteArray)}

theorem stored_row {row : Entry} {node : Node}
    (hrow : row ∈ activeRows s workspaceId model) (hholds : Holds s model row node)
    (hname : ∃ name, Sexpr.entryName node = .ok name) (hkind : entry.kind = model.entryKind)
    (hentry : entry.sha256 = row.sha256) :
    Stored (storeOf s workspaceId) entry ∧ entryNode (storeOf s workspaceId) entry = node := by
  have hfile : storeOf s workspaceId entry.kind entry.sha256 =
      some (encode (Sexpr.emit node)) := by
    rw [storeOf, hkind, hentry, ← (mem_activeRows.mp hrow).2.1]
    exact hholds.file
  have hnode := entryNode_eq hfile hholds.stable
  obtain ⟨name, hname⟩ := hname
  rw [← hnode] at hname
  refine ⟨⟨?_, ?_, ?_⟩, hnode⟩
  · rw [hnode]
    exact hfile
  · rw [hnode]
    exact hholds.stable
  · rw [hname, storedName_eq hname]

theorem stored_symbol (hlib : Library env EntryShaped s)
    (hplan : planPackage collate s workspaceId = .ok plan)
    (hentry : entry ∈ plan.symbols) : Stored (storeOf s workspaceId) entry ∧
      Sexpr.head (entryNode (storeOf s workspaceId) entry) = some Sexpr.symbolRoot := by
  obtain ⟨row, hrow, _, rfl⟩ := (mem_plan_symbols hplan).mp hentry
  obtain ⟨node, hholds, hname, root, hhead, hroot⟩ :=
    hlib.files .symbol (by decide) row (mem_activeRows.mp hrow).1
  obtain ⟨hstored, hnode⟩ : Stored (storeOf s workspaceId) (symbolEntry (row, libraryStem s row)) ∧
      entryNode (storeOf s workspaceId) (symbolEntry (row, libraryStem s row)) = node :=
    stored_row hrow hholds hname rfl rfl
  rw [hnode, hhead, hroot rfl]
  exact ⟨hstored, rfl⟩

theorem stored_footprint (hlib : Library env EntryShaped s)
    (hplan : planPackage collate s workspaceId = .ok plan)
    (hentry : entry ∈ plan.footprints) : Stored (storeOf s workspaceId) entry ∧
      ∃ root, Sexpr.head (entryNode (storeOf s workspaceId) entry) = some root := by
  obtain ⟨row, hrow, _, rfl⟩ := (mem_plan_footprints hplan).mp hentry
  obtain ⟨node, hholds, hname, root, hhead, _⟩ :=
    hlib.files .footprint (by decide) row (mem_activeRows.mp hrow).1
  generalize hentry : footprintEntry (packagedModels collate s workspaceId row)
    (row, libraryStem s row) = entry
  obtain ⟨hstored, hnode⟩ : Stored (storeOf s workspaceId) entry ∧
      entryNode (storeOf s workspaceId) entry = node := by
    subst hentry
    exact stored_row hrow hholds hname rfl rfl
  rw [hnode]
  exact ⟨hstored, root, hhead⟩

theorem nodup_names (hlib : Library env P s) (hmodel : model ≠ .datafile) :
    ((activeRows s workspaceId model).map (·.name)).Nodup := by
  have hrows : (activeRows s workspaceId model).Nodup := (hlib.ids model).of_map.filter _
  apply hrows.map_on
  intro r hr r' hr' hname
  obtain ⟨hmem, hws, hactive⟩ := mem_activeRows.mp hr
  obtain ⟨hmem', hws', hactive'⟩ := mem_activeRows.mp hr'
  exact hlib.names model r hmem r' hmem' hactive hactive' (hws.trans hws'.symm) hname
    fun h => absurd h hmodel

theorem nodup_packaged (hlib : Library env P s)
    (hmodel : model ≠ .datafile) {entryOf : Entry × Text → StoredEntry}
    (hname : ∀ row, (entryOf row).name = row.1.name) :
    ((((libraryEntries s workspaceId model).filter isPackaged).map entryOf).mergeSort
      byStemAndName).map (·.name) |>.Nodup := by
  have hperm := (List.mergeSort_perm (((libraryEntries s workspaceId model).filter
    isPackaged).map entryOf) byStemAndName).map (·.name)
  rw [hperm.nodup_iff, List.map_map]
  have hnames : (·.name) ∘ entryOf = fun row : Entry × Text => row.1.name :=
    funext fun row => hname row
  rw [hnames]
  refine List.Nodup.sublist (List.filter_sublist.map _) ?_
  rw [libraryEntries, List.map_map]
  exact nodup_names hlib hmodel

theorem nodup_plan_symbols (hlib : Library env P s)
    (hplan : planPackage collate s workspaceId = .ok plan) :
    (plan.symbols.map (·.name)).Nodup := by
  rw [planPackage_ok hplan]
  exact nodup_packaged hlib (by decide) fun _ => rfl

theorem nodup_plan_footprints (hlib : Library env P s)
    (hplan : planPackage collate s workspaceId = .ok plan) :
    (plan.footprints.map (·.name)).Nodup := by
  rw [planPackage_ok hplan]
  exact nodup_packaged hlib (by decide) fun _ => rfl

/-- A package holds its metadata, a library for each stem, the footprints and the blobs. -/
theorem buildArchive_ok (hlib : Library env EntryShaped s)
    (h : buildArchive collate metadata s workspaceId = .ok (plan, members)) :
    planPackage collate s workspaceId = .ok plan ∧
      ∃ blobs : List (Text × ByteArray), blobs.map (·.1) = plan.blobs.map (·.member) ∧
        members = (metadataMember, metadata plan) ::
          ((GroupRuns.groupBy (·.stem) plan.symbols).map
              (libraryMember (storeOf s workspaceId) plan.footprints) ++
            plan.footprints.map (footprintFile (storeOf s workspaceId) plan.identifier) ++
              blobs) := by
  obtain ⟨plan', hplan, h⟩ := Outcome.bind_ok.mp h
  obtain ⟨members', hmembers, hret⟩ := Outcome.bind_ok.mp h
  obtain ⟨rfl, rfl⟩ := Prod.mk.inj (Outcome.pure_ok.mp hret)
  exact ⟨hplan, writeArchive_stored (runs_plan_symbols hplan)
    (fun entry hentry => (stored_symbol hlib hplan hentry).1)
    (fun entry hentry => (stored_footprint hlib hplan hentry).1) hmembers⟩

end Package

end StockManager.Eda
