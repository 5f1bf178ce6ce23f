import StockManager.Effects.EdaSteps

/-! # What every chain of steps keeps of the EDA library -/

namespace StockManager.Eda

open Sexpr (Text Node Stable)

variable {model : Model} {s t : State} {row : Entry}

theorem decode_encode (text : Text) : decode (encode text) = some text := by
  simp [decode, encode, List.utf8Decode?_utf8Encode]

theorem universalNewlines_eq_self {text : Text} (h : '\r' ∉ text) :
    universalNewlines text = text := by
  induction text with
  | nil => rfl
  | cons c rest ih =>
    have hc : c ≠ '\r' := fun heq => h (heq ▸ List.mem_cons_self)
    have hrest := ih fun hmem => h (List.mem_cons_of_mem _ hmem)
    rw [universalNewlines.eq_def]
    split
    next heq => cases heq
    next heq => exact absurd (List.cons.inj heq).1 hc
    next heq => exact absurd (List.cons.inj heq).1 hc
    next c' rest' _ _ heq =>
      obtain ⟨rfl, rfl⟩ := List.cons.inj heq
      rw [hrest]

/-- The row's file is the text of the node. -/
structure Holds (s : State) (model : Model) (row : Entry) (node : Node) : Prop where
  file : s.files.read (row.workspaceId, model.entryKind) row.sha256 =
    some (encode (Sexpr.emit node))
  stable : Stable node

/-- What `sexpr.parse` reads from the row's file. -/
def storedNode (s : State) (model : Model) (row : Entry) : Option Node :=
  ((s.files.read (row.workspaceId, model.entryKind) row.sha256).bind decode).bind fun text =>
    (Sexpr.parse text).toOption

theorem Holds.storedNode {node : Node}
    (h : Holds s model row node) : storedNode s model row = some node := by
  rw [Eda.storedNode, h.file, Option.bind_some, decode_encode, Option.bind_some,
    h.stable.parse_emit]
  rfl

theorem Holds.mono {row row' : Entry} {node : Node}
    (h : Holds s model row node) (hfiles : s.files.Kept t.files)
    (hplace : row'.workspaceId = row.workspaceId ∧ row'.sha256 = row.sha256) :
    Holds t model row' node := by
  refine ⟨?_, h.stable⟩
  rw [hplace.1, hplace.2]
  exact hfiles _ _ _ h.file

/-- A property of names and nodes that a new entry has and that renaming keeps. -/
structure RowLaw (offers : Model → Text → Node → Prop) (agree : Prop)
    (P : Model → Text → Node → Prop) : Prop where
  filed : ∀ {model name offeredName offered node}, offers model offeredName offered →
    Sexpr.entryName offered = .ok offeredName →
    Headed model offered →
    (node = offered ∨ Sexpr.rename offered name = .ok node) →
    (agree → Sexpr.entryName node = .ok name) → P model name node
  renamed : ∀ {model name newName node renamed}, P model name node →
    Sexpr.rename node newName = .ok renamed → P model newName renamed

/-- The library's tables and files. -/
structure Library (env : Env) (P : Model → Text → Node → Prop) (s : State) : Prop where
  addressed : s.files.Addressed env.sha256
  ids : ∀ model, ((s.rows model).map (·.id)).Nodup
  names : ∀ model, ∀ r ∈ s.rows model, ∀ r' ∈ s.rows model, r.archivedAt = none →
    r'.archivedAt = none → r.workspaceId = r'.workspaceId → r.name = r'.name →
    (model = .datafile → r.kind = r'.kind) → r = r'
  kinds : ∀ r ∈ s.datafiles, r.kind.isSome = true
  files : ∀ model ≠ .datafile, ∀ r ∈ s.rows model, ∃ node, Holds s model r node ∧ P model r.name node

theorem Library.imp {env : Env} {P Q : Model → Text → Node → Prop}
    (h : Library env P s) (hPQ : ∀ model name node, P model name node → Q model name node) :
    Library env Q s where
  addressed := h.addressed
  ids := h.ids
  names := h.names
  kinds := h.kinds
  files model hmodel r hr := by
    obtain ⟨node, hholds, hP⟩ := h.files model hmodel r hr
    exact ⟨node, hholds, hPQ model r.name node hP⟩

theorem Library.eq_of_id {env : Env} {P : Model → Text → Node → Prop}
    (h : Library env P s) {r r' : Entry} (hr : r ∈ s.rows model)
    (hr' : r' ∈ s.rows model) (hid : r.id = r'.id) : r = r' :=
  List.inj_on_of_nodup_map (h.ids model) hr hr' hid

theorem mem_updateRow {row r : Entry} (h : r ∈ (s.updateRow model row).rows model) :
    (r = row ∧ ∃ old ∈ s.rows model, old.id = row.id) ∨ (r ∈ s.rows model ∧ r.id ≠ row.id) := by
  rw [State.rows_updateRow] at h
  obtain ⟨old, hold, rfl⟩ := List.mem_map.mp h
  by_cases hid : old.id = row.id
  · rw [if_pos hid]
    exact Or.inl ⟨rfl, old, hold, hid⟩
  · rw [if_neg hid]
    exact Or.inr ⟨hold, hid⟩

theorem ids_updateRow (s : State) (model : Model) (row : Entry) :
    ((s.updateRow model row).rows model).map (·.id) = (s.rows model).map (·.id) := by
  rw [State.rows_updateRow, List.map_map]
  apply List.map_congr_left
  intro r _
  by_cases hid : r.id = row.id
  · simp [hid]
  · simp [hid]

theorem activeByName_eq_none {workspaceId : Uuid} {name : Text}
    {kind : Option DatafileKind} {excludeId : Option Uuid}
    (h : activeByName s workspaceId model name kind excludeId = none) {r : Entry}
    (hr : r ∈ s.rows model) (hws : r.workspaceId = workspaceId) (hactive : r.archivedAt = none)
    (hname : r.name = name) (hkind : model = .datafile → r.kind = kind) : some r.id = excludeId := by
  rw [activeByName, List.find?_eq_none] at h
  have hno := h r hr
  simp only [decide_eq_true_eq] at hno
  by_contra hid
  exact hno ⟨hws, hactive, hname, hkind, hid⟩

section Steps

variable {env : Env} {workspaceId : Uuid} {offers : Model → Text → Node → Prop} {agree : Prop}
  {P : Model → Text → Node → Prop} {s : State}

theorem Library.store (h : Library env P s) (workspaceId : Uuid) (kind : StorageKind) (data : ByteArray) :
    Library env P (s.store env workspaceId kind data) where
  addressed := h.addressed.write _ _
  ids model := by simpa using h.ids model
  names model r hr r' hr' := by
    rw [State.rows_store] at hr hr'
    exact h.names model r hr r' hr'
  kinds := h.kinds
  files model hmodel r hr := by
    rw [State.rows_store] at hr
    obtain ⟨node, hholds, hP⟩ := h.files model hmodel r hr
    exact ⟨node, hholds.mono (ContentStore.kept_write _ _) ⟨rfl, rfl⟩, hP⟩

theorem Library.relink (h : Library env P s) (links : List FootprintModel) :
    Library env P { s with links := links } where
  addressed := h.addressed
  ids model := by
    rw [State.rows_links]
    exact h.ids model
  names model := by
    rw [State.rows_links]
    exact h.names model
  kinds := h.kinds
  files model hmodel r hr := by
    rw [State.rows_links] at hr
    obtain ⟨node, hholds, hP⟩ := h.files model hmodel r hr
    exact ⟨node, hholds.mono (ContentStore.Kept.refl _) ⟨rfl, rfl⟩, hP⟩

theorem Library.insert (h : Library env P s) (hfresh : ∀ r ∈ s.rows model, r.id ≠ row.id)
    (hfree : activeByName s row.workspaceId model row.name row.kind none = none)
    (hkind : model = .datafile → row.kind.isSome = true)
    (hfile : model ≠ .datafile → ∃ node, Holds s model row node ∧ P model row.name node) :
    Library env P (s.setRows model (s.rows model ++ [row])) := by
  have hmem : ∀ other r, r ∈ (s.setRows model (s.rows model ++ [row])).rows other →
      r ∈ s.rows other ∨ (other = model ∧ r = row) := by
    intro other r hr
    by_cases heq : other = model
    · subst heq
      rw [State.rows_setRows, List.mem_append, List.mem_singleton] at hr
      exact hr.imp_right fun hrow => ⟨rfl, hrow⟩
    · rw [State.rows_setRows_of_ne _ heq] at hr
      exact Or.inl hr
  have hfiles : s.files.Kept (s.setRows model (s.rows model ++ [row])).files := by
    rw [State.files_setRows]
    exact ContentStore.Kept.refl _
  refine ⟨?_, ?_, ?_, ?_, ?_⟩
  · rw [State.files_setRows]
    exact h.addressed
  · intro other
    by_cases heq : other = model
    · subst heq
      rw [State.rows_setRows, List.map_append, List.map_singleton]
      refine List.nodup_append.mpr ⟨h.ids other, List.nodup_singleton _, ?_⟩
      intro id hid id' hid' heq
      obtain ⟨r, hr, rfl⟩ := List.mem_map.mp hid
      exact hfresh r hr (heq.trans (List.mem_singleton.mp hid'))
    · rw [State.rows_setRows_of_ne _ heq]
      exact h.ids other
  · intro other r hr r' hr' hactive hactive' hws hname hkinds
    obtain hold | ⟨rfl, rfl⟩ := hmem other r hr
    · obtain hold' | ⟨rfl, rfl⟩ := hmem other r' hr'
      · exact h.names other r hold r' hold' hactive hactive' hws hname hkinds
      · cases activeByName_eq_none hfree hold hws hactive hname hkinds
    · obtain hold' | ⟨_, rfl⟩ := hmem other r' hr'
      · cases activeByName_eq_none hfree hold' hws.symm hactive' hname.symm fun h => (hkinds h).symm
      · rfl
  · intro r hr
    obtain hr | ⟨hmodel, rfl⟩ := hmem .datafile r hr
    · exact h.kinds r hr
    · exact hkind hmodel.symm
  · intro other hother r hr
    obtain hr | ⟨rfl, rfl⟩ := hmem other r hr
    · obtain ⟨node, hholds, hP⟩ := h.files other hother r hr
      exact ⟨node, hholds.mono hfiles ⟨rfl, rfl⟩, hP⟩
    · obtain ⟨node, hholds, hP⟩ := hfile hother
      exact ⟨node, hholds.mono hfiles ⟨rfl, rfl⟩, hP⟩

/-- A row is replaced: it keeps its id, its workspace and its kind, its name is free where it
is active, and its file is there. -/
theorem Library.update (h : Library env P s) {row row' : Entry}
    (hrow : row ∈ s.rows model) (hid : row'.id = row.id)
    (hkind : row'.kind = row.kind)
    (hfree : row'.archivedAt = none →
      activeByName s row'.workspaceId model row'.name row'.kind (some row'.id) = none)
    (hfile : model ≠ .datafile → ∃ node, Holds s model row' node ∧ P model row'.name node) :
    Library env P (s.updateRow model row') := by
  have hother : ∀ {other}, other ≠ model → (s.updateRow model row').rows other = s.rows other :=
    fun hne => s.rows_updateRow_of_ne hne row'
  have hfiles : s.files.Kept (s.updateRow model row').files := by
    rw [State.files_updateRow]
    exact ContentStore.Kept.refl _
  refine ⟨?_, ?_, ?_, ?_, ?_⟩
  · rw [State.files_updateRow]
    exact h.addressed
  · intro other
    by_cases heq : other = model
    · subst heq
      rw [ids_updateRow]
      exact h.ids other
    · rw [hother heq]
      exact h.ids other
  · intro other r hr r' hr' hactive hactive' hws hname hkinds
    by_cases heq : other = model
    · subst heq
      obtain ⟨rfl, _⟩ | ⟨hold, hne⟩ := mem_updateRow hr
      · obtain ⟨rfl, _⟩ | ⟨hold', hne'⟩ := mem_updateRow hr'
        · rfl
        · have hsame := activeByName_eq_none (hfree hactive) hold' hws.symm hactive' hname.symm
            fun h => (hkinds h).symm
          exact absurd (Option.some.inj hsame) hne'
      · obtain ⟨rfl, _⟩ | ⟨hold', hne'⟩ := mem_updateRow hr'
        · have hsame := activeByName_eq_none (hfree hactive') hold hws hactive hname hkinds
          exact absurd (Option.some.inj hsame) hne
        · exact h.names other r hold r' hold' hactive hactive' hws hname hkinds
    · rw [hother heq] at hr hr'
      exact h.names other r hr r' hr' hactive hactive' hws hname hkinds
  · intro r hr
    by_cases heq : Model.datafile = model
    · subst heq
      have hr : r ∈ (s.updateRow .datafile row').rows .datafile := hr
      obtain ⟨rfl, _⟩ | ⟨hr, _⟩ := mem_updateRow hr
      · rw [hkind]
        exact h.kinds row hrow
      · exact h.kinds r hr
    · exact h.kinds r (hother heq ▸ hr : r ∈ s.rows .datafile)
  · intro other hne r hr
    by_cases heq : other = model
    · subst heq
      obtain ⟨rfl, _⟩ | ⟨hr, _⟩ := mem_updateRow hr
      · obtain ⟨node, hholds, hP⟩ := hfile hne
        exact ⟨node, hholds.mono hfiles ⟨rfl, rfl⟩, hP⟩
      · obtain ⟨node, hholds, hP⟩ := h.files other hne r hr
        exact ⟨node, hholds.mono hfiles ⟨rfl, rfl⟩, hP⟩
    · rw [hother heq] at hr
      obtain ⟨node, hholds, hP⟩ := h.files other hne r hr
      exact ⟨node, hholds.mono hfiles ⟨rfl, rfl⟩, hP⟩

theorem Library.step (hsha : Function.Injective env.sha256)
    (hlaw : RowLaw offers agree P) (h : Library env P s)
    (hstep : Step env workspaceId offers agree s t) : Library env P t := by
  cases hstep with
  | wrote kind data => exact h.store workspaceId kind data
  | relinked links => exact h.relink links
  | inserted model row kind data hfresh hfree hfiled =>
    have hstored := h.store workspaceId kind data
    have hswap : (s.setRows model (s.rows model ++ [row])).store env workspaceId kind data =
        (s.store env workspaceId kind data).setRows model
          ((s.store env workspaceId kind data).rows model ++ [row]) := by
      cases model <;> rfl
    rw [hswap]
    refine hstored.insert ?_ ?_ ?_ ?_
    · rw [State.rows_store]
      exact hfresh
    · rw [hfiled.workspace]
      unfold activeByName at hfree ⊢
      rw [State.rows_store]
      exact hfree
    · intro hmodel
      have hkind := hfiled.datafile hmodel
      cases hrow : row.kind with
      | none =>
        rw [hrow] at hkind
        cases hkind
      | some k => rfl
    · intro hmodel
      obtain ⟨rfl, name, offered, node, hoffers, hnamed, hhead, hnode, hname, hstable, rfl⟩ :=
        hfiled.entry hmodel
      refine ⟨node, ⟨?_, hstable⟩, hlaw.filed hoffers hnamed hhead hnode hname⟩
      rw [hfiled.workspace, hfiled.digest]
      exact ContentStore.read_write hsha h.addressed _ _
  | refiled model row row' hmem hsame hname hfree hworkspace =>
    refine h.update hmem hsame.1 hsame.2.2.2 ?_ ?_
    · intro hactive
      rw [hsame.2.1, hworkspace]
      exact hfree hactive hworkspace
    · intro hmodel
      obtain ⟨node, hholds, hP⟩ := h.files model hmodel row hmem
      refine ⟨node, hholds.mono (ContentStore.Kept.refl _) ⟨hsame.2.1, hsame.2.2.1⟩, ?_⟩
      rw [hname hmodel]
      exact hP
  | renamed model row row' text node renamed hmodel hmem hsame hfree hworkspace hread hparse
      hrename hdigest =>
    obtain ⟨held, hholds, hP⟩ := h.files model hmodel row hmem
    -- the node that is renamed is the one the row's file holds
    have hnode : node = held := by
      have hfile := hholds.file
      rw [hworkspace] at hfile
      rw [hfile, Option.bind_some, decode_encode] at hread
      obtain rfl := Option.some.inj hread
      rw [universalNewlines_eq_self (Sexpr.return_notMem_emit held), hholds.stable.parse_emit]
        at hparse
      exact (Except.ok.inj hparse).symm
    subst hnode
    have hstored := h.store workspaceId model.entryKind
      (encode (Sexpr.emit renamed))
    have hmem' : row ∈ (s.store env workspaceId model.entryKind
        (encode (Sexpr.emit renamed))).rows model := by
      rw [State.rows_store]
      exact hmem
    refine hstored.update hmem' hsame.1 hsame.2.2 ?_ ?_
    · intro hactive
      have havailable := hfree hactive hworkspace
      unfold activeByName at havailable ⊢
      rw [State.rows_store, hsame.2.1, hworkspace]
      exact havailable
    · intro _
      refine ⟨renamed, ⟨?_, hholds.stable.rename hrename⟩, hlaw.renamed hP hrename⟩
      rw [hsame.2.1, hworkspace, hdigest]
      exact ContentStore.read_write hsha h.addressed _ _

/-- Every chain of steps keeps the tables and the files of the library. -/
theorem Library.steps (hsha : Function.Injective env.sha256)
    (hlaw : RowLaw offers agree P) (h : Library env P s)
    (hsteps : Steps env workspaceId offers agree s t) : Library env P t := by
  induction hsteps with
  | refl => exact h
  | tail _ hstep ih => exact ih.step hsha hlaw hstep

end Steps

end StockManager.Eda
