import StockManager.Effects.SexprNames
import StockManager.Model.EdaImport

/-! # What a request does to the EDA library

Every request is a chain of steps: a blob is written, a row is inserted with its file, a row
is refiled or renamed, the links change. -/

namespace StockManager.Eda

open Sexpr (Text Node Stable)

variable {s t : State} {model : Model} {categoryId : Option Uuid} {name : Text} {env : Env}
  {row : Entry × Bool} {result after : ImportResult} {entryId : Uuid} {ctx : Ctx}
  {kind : Option DatafileKind} {data contents : ByteArray} {entry' : Entry}
  {stored : Option (Entry × Bool)}
variable {footprintId datafileId : Uuid} {node : Node} {footprint : Entry} {models : ModelsByStem}

/-- The node has a head, a symbol's that of a symbol. -/
def Headed (model : Model) (node : Node) : Prop :=
  ∃ root, Sexpr.head node = some root ∧ (model = .symbol → root = Sexpr.symbolRoot)

theorem Headed.of_head {node renamed : Node} (h : Headed model node)
    (hhead : Sexpr.head renamed = Sexpr.head node) : Headed model renamed := by
  rw [Headed, hhead]
  exact h

/-- A new row and its file. `offers` lists the entries the request brings, each a named node;
`agree` is what makes the stored name the row's. -/
structure Filed (env : Env) (workspaceId : Uuid) (offers : Model → Text → Node → Prop)
    (agree : Prop) (model : Model) (row : Entry) (kind : StorageKind) (data : ByteArray) :
    Prop where
  workspace : row.workspaceId = workspaceId
  active : row.archivedAt = none
  digest : row.sha256 = env.sha256 data
  datafile : model = .datafile → row.kind.map StorageKind.data = some kind
  entry : model ≠ .datafile → kind = model.entryKind ∧ ∃ name offered node,
    offers model name offered ∧ Sexpr.entryName offered = .ok name ∧
    Headed model offered ∧
    (node = offered ∨ Sexpr.rename offered row.name = .ok node) ∧
    (agree → Sexpr.entryName node = .ok row.name) ∧
    Stable node ∧ data = encode (Sexpr.emit node)

inductive Step (env : Env) (workspaceId : Uuid) (offers : Model → Text → Node → Prop)
    (agree : Prop) (s : State) : State → Prop
  | wrote (kind : StorageKind) (data : ByteArray) :
      Step env workspaceId offers agree s (s.store env workspaceId kind data)
  | inserted (model : Model) (row : Entry) (kind : StorageKind) (data : ByteArray)
      (hfresh : ∀ r ∈ s.rows model, r.id ≠ row.id)
      (hfree : activeByName s workspaceId model row.name row.kind none = none)
      (hfiled : Filed env workspaceId offers agree model row kind data) :
      Step env workspaceId offers agree s
        ((s.setRows model (s.rows model ++ [row])).store env workspaceId kind data)
  | refiled (model : Model) (row row' : Entry) (hmem : row ∈ s.rows model)
      (hsame : row'.id = row.id ∧ row'.workspaceId = row.workspaceId ∧
        row'.sha256 = row.sha256 ∧ row'.kind = row.kind)
      (hname : model ≠ .datafile → row'.name = row.name)
      (hfree : row'.archivedAt = none → row.workspaceId = workspaceId →
        activeByName s workspaceId model row'.name row'.kind (some row'.id) = none)
      (hworkspace : row.workspaceId = workspaceId) :
      Step env workspaceId offers agree s (s.updateRow model row')
  | renamed (model : Model) (row row' : Entry) (text : Text) (node renamed : Node)
      (hmodel : model ≠ .datafile) (hmem : row ∈ s.rows model)
      (hsame : row'.id = row.id ∧ row'.workspaceId = row.workspaceId ∧ row'.kind = row.kind)
      (hfree : row'.archivedAt = none → row.workspaceId = workspaceId →
        activeByName s workspaceId model row'.name row'.kind (some row'.id) = none)
      (hworkspace : row.workspaceId = workspaceId)
      (hread : (s.files.read (workspaceId, model.entryKind) row.sha256).bind decode = some text)
      (hparse : Sexpr.parse (universalNewlines text) = .ok node)
      (hrename : Sexpr.rename node row'.name = .ok renamed)
      (hdigest : row'.sha256 = env.sha256 (encode (Sexpr.emit renamed))) :
      Step env workspaceId offers agree s ((s.store env workspaceId model.entryKind
        (encode (Sexpr.emit renamed))).updateRow model row')
  | relinked (links : List FootprintModel) :
      Step env workspaceId offers agree s { s with links := links }

abbrev Steps (env : Env) (workspaceId : Uuid) (offers : Model → Text → Node → Prop)
    (agree : Prop) : State → State → Prop :=
  Relation.ReflTransGen (Step env workspaceId offers agree)

@[simp] theorem State.rows_setRows (s : State) (model : Model) (rows : List Entry) :
    (s.setRows model rows).rows model = rows := by
  cases model <;> rfl

theorem State.rows_setRows_of_ne (s : State) {model other : Model} (h : other ≠ model)
    (rows : List Entry) : (s.setRows model rows).rows other = s.rows other := by
  cases model <;> cases other <;> first | rfl | exact absurd rfl h

@[simp] theorem State.files_setRows (s : State) (model : Model) (rows : List Entry) :
    (s.setRows model rows).files = s.files := by
  cases model <;> rfl

@[simp] theorem State.rows_store (env : Env) (s : State) (workspaceId : Uuid) (kind : StorageKind)
    (data : ByteArray) (model : Model) :
    (s.store env workspaceId kind data).rows model = s.rows model := by
  cases model <;> rfl

@[simp] theorem State.rows_links (s : State) (links : List FootprintModel) (model : Model) :
    ({ s with links := links } : State).rows model = s.rows model := by
  cases model <;> rfl

@[simp] theorem State.files_updateRow (s : State) (model : Model) (row : Entry) :
    (s.updateRow model row).files = s.files := State.files_setRows ..

theorem State.rows_updateRow (s : State) (model : Model) (row : Entry) :
    (s.updateRow model row).rows model =
      (s.rows model).map fun r => if r.id = row.id then row else r := State.rows_setRows ..

theorem State.rows_updateRow_of_ne (s : State) {model other : Model} (h : other ≠ model)
    (row : Entry) : (s.updateRow model row).rows other = s.rows other :=
  s.rows_setRows_of_ne h _

theorem State.updateRow_updateRow (env : Env) (s : State) (model : Model) {row row' : Entry}
    (hid : row'.id = row.id) (workspaceId : Uuid) (kind : StorageKind) (data : ByteArray) :
    ((s.updateRow model row).store env workspaceId kind data).updateRow model row' =
      (s.store env workspaceId kind data).updateRow model row' := by
  have hrows : ((s.rows model).map fun r => if r.id = row.id then row else r).map
      (fun r => if r.id = row'.id then row' else r) =
      (s.rows model).map fun r => if r.id = row'.id then row' else r := by
    rw [List.map_map]
    apply List.map_congr_left
    intro r _
    by_cases h : r.id = row.id
    · simp [h, hid]
    · simp [h, hid]
  cases model
  all_goals
    simp only [State.updateRow, State.setRows, State.store, State.rows] at hrows ⊢
    rw [hrows]

theorem uploadEntry_ok {name sha256 : Text} {sizeBytes : ℕ}
    (h : uploadEntry ctx model name sha256 sizeBytes kind categoryId s = .ok (row, t)) :
    assertCategory ctx s categoryId true = .ok () ∧
    ((t = s ∧ activeByName s ctx.workspaceId model name kind none = some row.1) ∨
      (activeByName s ctx.workspaceId model name kind none = none ∧
        row.1 = newEntry ctx model name sha256 sizeBytes kind categoryId ∧
        (∀ r ∈ s.rows model, r.id ≠ row.1.id) ∧
        t = s.setRows model (s.rows model ++ [row.1]))) := by
  rw [uploadEntry, Outcome.bind_ok] at h
  obtain ⟨_, hcategory, h⟩ := h
  refine ⟨hcategory, ?_⟩
  split at h
  next existing hexisting =>
    split at h
    next =>
      obtain ⟨rfl, rfl⟩ := Prod.mk.inj (Except.ok.inj h)
      exact Or.inl ⟨rfl, hexisting⟩
    next => cases h
  next hfree =>
    obtain ⟨s', hinsert, hret⟩ := Outcome.bind_ok.mp h
    obtain ⟨rfl, rfl⟩ := Prod.mk.inj (Outcome.pure_ok.mp hret)
    rw [State.insertEntry, Outcome.check_bind_ok, Outcome.check_bind_ok, Outcome.pure_ok] at hinsert
    obtain ⟨hfresh, _, rfl⟩ := hinsert
    exact Or.inr ⟨hfree, rfl, hfresh, rfl⟩

section Uploads

variable {env : Env} {ctx : Ctx} {offers : Model → Text → Node → Prop} {agree : Prop}
  {model : Model} {name : Text} {kind : Option DatafileKind} {storageKind : StorageKind}
  {categoryId : Option Uuid} {data : ByteArray} {s t : State} {row : Entry × Bool}

theorem steps_of_uploadEntry
    (h : uploadEntry ctx model name (env.sha256 data) data.size kind categoryId s = .ok (row, t))
    (hkind : model ≠ .datafile → kind = none)
    (hfiled : activeByName s ctx.workspaceId model name kind none = none →
      Filed env ctx.workspaceId offers agree model
        (newEntry ctx model name (env.sha256 data) data.size kind categoryId) storageKind data) :
    Steps env ctx.workspaceId offers agree s
      (t.store env ctx.workspaceId storageKind data) := by
  obtain ⟨_, ⟨rfl, _⟩ | ⟨hfree, hrow, hfresh, rfl⟩⟩ := uploadEntry_ok h
  · exact .single (.wrote storageKind data)
  · have hrowKind : row.1.kind = kind := by
      rw [hrow]
      by_cases hmodel : model = .datafile
      · simp [newEntry, hmodel]
      · simp [newEntry, hmodel, hkind hmodel]
    refine .single (.inserted model row.1 storageKind data hfresh ?_ (hrow ▸ hfiled hfree))
    rw [hrowKind, hrow]
    exact hfree

theorem filed_newEntry (hmodel : model ≠ .datafile) {offeredName : Text} {offered node : Node}
    (hoffers : offers model offeredName offered)
    (hnamed : Sexpr.entryName offered = .ok offeredName)
    (hhead : Headed model offered)
    (hnode : node = offered ∨ Sexpr.rename offered name = .ok node)
    (hagree : agree → Sexpr.entryName node = .ok name) (hstable : Stable node)
    (hdata : data = encode (Sexpr.emit node)) :
    Filed env ctx.workspaceId offers agree model
      (newEntry ctx model name (env.sha256 data) data.size none categoryId) model.entryKind data where
  workspace := rfl
  active := rfl
  digest := rfl
  datafile h := absurd h hmodel
  entry _ := ⟨rfl, offeredName, offered, node, hoffers, hnamed, hhead, hnode, hagree, hstable, hdata⟩

theorem filed_newDatafile (kind : DatafileKind) :
    Filed env ctx.workspaceId offers agree .datafile
      (newEntry ctx .datafile name (env.sha256 data) data.size (some kind) categoryId)
      (.data kind) data where
  workspace := rfl
  active := rfl
  digest := rfl
  datafile _ := rfl
  entry h := absurd rfl h

end Uploads

theorem canonicalEntryBytes_ok {kind : StorageKind}
    (h : canonicalEntryBytes env node kind name = .ok data) :
    data = encode (Sexpr.emit node) ∧ name.length ≤ nameMax := by
  rw [canonicalEntryBytes, Outcome.check_bind_ok] at h
  obtain ⟨hname, h⟩ := h
  obtain ⟨_, hret⟩ := Outcome.check_bind_ok.mp h
  exact ⟨(Outcome.pure_ok.mp hret).symm, hname⟩

theorem canonicalSymbol_ok {raw data : ByteArray} (h : canonicalSymbol env raw = .ok (name, data)) :
    ∃ text node, decode raw = some text ∧ Sexpr.entries text = .ok [(name, node)] ∧
      data = encode (Sexpr.emit node) ∧ name ≠ [] := by
  rw [canonicalSymbol, Outcome.bind_ok] at h
  obtain ⟨text, htext, h⟩ := h
  obtain ⟨found, hfound, h⟩ := Outcome.bind_ok.mp h
  rw [Outcome.mapError_ok] at hfound
  rw [decodeText, Outcome.check_bind_ok, Outcome.orRaise_ok] at htext
  match found, h with
  | [(name', node)], h =>
    obtain ⟨hne, h⟩ := Outcome.check_bind_ok.mp h
    obtain ⟨data', hdata, hret⟩ := Outcome.bind_ok.mp h
    obtain ⟨rfl, rfl⟩ := Prod.mk.inj (Outcome.pure_ok.mp hret)
    exact ⟨text, node, htext.2, hfound, (canonicalEntryBytes_ok hdata).1, hne⟩

theorem canonicalFootprint_ok {raw data : ByteArray}
    (h : canonicalFootprint env raw = .ok (name, data)) :
    ∃ text node, decode raw = some text ∧ Sexpr.parse text = .ok node ∧
      Headed .footprint node ∧ Sexpr.entryName node = .ok name ∧
      data = encode (Sexpr.emit node) := by
  rw [canonicalFootprint, Outcome.bind_ok] at h
  obtain ⟨text, htext, h⟩ := h
  obtain ⟨node, hnode, h⟩ := Outcome.bind_ok.mp h
  rw [Outcome.mapError_ok] at hnode
  rw [decodeText, Outcome.check_bind_ok, Outcome.orRaise_ok] at htext
  obtain ⟨⟨root, hhead, _⟩, h⟩ := Outcome.check_bind_ok.mp h
  obtain ⟨name', hname, h⟩ := Outcome.bind_ok.mp h
  rw [Outcome.mapError_ok] at hname
  obtain ⟨_, h⟩ := Outcome.check_bind_ok.mp h
  obtain ⟨data', hdata, hret⟩ := Outcome.bind_ok.mp h
  obtain ⟨rfl, rfl⟩ := Prod.mk.inj (Outcome.pure_ok.mp hret)
  exact ⟨text, node, htext.2, hnode, ⟨root, hhead, fun h => by cases h⟩, hname,
    (canonicalEntryBytes_ok hdata).1⟩

/-- The named entries a request brings. -/
def Offers : Request → Model → Text → Node → Prop
  | .uploadSymbol contents _ _, model, name, node => model = .symbol ∧
      ∃ text, decode contents = some text ∧ Sexpr.entries text = .ok [(name, node)]
  | .uploadFootprint contents _ _, model, name, node => model = .footprint ∧
      ∃ text, decode contents = some text ∧ Sexpr.parse text = .ok node ∧
        Sexpr.entryName node = .ok name
  | .importPlan plan _, model, name, node =>
      (model = .symbol ∧ ∃ p ∈ plan.symbols, p.val.name = name ∧ p.val.node = node) ∨
      (model = .footprint ∧ ∃ p ∈ plan.footprints, p.val.name = name)
  | _, _, _, _ => False

/-- An upload gets past the checks that come before the row is inserted. -/
structure Creates (env : Env) (ctx : Ctx) (model : Model) (contents : ByteArray) (name : Text)
    (categoryId : Option Uuid) (s : State) : Prop where
  read : readUpload env contents model.entryKind = .ok contents
  category : assertCategory ctx s categoryId true = .ok ()
  free : activeByName s ctx.workspaceId model name none none = none

/-- An upload that creates a row does it under the name in the file. -/
def NameAgrees (env : Env) (call : Ctx × Request) (s : State) : Prop :=
  match call.2 with
  | .uploadSymbol contents name categoryId => ∀ parsed data,
      canonicalSymbol env contents = .ok (parsed, data) →
      Creates env call.1 .symbol contents (nameOr name parsed) categoryId s →
      nameOr name parsed = parsed
  | .uploadFootprint contents name categoryId => ∀ parsed data,
      canonicalFootprint env contents = .ok (parsed, data) →
      Creates env call.1 .footprint contents (nameOr name parsed) categoryId s →
      nameOr name parsed = parsed
  | _ => True

theorem readUpload_ok {contents contents' : ByteArray} {kind : StorageKind}
    (h : readUpload env contents kind = .ok contents') : contents' = contents := by
  rw [readUpload, Outcome.check_bind_ok, Outcome.check_bind_ok, Outcome.pure_ok] at h
  exact h.2.2.symm

theorem uploadSymbol_steps {name : Option FormName}
    (h : uploadSymbol env ctx contents name categoryId s = .ok (row, t)) :
    Steps env ctx.workspaceId (Offers (.uploadSymbol contents name categoryId))
      (NameAgrees env (ctx, .uploadSymbol contents name categoryId) s) s t := by
  rw [uploadSymbol, Outcome.bind_ok] at h
  obtain ⟨contents', hread, h⟩ := h
  obtain rfl := readUpload_ok hread
  obtain ⟨⟨parsed, data⟩, hcanonical, h⟩ := Outcome.bind_ok.mp h
  obtain ⟨⟨row', s'⟩, hupload, hret⟩ := Outcome.bind_ok.mp h
  obtain ⟨rfl, rfl⟩ := Prod.mk.inj (Outcome.pure_ok.mp hret)
  obtain ⟨text, node, htext, hentries, hdata, _⟩ := canonicalSymbol_ok hcanonical
  obtain ⟨hnamed, hhead, hstable⟩ := Sexpr.entries_mem hentries List.mem_cons_self
  apply steps_of_uploadEntry hupload fun _ => rfl
  intro hfree
  refine filed_newEntry (by decide) ⟨rfl, text, htext, hentries⟩ hnamed ⟨_, hhead, fun _ => rfl⟩
    (Or.inl rfl) ?_ hstable hdata
  intro hagree
  have hname := hagree parsed data hcanonical ⟨hread, (uploadEntry_ok hupload).1, hfree⟩
  rw [hname]
  exact hnamed

theorem uploadFootprint_steps {name : Option FormName}
    (h : uploadFootprint env ctx contents name categoryId s = .ok (row, t)) :
    Steps env ctx.workspaceId (Offers (.uploadFootprint contents name categoryId))
      (NameAgrees env (ctx, .uploadFootprint contents name categoryId) s) s t := by
  rw [uploadFootprint, Outcome.bind_ok] at h
  obtain ⟨contents', hread, h⟩ := h
  obtain rfl := readUpload_ok hread
  obtain ⟨⟨parsed, data⟩, hcanonical, h⟩ := Outcome.bind_ok.mp h
  obtain ⟨⟨row', s'⟩, hupload, hret⟩ := Outcome.bind_ok.mp h
  obtain ⟨rfl, rfl⟩ := Prod.mk.inj (Outcome.pure_ok.mp hret)
  obtain ⟨text, node, htext, hparse, hhead, hnamed, hdata⟩ := canonicalFootprint_ok hcanonical
  apply steps_of_uploadEntry hupload fun _ => rfl
  intro hfree
  refine filed_newEntry (by decide) ⟨rfl, text, htext, hparse, hnamed⟩ hnamed
    hhead (Or.inl rfl) ?_ (Sexpr.stable_of_parse hparse) hdata
  intro hagree
  have hname := hagree parsed data hcanonical ⟨hread, (uploadEntry_ok hupload).1, hfree⟩
  rw [hname]
  exact hnamed

section Rows

variable {env : Env} {ctx : Ctx} {offers : Model → Text → Node → Prop} {agree : Prop}

theorem uploadDatafile_steps {filename : Option Text} {name : Option FormName}
    (h : uploadDatafile env ctx filename contents name s = .ok (row, t)) :
    Steps env ctx.workspaceId offers agree s t := by
  rw [uploadDatafile, Outcome.bind_ok] at h
  obtain ⟨kind, _, h⟩ := h
  obtain ⟨contents', _, h⟩ := Outcome.bind_ok.mp h
  obtain ⟨data, _, h⟩ := Outcome.bind_ok.mp h
  obtain ⟨⟨row', s'⟩, hupload, hret⟩ := Outcome.bind_ok.mp h
  obtain ⟨rfl, rfl⟩ := Prod.mk.inj (Outcome.pure_ok.mp hret)
  exact steps_of_uploadEntry hupload (fun hmodel => absurd rfl hmodel)
    fun _ => filed_newDatafile kind

theorem getEntry_ok {entry : Entry} (h : getEntry ctx s model entryId = .ok entry) :
    entry ∈ s.rows model ∧ entry.id = entryId ∧ entry.workspaceId = ctx.workspaceId := by
  rw [getEntry, Outcome.orRaise_ok] at h
  have hfound := List.find?_some h
  simp only [decide_eq_true_eq] at hfound
  exact ⟨List.mem_of_find?_eq_some h, hfound⟩

theorem assertNameAvailable_ok {workspaceId : Uuid} {excludeId : Option Uuid} :
    assertNameAvailable s workspaceId model name kind excludeId = .ok () ↔
      activeByName s workspaceId model name kind excludeId = none := by
  unfold assertNameAvailable
  split
  next h => simp [h]
  next clash h => simp [h]

theorem rewriteStoredEntryName_ok {entry entry' : Entry}
    (h : rewriteStoredEntryName env entry model s = .ok (entry', t)) :
    ∃ text node renamed,
      (s.files.read (entry.workspaceId, model.entryKind) entry.sha256).bind decode = some text ∧
      Sexpr.parse (universalNewlines text) = .ok node ∧
      Sexpr.rename node entry.name = .ok renamed ∧
      entry' = { entry with sha256 := env.sha256 (encode (Sexpr.emit renamed)),
                            sizeBytes := (encode (Sexpr.emit renamed)).size } ∧
      t = (s.store env entry.workspaceId model.entryKind
        (encode (Sexpr.emit renamed))).updateRow model entry' := by
  rw [rewriteStoredEntryName, Outcome.bind_ok] at h
  obtain ⟨raw, hraw, h⟩ := h
  obtain ⟨text, htext, h⟩ := Outcome.bind_ok.mp h
  obtain ⟨node, hnode, h⟩ := Outcome.bind_ok.mp h
  obtain ⟨renamed, hrenamed, hret⟩ := Outcome.bind_ok.mp h
  rw [Outcome.orRaise_ok] at hraw htext
  rw [Outcome.mapError_ok] at hnode hrenamed
  obtain ⟨rfl, rfl⟩ := Prod.mk.inj (Outcome.pure_ok.mp hret)
  refine ⟨text, node, renamed, ?_, hnode, hrenamed, rfl, rfl⟩
  rw [hraw]
  exact htext

theorem updateEntry_steps {payload : EntryPatch}
    (h : updateEntry env ctx model entryId payload s = .ok (entry', t)) :
    Steps env ctx.workspaceId offers agree s t := by
  rw [updateEntry, Outcome.bind_ok] at h
  obtain ⟨entry, hget, h⟩ := h
  obtain ⟨hmem, _, hworkspace⟩ := getEntry_ok hget
  obtain ⟨_, h⟩ := Outcome.check_bind_ok.mp h
  obtain ⟨_, _, h⟩ := Outcome.bind_ok.mp h
  generalize hname : (payload.name.get.map Subtype.val).getD entry.name = name at h
  generalize payload.categoryId.nullable entry.categoryId = categoryId at h
  obtain ⟨hfree, h⟩ : (entry.archivedAt = none →
      activeByName s ctx.workspaceId model name entry.kind (some entry.id) = none) ∧
      (if name ≠ entry.name ∧ model ≠ .datafile then
        rewriteStoredEntryName env { entry with name := name, categoryId := categoryId } model
          (s.updateRow model { entry with name := name, categoryId := categoryId })
      else pure ({ entry with name := name, categoryId := categoryId },
        s.updateRow model { entry with name := name, categoryId := categoryId })) =
        .ok (entry', t) := by
    by_cases harchived : entry.archivedAt = none
    · rw [if_pos harchived] at h
      obtain ⟨_, havailable, h⟩ := Outcome.bind_ok.mp h
      exact ⟨fun _ => assertNameAvailable_ok.mp havailable, h⟩
    · rw [if_neg harchived] at h
      exact ⟨fun hnone => absurd hnone harchived, h⟩
  split at h
  next hrename =>
    obtain ⟨text, node, renamed, hread, hparse, hrenamed, heq, rfl⟩ := rewriteStoredEntryName_ok h
    have hid : entry'.id = entry.id := by rw [heq]
    rw [State.files_updateRow] at hread
    have htarget := State.updateRow_updateRow env s model
      (show entry'.id = ({ entry with name := name, categoryId := categoryId } : Entry).id from hid)
      entry.workspaceId model.entryKind (encode (Sexpr.emit renamed))
    refine .single (htarget.symm ▸ hworkspace.symm ▸ ?_)
    rw [hworkspace] at hread
    refine Step.renamed model entry entry' text node renamed hrename.2 hmem ?_ ?_ hworkspace
      hread hparse ?_ ?_
    · rw [heq]
      exact ⟨rfl, rfl, rfl⟩
    · rw [heq]
      exact fun hnone _ => hfree hnone
    · rw [heq]
      exact hrenamed
    · rw [heq]
  next hsame =>
    obtain ⟨rfl, rfl⟩ := Prod.mk.inj (Outcome.pure_ok.mp h)
    refine .single (.refiled model entry _ hmem ⟨rfl, rfl, rfl, rfl⟩ ?_
      (fun hnone _ => hfree hnone) hworkspace)
    intro hmodel
    exact not_not.mp fun hne => hsame ⟨hne, hmodel⟩

theorem archiveEntry_steps (h : archiveEntry ctx model entryId s = .ok (entry', t)) :
    Steps env ctx.workspaceId offers agree s t := by
  rw [archiveEntry, Outcome.bind_ok] at h
  obtain ⟨entry, hget, h⟩ := h
  obtain ⟨hmem, _, hworkspace⟩ := getEntry_ok hget
  split at h
  next =>
    obtain ⟨rfl, rfl⟩ := Prod.mk.inj (Outcome.pure_ok.mp h)
    exact .single (.refiled model entry _ hmem ⟨rfl, rfl, rfl, rfl⟩ (fun _ => rfl)
      (fun hnone => by cases hnone) hworkspace)
  next =>
    obtain ⟨_, rfl⟩ := Prod.mk.inj (Outcome.pure_ok.mp h)
    exact .refl

theorem restoreEntry_steps (h : restoreEntry ctx model entryId s = .ok (entry', t)) :
    Steps env ctx.workspaceId offers agree s t := by
  rw [restoreEntry, Outcome.bind_ok] at h
  obtain ⟨entry, hget, h⟩ := h
  obtain ⟨hmem, _, hworkspace⟩ := getEntry_ok hget
  split at h
  next =>
    obtain ⟨_, rfl⟩ := Prod.mk.inj (Outcome.pure_ok.mp h)
    exact .refl
  next =>
    obtain ⟨_, havailable, hret⟩ := Outcome.bind_ok.mp h
    obtain ⟨rfl, rfl⟩ := Prod.mk.inj (Outcome.pure_ok.mp hret)
    exact .single (.refiled model entry _ hmem ⟨rfl, rfl, rfl, rfl⟩ (fun _ => rfl)
      (fun _ _ => assertNameAvailable_ok.mp havailable) hworkspace)

theorem linkFootprintModel_steps {position : ℕ}
    (h : linkFootprintModel ctx footprintId datafileId position s = .ok (footprint, t)) :
    Steps env ctx.workspaceId offers agree s t := by
  rw [linkFootprintModel, Outcome.bind_ok] at h
  obtain ⟨_, _, h⟩ := h
  obtain ⟨_, _, h⟩ := Outcome.bind_ok.mp h
  obtain ⟨_, h⟩ := Outcome.check_bind_ok.mp h
  obtain ⟨_, rfl⟩ := Prod.mk.inj (Outcome.pure_ok.mp h)
  exact .single (.relinked _)

theorem unlinkFootprintModel_steps
    (h : unlinkFootprintModel ctx footprintId datafileId s = .ok (footprint, t)) :
    Steps env ctx.workspaceId offers agree s t := by
  rw [unlinkFootprintModel, Outcome.bind_ok] at h
  obtain ⟨_, _, h⟩ := h
  obtain ⟨_, rfl⟩ := Prod.mk.inj (Outcome.pure_ok.mp h)
  exact .single (.relinked _)

theorem rendered_ok {result : Except EdaError ByteArray}
    (h : rendered result = .ok (some data)) : result = .ok data := by
  unfold rendered at h
  split at h
  next => rw [Option.some.inj (Except.ok.inj h)]
  next => cases h
  next => cases h

theorem storeCandidates_ok {render : Text → Except EdaError ByteArray}
    {insert : Text → ByteArray → State → Except EdaError ((Entry × Bool) × State)}
    {later : List Text}
    (h : storeCandidates render insert name later s = .ok (stored, t)) :
    (stored = none ∧ t = s) ∨ ∃ candidate ∈ name :: later, ∃ data row,
      render candidate = .ok data ∧ stored = some row ∧ insert candidate data s = .ok (row, t) := by
  induction later generalizing name with
  | nil =>
    rw [storeCandidates, Outcome.bind_ok] at h
    obtain ⟨data, hdata, h⟩ := h
    cases data with
    | none =>
      obtain ⟨rfl, rfl⟩ := Prod.mk.inj (Except.ok.inj h)
      exact Or.inl ⟨rfl, rfl⟩
    | some data =>
      dsimp only at h
      cases hinsert : insert name data s with
      | error e =>
        rw [hinsert] at h
        cases h
      | ok result =>
        rw [hinsert] at h
        obtain ⟨rfl, rfl⟩ := Prod.mk.inj (Except.ok.inj h)
        exact Or.inr ⟨name, List.mem_cons_self, data, result.1, rendered_ok hdata, rfl, hinsert⟩
  | cons next later ih =>
    rw [storeCandidates, Outcome.bind_ok] at h
    obtain ⟨data, hdata, h⟩ := h
    cases data with
    | none =>
      obtain ⟨rfl, rfl⟩ := Prod.mk.inj (Except.ok.inj h)
      exact Or.inl ⟨rfl, rfl⟩
    | some data =>
      dsimp only at h
      cases hinsert : insert name data s with
      | error e =>
        rw [hinsert] at h
        dsimp only at h
        split at h
        next =>
          obtain hnone | ⟨candidate, hmem, hcandidate⟩ := ih h
          · exact Or.inl hnone
          · exact Or.inr ⟨candidate, List.mem_cons_of_mem _ hmem, hcandidate⟩
        next => cases h
      | ok result =>
        rw [hinsert] at h
        obtain ⟨rfl, rfl⟩ := Prod.mk.inj (Except.ok.inj h)
        exact Or.inr ⟨name, List.mem_cons_self, data, result.1, rendered_ok hdata, rfl, hinsert⟩

theorem insertEntry_ok {storageKind : StorageKind}
    (h : insertEntry env ctx model storageKind kind categoryId name data s = .ok (row, t)) :
    ∃ middle, uploadEntry ctx model name (env.sha256 data) data.size kind categoryId s =
      .ok (row, middle) ∧ t = middle.store env ctx.workspaceId storageKind data := by
  rw [insertEntry, Outcome.bind_ok] at h
  obtain ⟨⟨row', middle⟩, hupload, hret⟩ := h
  obtain ⟨rfl, rfl⟩ := Prod.mk.inj (Outcome.pure_ok.mp hret)
  exact ⟨middle, hupload, rfl⟩

theorem importEntry_steps (hmodel : model ≠ .datafile) (hoffers : offers model name node)
    (hnamed : Sexpr.entryName node = .ok name) (hstable : Stable node)
    (hhead : Headed model node)
    (h : importEntry env ctx model categoryId name node s = .ok (stored, t)) :
    Steps env ctx.workspaceId offers agree s t := by
  obtain ⟨_, rfl⟩ | ⟨candidate, _, data, row, hrender, _, hinsert⟩ := storeCandidates_ok h
  · exact .refl
  · obtain ⟨middle, hupload, rfl⟩ := insertEntry_ok hinsert
    apply steps_of_uploadEntry hupload fun _ => rfl
    intro _
    by_cases hsame : candidate = name
    · rw [if_pos hsame] at hrender
      have hbytes := (canonicalEntryBytes_ok hrender).1
      exact filed_newEntry hmodel hoffers hnamed hhead (Or.inl rfl)
        (fun _ => hsame ▸ hnamed) hstable hbytes
    · rw [if_neg hsame] at hrender
      obtain ⟨renamed, hrenamed, hdata⟩ := Outcome.bind_ok.mp hrender
      rw [Outcome.mapError_ok] at hrenamed
      have hbytes := (canonicalEntryBytes_ok hdata).1
      exact filed_newEntry hmodel hoffers hnamed hhead (Or.inr hrenamed)
        (fun _ => Sexpr.entryName_rename hrenamed) (hstable.rename hrenamed) hbytes

theorem importDatafile_steps {pending : PendingDatafile}
    (h : importDatafile env ctx pending s = .ok (stored, t)) :
    Steps env ctx.workspaceId offers agree s t := by
  obtain ⟨_, rfl⟩ | ⟨candidate, _, data, row, _, _, hinsert⟩ := storeCandidates_ok h
  · exact .refl
  · obtain ⟨middle, hupload, rfl⟩ := insertEntry_ok hinsert
    exact steps_of_uploadEntry hupload (fun hmodel => absurd rfl hmodel)
      fun _ => filed_newDatafile pending.kind

theorem importDatafiles_steps {pending : List PendingDatafile} {models models' : ModelsByStem}
    (h : importDatafiles env ctx pending result models s = .ok (after, models', t)) :
    Steps env ctx.workspaceId offers agree s t := by
  induction pending generalizing ctx result models s with
  | nil =>
    rw [importDatafiles] at h
    obtain ⟨_, h⟩ := Prod.mk.inj (Except.ok.inj h)
    exact (Prod.mk.inj h).2 ▸ .refl
  | cons first rest ih =>
    rw [importDatafiles, Outcome.bind_ok] at h
    obtain ⟨⟨stored, middle⟩, hstored, h⟩ := h
    have hfirst : Steps env (ctx.child 0).workspaceId offers agree s middle :=
      importDatafile_steps hstored
    have hrest : Steps env (ctx.child 1).workspaceId offers agree middle t := by
      cases stored with
      | none => exact ih h
      | some stored => exact ih h
    exact hfirst.trans hrest

theorem linkModels_steps {models : List CreatedRow}
    (h : linkModels ctx footprintId models s = .ok t) :
    Steps env ctx.workspaceId offers agree s t := by
  refine Outcome.foldlM_ok_induction (P := fun m => Steps env ctx.workspaceId offers agree s m)
    ?_ .refl h
  intro linked _ middle later hmiddle hlater
  obtain ⟨⟨footprint, later'⟩, hlink, hret⟩ := Outcome.bind_ok.mp hlater
  obtain rfl := Outcome.pure_ok.mp hret
  exact hmiddle.trans (linkFootprintModel_steps hlink)

theorem stable_pending (pending : PendingEntry) : Stable pending.node := by
  obtain ⟨text, root, hparse, rfl | hmem⟩ := pending.parsed
  · exact Sexpr.stable_of_parse hparse
  · exact (Sexpr.stable_of_parse hparse).child hmem

/-- Pointing the 3D models at the store keeps the name, the head and the stability of the
footprint. -/
theorem rewriteModels_node (env : Env) (models : ModelsByStem) (pending : PendingFootprint) :
    Sexpr.entryName (rewriteModels env pending.val.node models).node = .ok pending.val.name ∧
      Stable (rewriteModels env pending.val.node models).node ∧
      Headed .footprint (rewriteModels env pending.val.node models).node := by
  obtain ⟨root, hhead, _⟩ := pending.property
  have hother : Model.footprint = .symbol → root = Sexpr.symbolRoot := fun h => by cases h
  unfold rewriteModels
  dsimp only
  split
  next => exact ⟨pending.val.named, stable_pending pending.val, root, hhead, hother⟩
  next =>
    exact ⟨(Sexpr.rewriteModelPaths_named _ hhead pending.val.named).2,
      (stable_pending pending.val).rewriteModelPaths _, root,
      (Sexpr.rewriteModelPaths_named _ hhead pending.val.named).1, hother⟩

theorem importFootprint_steps {pending : PendingFootprint}
    (hoffers : ∀ node, offers .footprint pending.val.name node)
    (h : importFootprint env ctx categoryId models pending result s = .ok (after, t)) :
    Steps env ctx.workspaceId offers agree s t := by
  rw [importFootprint, Outcome.bind_ok] at h
  obtain ⟨⟨stored, middle⟩, hstored, h⟩ := h
  obtain ⟨hnamed, hstable, hhead⟩ := rewriteModels_node env models pending
  have hfirst : Steps env ctx.workspaceId offers agree s middle :=
    importEntry_steps (by decide) (hoffers _) hnamed hstable hhead hstored
  cases stored with
  | none =>
    obtain ⟨_, rfl⟩ := Prod.mk.inj (Outcome.pure_ok.mp h)
    exact hfirst
  | some stored =>
    obtain ⟨linked, hlinked, hret⟩ := Outcome.bind_ok.mp h
    obtain ⟨_, rfl⟩ := Prod.mk.inj (Outcome.pure_ok.mp hret)
    exact hfirst.trans (linkModels_steps hlinked)

theorem importFootprints_steps {pending : List PendingFootprint}
    (hoffers : ∀ p ∈ pending, ∀ node, offers .footprint p.val.name node)
    (h : importFootprints env ctx categoryId models pending result s = .ok (after, t)) :
    Steps env ctx.workspaceId offers agree s t := by
  induction pending generalizing ctx result s with
  | nil => exact (Prod.mk.inj (Except.ok.inj h)).2 ▸ .refl
  | cons first rest ih =>
    rw [importFootprints, Outcome.bind_ok] at h
    obtain ⟨⟨result', middle⟩, hfirst, h⟩ := h
    have hstep : Steps env (ctx.child 0).workspaceId offers agree s middle :=
      importFootprint_steps (hoffers first List.mem_cons_self) hfirst
    have hrest : Steps env (ctx.child 1).workspaceId offers agree middle t :=
      ih (fun p hp => hoffers p (List.mem_cons_of_mem _ hp)) h
    exact hstep.trans hrest

theorem importSymbols_steps {pending : List PendingSymbol}
    (hoffers : ∀ p ∈ pending, offers .symbol p.val.name p.val.node)
    (h : importSymbols env ctx categoryId pending result s = .ok (after, t)) :
    Steps env ctx.workspaceId offers agree s t := by
  induction pending generalizing ctx result s with
  | nil => exact (Prod.mk.inj (Except.ok.inj h)).2 ▸ .refl
  | cons first rest ih =>
    rw [importSymbols, Outcome.bind_ok] at h
    obtain ⟨⟨stored, middle⟩, hstored, h⟩ := h
    have hfirst : Steps env (ctx.child 0).workspaceId offers agree s middle :=
      importEntry_steps (by decide) (hoffers first List.mem_cons_self) first.val.named
        (stable_pending first.val) ⟨_, first.property, fun _ => rfl⟩ hstored
    have hrest : Steps env (ctx.child 1).workspaceId offers agree middle t :=
      ih (fun p hp => hoffers p (List.mem_cons_of_mem _ hp)) h
    exact hfirst.trans hrest

theorem importPlan_steps {plan : ImportPlan}
    (h : importPlan env ctx plan categoryId s = .ok (result, t)) :
    Steps env ctx.workspaceId (Offers (.importPlan plan categoryId)) agree s t := by
  rw [importPlan, Outcome.bind_ok] at h
  obtain ⟨_, _, h⟩ := h
  obtain ⟨⟨result1, models, s1⟩, hdatafiles, h⟩ := Outcome.bind_ok.mp h
  obtain ⟨⟨result2, s2⟩, hfootprints, hsymbols⟩ := Outcome.bind_ok.mp h
  have h1 : Steps env (ctx.child 0).workspaceId (Offers (.importPlan plan categoryId)) agree s s1 :=
    importDatafiles_steps hdatafiles
  have h2 : Steps env (ctx.child 1).workspaceId (Offers (.importPlan plan categoryId)) agree s1 s2 :=
    importFootprints_steps (fun p hp _ => Or.inr ⟨rfl, p, hp, rfl⟩) hfootprints
  have h3 : Steps env (ctx.child 2).workspaceId (Offers (.importPlan plan categoryId)) agree s2 t :=
    importSymbols_steps (fun p hp => Or.inl ⟨rfl, p, hp, rfl, rfl⟩) hsymbols
  exact (h1.trans h2).trans h3

end Rows

/-- Every accepted request is a chain of steps, whose uploads it offered itself. -/
theorem exec_steps {call : Ctx × Request} (h : exec env call s = .ok t) :
    Steps env call.1.workspaceId (Offers call.2) (NameAgrees env call s) s t := by
  obtain ⟨ctx, request⟩ := call
  cases request with
  | orphan kind data =>
    obtain rfl := Except.ok.inj h
    exact .single (.wrote kind data)
  | uploadSymbol contents name categoryId =>
    obtain ⟨⟨row, t'⟩, hexec, rfl⟩ := Outcome.map_ok.mp h
    exact uploadSymbol_steps hexec
  | uploadFootprint contents name categoryId =>
    obtain ⟨⟨row, t'⟩, hexec, rfl⟩ := Outcome.map_ok.mp h
    exact uploadFootprint_steps hexec
  | uploadDatafile filename contents name =>
    obtain ⟨⟨row, t'⟩, hexec, rfl⟩ := Outcome.map_ok.mp h
    exact uploadDatafile_steps hexec
  | importPlan plan categoryId =>
    obtain ⟨⟨result, t'⟩, hexec, rfl⟩ := Outcome.map_ok.mp h
    exact importPlan_steps hexec
  | patch model entryId payload =>
    obtain ⟨⟨entry, t'⟩, hexec, rfl⟩ := Outcome.map_ok.mp h
    exact updateEntry_steps hexec
  | archive model entryId =>
    obtain ⟨⟨entry, t'⟩, hexec, rfl⟩ := Outcome.map_ok.mp h
    exact archiveEntry_steps hexec
  | restore model entryId =>
    obtain ⟨⟨entry, t'⟩, hexec, rfl⟩ := Outcome.map_ok.mp h
    exact restoreEntry_steps hexec
  | link footprintId datafileId position =>
    obtain ⟨⟨footprint, t'⟩, hexec, rfl⟩ := Outcome.map_ok.mp h
    exact linkFootprintModel_steps hexec
  | unlink footprintId datafileId =>
    obtain ⟨⟨footprint, t'⟩, hexec, rfl⟩ := Outcome.map_ok.mp h
    exact unlinkFootprintModel_steps hexec

end StockManager.Eda
