import StockManager.Effects.ImportRuns
import StockManager.Model.ImportDoors

/-! # One file by both doors

A symbol or a footprint is the same upload by the tool and by the route. A data file is checked
alike; the name of its row is the tool's own. -/

namespace StockManager.Eda

open Sexpr (Text)

inductive Door
  | rest | tool
  deriving DecidableEq

/-- A file by one of the doors, without a name, a part or a category. -/
def doorUpload (env : Env) (ctx : Ctx) (door : Door) (kind : AssetKind) (filename : Text)
    (raw : ByteArray) (w : World) : Except DoorError ((Entry × Bool) × World) :=
  match door with
  | .rest => do
    let (stored, library) ← (restUpload env ctx kind filename raw w.library).mapError .app
    return (stored, { w with library := library })
  | .tool => uploadEdaAsset env ctx kind filename raw none none w

section Doors

variable {env : Env} {ctx ctx' : Ctx} {door door' : Door} {kind : AssetKind} {filename : Text}
  {raw : ByteArray} {w w' : World} {stored : Entry × Bool}

/-- The bytes are neither empty nor beyond the cap of a door. -/
def WithinBoth (env : Env) (storageKind : StorageKind) (raw : ByteArray) : Prop :=
  raw.size ≤ maxDecodedBytes ∧ raw.size ≤ maxBytesFor env storageKind

theorem checkDecoded_ok {what : String} {size : ℕ} {u : Unit} :
    checkDecoded what size = .ok u ↔ size ≠ 0 ∧ size ≤ maxDecodedBytes := by
  rw [checkDecoded, Outcome.check_bind_ok, Outcome.check_ok]

theorem readUpload_iff {contents : ByteArray} {storageKind : StorageKind} {read : ByteArray} :
    readUpload env contents storageKind = .ok read ↔
      contents.size ≤ maxBytesFor env storageKind ∧ contents.size ≠ 0 ∧ contents = read := by
  rw [readUpload, Outcome.check_bind_ok, Outcome.check_bind_ok, Outcome.pure_ok]

/-- An entry of a library file is inserted under its own name. -/
structure Inserts (env : Env) (ctx : Ctx) (asset : Asset) (w : World)
    (stored : Entry × Bool) (w' : World) : Prop where
  inserted : insertEntry env ctx asset.model asset.storageKind asset.datafileKind none asset.name
    asset.data w.library = .ok (stored, w'.library)
  parts : w'.parts = w.parts
  partEda : w'.partEda = w.partEda

theorem tool_ok : doorUpload env ctx .tool kind filename raw w = .ok (stored, w') ↔
    raw.size ≠ 0 ∧ raw.size ≤ maxDecodedBytes ∧
      ∃ asset, readAsset env kind filename raw = .ok asset ∧ Inserts env ctx asset w stored w' := by
  have hnone : (none : Option Text).mapM (resolveCategory ctx w.library) = .ok none := rfl
  show uploadEdaAsset env ctx kind filename raw none none w = .ok (stored, w') ↔ _
  rw [uploadEdaAsset, Outcome.bind_ok]
  constructor
  · rintro ⟨_, hsize, h⟩
    obtain ⟨hempty, hmax⟩ := checkDecoded_ok.mp hsize
    obtain ⟨category, hcategory, h⟩ := Outcome.bind_ok.mp h
    obtain rfl := Except.ok.inj (hnone.symm.trans hcategory)
    obtain ⟨asset, hasset, h⟩ := Outcome.bind_ok.mp h
    obtain ⟨⟨row, library⟩, hinsert, h⟩ := Outcome.bind_ok.mp h
    obtain ⟨rfl, rfl⟩ := Prod.mk.inj (Outcome.pure_ok.mp h)
    exact ⟨hempty, hmax, asset, hasset, Outcome.mapError_ok.mp hinsert, rfl, rfl⟩
  · rintro ⟨hempty, hmax, asset, hasset, hinsert, hparts, hrows⟩
    refine ⟨(), checkDecoded_ok.mpr ⟨hempty, hmax⟩, ?_⟩
    refine Outcome.bind_ok.mpr ⟨none, hnone, Outcome.bind_ok.mpr ⟨asset, hasset, ?_⟩⟩
    refine Outcome.bind_ok.mpr ⟨_, Outcome.mapError_ok.mpr hinsert, ?_⟩
    obtain ⟨library, parts, partEda⟩ := w'
    obtain rfl : parts = w.parts := hparts
    obtain rfl : partEda = w.partEda := hrows
    rfl

theorem rest_ok : doorUpload env ctx .rest kind filename raw w = .ok (stored, w') ↔
    restUpload env ctx kind filename raw w.library = .ok (stored, w'.library) ∧
      w'.parts = w.parts ∧ w'.partEda = w.partEda := by
  show ((restUpload env ctx kind filename raw w.library).mapError DoorError.app >>= _) = _ ↔ _
  rw [Outcome.bind_ok]
  constructor
  · rintro ⟨⟨row, library⟩, hrest, h⟩
    obtain ⟨rfl, rfl⟩ := Prod.mk.inj (Outcome.pure_ok.mp h)
    exact ⟨Outcome.mapError_ok.mp hrest, rfl, rfl⟩
  · rintro ⟨hrest, hparts, hrows⟩
    refine ⟨_, Outcome.mapError_ok.mpr hrest, ?_⟩
    obtain ⟨library, parts, partEda⟩ := w'
    obtain rfl : parts = w.parts := hparts
    obtain rfl : partEda = w.partEda := hrows
    rfl

/-- The tables whose files carry their own name. -/
def AssetKind.IsEntry (kind : AssetKind) : Prop := kind = .symbol ∨ kind = .footprint

def AssetKind.entryKind : AssetKind → StorageKind
  | .symbol => .symbol
  | _ => .footprint

theorem restUpload_entry (h : kind.IsEntry) {s t : State} :
    restUpload env ctx kind filename raw s = .ok (stored, t) ↔
      raw.size ≤ maxBytesFor env kind.entryKind ∧ raw.size ≠ 0 ∧
        ∃ asset, readAsset env kind filename raw = .ok asset ∧
          insertEntry env ctx asset.model asset.storageKind asset.datafileKind none asset.name
            asset.data s = .ok (stored, t) := by
  rcases h with rfl | rfl
  · show uploadSymbol env ctx raw none none s = .ok (stored, t) ↔ _
    rw [uploadSymbol, Outcome.bind_ok]
    constructor
    · rintro ⟨read, hread, h⟩
      obtain ⟨hcap, hempty, rfl⟩ := readUpload_iff.mp hread
      obtain ⟨⟨name, data⟩, hcanonical, h⟩ := Outcome.bind_ok.mp h
      exact ⟨hcap, hempty, ⟨.symbol, .symbol, none, name, data⟩,
        Outcome.bind_ok.mpr ⟨_, Outcome.mapError_ok.mpr hcanonical, rfl⟩, h⟩
    · rintro ⟨hcap, hempty, asset, hasset, h⟩
      obtain ⟨⟨name, data⟩, hcanonical, hret⟩ := Outcome.bind_ok.mp hasset
      obtain rfl := Outcome.pure_ok.mp hret
      exact ⟨raw, readUpload_iff.mpr ⟨hcap, hempty, rfl⟩,
        Outcome.bind_ok.mpr ⟨_, Outcome.mapError_ok.mp hcanonical, h⟩⟩
  · show uploadFootprint env ctx raw none none s = .ok (stored, t) ↔ _
    rw [uploadFootprint, Outcome.bind_ok]
    constructor
    · rintro ⟨read, hread, h⟩
      obtain ⟨hcap, hempty, rfl⟩ := readUpload_iff.mp hread
      obtain ⟨⟨name, data⟩, hcanonical, h⟩ := Outcome.bind_ok.mp h
      exact ⟨hcap, hempty, ⟨.footprint, .footprint, none, name, data⟩,
        Outcome.bind_ok.mpr ⟨_, Outcome.mapError_ok.mpr hcanonical, rfl⟩, h⟩
    · rintro ⟨hcap, hempty, asset, hasset, h⟩
      obtain ⟨⟨name, data⟩, hcanonical, hret⟩ := Outcome.bind_ok.mp hasset
      obtain rfl := Outcome.pure_ok.mp hret
      exact ⟨raw, readUpload_iff.mpr ⟨hcap, hempty, rfl⟩,
        Outcome.bind_ok.mpr ⟨_, Outcome.mapError_ok.mp hcanonical, h⟩⟩

theorem doorUpload_entry (h : kind.IsEntry) (hraw : WithinBoth env kind.entryKind raw) :
    doorUpload env ctx door kind filename raw w = .ok (stored, w') ↔
      raw.size ≠ 0 ∧ ∃ asset, readAsset env kind filename raw = .ok asset ∧
        Inserts env ctx asset w stored w' := by
  cases door with
  | rest =>
    rw [rest_ok, restUpload_entry h]
    constructor
    · rintro ⟨⟨-, hempty, asset, hasset, hinsert⟩, hparts, hrows⟩
      exact ⟨hempty, asset, hasset, hinsert, hparts, hrows⟩
    · rintro ⟨hempty, asset, hasset, hinsert, hparts, hrows⟩
      exact ⟨⟨hraw.2, hempty, asset, hasset, hinsert⟩, hparts, hrows⟩
  | tool =>
    rw [tool_ok]
    exact ⟨fun ⟨hempty, _, hasset⟩ => ⟨hempty, hasset⟩,
      fun ⟨hempty, hasset⟩ => ⟨hempty, hraw.1, hasset⟩⟩

theorem doorUpload_again (h : kind.IsEntry) (hraw : WithinBoth env kind.entryKind raw)
    (hworkspace : ctx'.workspaceId = ctx.workspaceId)
    (hfirst : doorUpload env ctx door kind filename raw w = .ok (stored, w')) :
    doorUpload env ctx' door' kind filename raw w' = .ok (foundAgain stored, w') := by
  obtain ⟨hempty, asset, hasset, hinsert⟩ := (doorUpload_entry h hraw).mp hfirst
  exact (doorUpload_entry h hraw).mpr ⟨hempty, asset, hasset,
    insertEntry_later hinsert.inserted hworkspace (.refl _), rfl, rfl⟩

def routeName (env : Env) (filename : Text) (kind : DatafileKind) (data : ByteArray) : Text :=
  if basename (some filename) ≠ [] then basename (some filename)
  else kind.str.toList ++ '-' :: (env.sha256 data).take 8

theorem restUpload_datafile (h : ¬kind.IsEntry) {s t : State} :
    restUpload env ctx kind filename raw s = .ok (stored, t) ↔
      ∃ d, datafileKindFromFilename (some filename) = .ok d ∧
        raw.size ≤ maxBytesFor env (.data d) ∧ raw.size ≠ 0 ∧
        ∃ data, validatedDatafile d raw = .ok data ∧
          insertEntry env ctx .datafile (.data d) (some d) none (routeName env filename d data)
            data s = .ok (stored, t) := by
  have hroute : restUpload env ctx kind filename raw s =
      uploadDatafile env ctx (some filename) raw none s := by
    cases kind with
    | symbol => exact absurd (.inl rfl) h
    | footprint => exact absurd (.inr rfl) h
    | model3d => rfl
    | spice => rfl
  rw [hroute, uploadDatafile, Outcome.bind_ok]
  constructor
  · rintro ⟨d, hkind, h⟩
    obtain ⟨read, hread, h⟩ := Outcome.bind_ok.mp h
    obtain ⟨hcap, hempty, rfl⟩ := readUpload_iff.mp hread
    obtain ⟨data, hdata, h⟩ := Outcome.bind_ok.mp h
    exact ⟨d, hkind, hcap, hempty, data, hdata, h⟩
  · rintro ⟨d, hkind, hcap, hempty, data, hdata, h⟩
    exact ⟨d, hkind, Outcome.bind_ok.mpr ⟨raw, readUpload_iff.mpr ⟨hcap, hempty, rfl⟩,
      Outcome.bind_ok.mpr ⟨data, hdata, h⟩⟩⟩

/-- The kinds of file a tool call takes. -/
def AssetKind.Takes (kind : AssetKind) (d : DatafileKind) : Prop :=
  (kind = .spice → d = .spice) ∧ (kind = .model3d → d = .step ∨ d = .wrl)

theorem assetDatafileKind_ok {d : DatafileKind} : assetDatafileKind kind filename = .ok d ↔
    datafileKindFromFilename (some filename) = .ok d ∧ kind.Takes d := by
  rw [assetDatafileKind, Outcome.bind_ok]
  constructor
  · rintro ⟨resolved, hresolved, h⟩
    obtain ⟨hspice, h⟩ := Outcome.check_bind_ok.mp h
    obtain ⟨hmodel, h⟩ := Outcome.check_bind_ok.mp h
    obtain rfl := Outcome.pure_ok.mp h
    exact ⟨Outcome.mapError_ok.mp hresolved, hspice, hmodel⟩
  · rintro ⟨hresolved, hspice, hmodel⟩
    exact ⟨d, Outcome.mapError_ok.mpr hresolved, Outcome.check_bind_ok.mpr ⟨hspice,
      Outcome.check_bind_ok.mpr ⟨hmodel, rfl⟩⟩⟩

theorem readAsset_datafile (h : ¬kind.IsEntry) {asset : Asset} :
    readAsset env kind filename raw = .ok asset ↔
      ∃ d, datafileKindFromFilename (some filename) = .ok d ∧ kind.Takes d ∧
        ∃ data, validatedDatafile d raw = .ok data ∧
          asset = ⟨.datafile, .data d, some d, assetStem filename, data⟩ := by
  have hread : readAsset env kind filename raw = (do
      let d ← assetDatafileKind kind filename
      let data ← (validatedDatafile d raw).mapError DoorError.app
      return ⟨.datafile, .data d, some d, assetStem filename, data⟩) := by
    cases kind with
    | symbol => exact absurd (.inl rfl) h
    | footprint => exact absurd (.inr rfl) h
    | model3d => rfl
    | spice => rfl
  rw [hread, Outcome.bind_ok]
  constructor
  · rintro ⟨d, hkind, h⟩
    obtain ⟨data, hdata, hret⟩ := Outcome.bind_ok.mp h
    obtain ⟨hresolved, htakes⟩ := assetDatafileKind_ok.mp hkind
    exact ⟨d, hresolved, htakes, data, Outcome.mapError_ok.mp hdata, (Outcome.pure_ok.mp hret).symm⟩
  · rintro ⟨d, hresolved, htakes, data, hdata, rfl⟩
    exact ⟨d, assetDatafileKind_ok.mpr ⟨hresolved, htakes⟩,
      Outcome.bind_ok.mpr ⟨data, Outcome.mapError_ok.mpr hdata, rfl⟩⟩

theorem insertEntry_row {d : DatafileKind} {name : Text} {data : ByteArray} {s t : State}
    (h : insertEntry env ctx .datafile (.data d) (some d) none name data s = .ok (stored, t)) :
    stored.1.kind = some d ∧ stored.1.sha256 = env.sha256 data := by
  obtain ⟨middle, hupload, -⟩ := insertEntry_ok h
  obtain ⟨-, -, -, hsha⟩ := uploadEntry_found hupload
  obtain ⟨-, ⟨-, hactive⟩ | ⟨-, hrow, -⟩⟩ := uploadEntry_ok hupload
  · have hfound := List.find?_some hactive
    rw [decide_eq_true_eq] at hfound
    exact ⟨hfound.2.2.2.1 rfl, hsha⟩
  · rw [hrow]
    exact ⟨rfl, rfl⟩

theorem insertEntry_total {d : DatafileKind} {name : Text} {data : ByteArray} {s : State}
    (hfresh : ∀ r ∈ s.datafiles, r.id ≠ ctx.uuid4) (hname : name.length ≤ nameMax) :
    (∃ result, insertEntry env ctx .datafile (.data d) (some d) none name data s = .ok result) ∨
      ∃ e, insertEntry env ctx .datafile (.data d) (some d) none name data s = .error e ∧
        isNameConflict e = true := by
  cases hactive : activeByName s ctx.workspaceId .datafile name (some d) none with
  | some existing =>
    by_cases hsha : existing.sha256 = env.sha256 data
    · refine .inl ⟨((existing, false), s.store env ctx.workspaceId (.data d) data), ?_⟩
      refine Outcome.bind_ok.mpr ⟨((existing, false), s), Outcome.bind_ok.mpr ⟨(), rfl, ?_⟩, rfl⟩
      simp only [hactive, hsha, if_true]
    · exact .inr ⟨_, insertEntry_refused rfl hactive hsha, rfl⟩
  | none =>
    have hinsert : s.insertEntry .datafile
        (newEntry ctx .datafile name (env.sha256 data) data.size (some d) none) =
          .ok (s.setRows .datafile (s.datafiles ++
            [newEntry ctx .datafile name (env.sha256 data) data.size (some d) none])) :=
      Outcome.check_bind_ok.mpr ⟨hfresh, Outcome.check_bind_ok.mpr ⟨hname, rfl⟩⟩
    have hupload : uploadEntry ctx .datafile name (env.sha256 data) data.size (some d) none s =
        .ok ((newEntry ctx .datafile name (env.sha256 data) data.size (some d) none, true),
          s.setRows .datafile (s.datafiles ++
            [newEntry ctx .datafile name (env.sha256 data) data.size (some d) none])) := by
      refine Outcome.bind_ok.mpr ⟨(), rfl, ?_⟩
      simp only [hactive]
      exact Outcome.bind_ok.mpr ⟨_, hinsert, rfl⟩
    exact .inl ⟨_, Outcome.bind_ok.mpr ⟨_, hupload, rfl⟩⟩

def doorName (env : Env) (filename : Text) (d : DatafileKind) (data : ByteArray) : Door → Text
  | .rest => routeName env filename d data
  | .tool => assetStem filename

theorem length_afterLast_le (separator : Char) (text : Text) :
    (afterLast separator text).length ≤ text.length := by
  rw [afterLast, List.length_reverse]
  exact (List.takeWhile_sublist _).length_le.trans (List.length_reverse ..).le

theorem length_doorName_le (hname : filename.length ≤ nameMax) (d : DatafileKind)
    (data : ByteArray) : (doorName env filename d data door).length ≤ nameMax := by
  cases door with
  | rest =>
    show (routeName env filename d data).length ≤ nameMax
    unfold routeName
    split
    · exact List.length_take_le _ _
    · have hkind : d.str.toList.length ≤ 5 := by cases d <;> decide
      have hsha : ((env.sha256 data).take 8).length ≤ 8 := List.length_take_le _ _
      rw [List.length_append, List.length_cons, nameMax]
      omega
  | tool =>
    have hbase : (afterLast '\\' (afterLast '/' filename)).length ≤ nameMax :=
      (length_afterLast_le _ _).trans ((length_afterLast_le _ _).trans hname)
    show (assetStem filename).length ≤ nameMax
    simp only [assetStem]
    split
    · unfold stemOf
      split
      · exact (List.length_take_le' _ _).trans hbase
      · exact hbase
    · exact hbase

theorem doorUpload_datafile (h : ¬kind.IsEntry) {d : DatafileKind}
    (hkind : datafileKindFromFilename (some filename) = .ok d) (htakes : kind.Takes d)
    (hraw : WithinBoth env (.data d) raw) (hempty : raw.size ≠ 0) {data : ByteArray}
    (hdata : validatedDatafile d raw = .ok data) :
    doorUpload env ctx door kind filename raw w = (do
      let (stored, library) ← (insertEntry env ctx .datafile (.data d) (some d) none
        (doorName env filename d data door) data w.library).mapError .app
      return (stored, { w with library := library })) := by
  cases door with
  | rest =>
    have hread : readUpload env raw (.data d) = .ok raw :=
      readUpload_iff.mpr ⟨hraw.2, hempty, rfl⟩
    have hroute : restUpload env ctx kind filename raw w.library =
        uploadDatafile env ctx (some filename) raw none w.library := by
      cases kind with
      | symbol => exact absurd (.inl rfl) h
      | footprint => exact absurd (.inr rfl) h
      | model3d => rfl
      | spice => rfl
    have hstore : uploadDatafile env ctx (some filename) raw none w.library =
        insertEntry env ctx .datafile (.data d) (some d) none (routeName env filename d data) data
          w.library := by
      rw [uploadDatafile, hkind]
      show (readUpload env raw (.data d) >>= _) = _
      rw [hread]
      show (validatedDatafile d raw >>= _) = _
      rw [hdata]
      rfl
    show ((restUpload env ctx kind filename raw w.library).mapError DoorError.app >>= _) = _
    rw [hroute, hstore]
    rfl
  | tool =>
    have hdecoded : checkDecoded s!"{kind.str} file" raw.size = .ok () :=
      checkDecoded_ok.mpr ⟨hempty, hraw.1⟩
    have hasset : readAsset env kind filename raw =
        .ok ⟨.datafile, .data d, some d, assetStem filename, data⟩ :=
      (readAsset_datafile h).mpr ⟨d, hkind, htakes, data, hdata, rfl⟩
    show uploadEdaAsset env ctx kind filename raw none none w = _
    rw [uploadEdaAsset, hdecoded]
    show (readAsset env kind filename raw >>= _) = _
    rw [hasset]
    rfl

/-- The row already has the name, with other content. -/
def NameTaken {α : Type} (outcome : Except DoorError α) : Prop :=
  ∃ e, outcome = .error (.app e) ∧ isNameConflict e = true

/-- What the doors agree on for a data file. -/
structure DatafilesAgree (env : Env) (ctx : Ctx) (kind : AssetKind) (filename : Text)
    (raw : ByteArray) (w : World) : Prop where
  refused : (¬∃ d, datafileKindFromFilename (some filename) = .ok d ∧ kind.Takes d) →
    ∀ result, doorUpload env ctx .tool kind filename raw w ≠ .ok result
  accepted : ∀ d, datafileKindFromFilename (some filename) = .ok d → kind.Takes d →
    raw.size ≤ maxBytesFor env (.data d) → ∀ door door' stored w',
      doorUpload env ctx door kind filename raw w = .ok (stored, w') →
        NameTaken (doorUpload env ctx door' kind filename raw w) ∨
          ∃ stored' w'', doorUpload env ctx door' kind filename raw w = .ok (stored', w'') ∧
            stored'.1.kind = stored.1.kind ∧ stored'.1.sha256 = stored.1.sha256

theorem datafilesAgree (h : ¬kind.IsEntry) (hname : filename.length ≤ nameMax)
    (hmax : raw.size ≤ maxDecodedBytes) (hfresh : ∀ r ∈ w.library.datafiles, r.id ≠ ctx.uuid4) :
    DatafilesAgree env ctx kind filename raw w := by
  constructor
  · rintro hnone ⟨stored, w'⟩ htool
    obtain ⟨-, -, asset, hasset, -⟩ := tool_ok.mp htool
    obtain ⟨d, hkind, htakes, -⟩ := (readAsset_datafile h).mp hasset
    exact hnone ⟨d, hkind, htakes⟩
  · intro d hkind htakes hcap door door' stored w' hok
    have hread : raw.size ≠ 0 ∧ ∃ data, validatedDatafile d raw = .ok data := by
      cases door with
      | rest =>
        obtain ⟨d', hkind', -, hempty, data, hdata, -⟩ :=
          (restUpload_datafile h).mp (rest_ok.mp hok).1
        obtain rfl := Except.ok.inj (hkind.symm.trans hkind')
        exact ⟨hempty, data, hdata⟩
      | tool =>
        obtain ⟨hempty, -, asset, hasset, -⟩ := tool_ok.mp hok
        obtain ⟨d', hkind', -, data, hdata, -⟩ := (readAsset_datafile h).mp hasset
        obtain rfl := Except.ok.inj (hkind.symm.trans hkind')
        exact ⟨hempty, data, hdata⟩
    obtain ⟨hempty, data, hdata⟩ := hread
    have hdoor := fun door => @doorUpload_datafile env ctx door kind filename raw w h d hkind htakes
      ⟨hmax, hcap⟩ hempty data hdata
    rw [hdoor door] at hok
    obtain ⟨⟨row, library⟩, hinsert, hret⟩ := Outcome.bind_ok.mp hok
    obtain ⟨rfl, rfl⟩ := Prod.mk.inj (Outcome.pure_ok.mp hret)
    obtain ⟨hrow, hsha⟩ := insertEntry_row (Outcome.mapError_ok.mp hinsert)
    rw [hdoor door']
    rcases @insertEntry_total env ctx d (doorName env filename d data door') data w.library hfresh
      (length_doorName_le hname d data) with ⟨⟨row', library'⟩, hother⟩ | ⟨e, hother, hconflict⟩
    · refine .inr ⟨row', { w with library := library' }, ?_, ?_⟩
      · rw [hother]
        rfl
      · obtain ⟨hrow', hsha'⟩ := insertEntry_row hother
        exact ⟨hrow'.trans hrow.symm, hsha'.trans hsha.symm⟩
    · refine .inl ⟨e, ?_, hconflict⟩
      rw [hother]
      rfl

end Doors

end StockManager.Eda
