import StockManager.Properties.ArchiveReading
import StockManager.Properties.EntryNames
import StockManager.Properties.KeptExtensions

/-! # Runs through both doors

Files come in one by one or in an archive, by a route or by a tool. -/

namespace StockManager.Eda

open Sexpr (Text)

inductive DoorCall
  | upload (door : Door) (kind : AssetKind) (filename : Text) (raw : ByteArray)
  | importLibrary (file : ArchiveFile) (categoryId : Option Uuid)
  | importPartArchive (partId : Uuid) (filename : Option Text) (file : ArchiveFile)
      (categoryId : Option Uuid) (overwrite : Bool)
  | importVendorZip (partId : Kicad.IdText) (file : ArchiveFile) (overwrite : Bool)

/-- The world after a call, each with its own context. -/
def execDoor (env : ArchiveEnv) (call : Ctx × DoorCall) (w : World) : Except DoorError World :=
  match call.2 with
  | .upload door kind filename raw => do
    let (_, w) ← doorUpload env.toEnv call.1 door kind filename raw w
    return w
  | .importLibrary file categoryId => do
    let (_, w) ← importLibrary env call.1 file categoryId w
    return w
  | .importPartArchive partId filename file categoryId overwrite => do
    let (_, w) ← importPartArchive env call.1 partId filename file categoryId overwrite w
    return w
  | .importVendorZip partId file overwrite => do
    let (_, w) ← importVendorZip env call.1 partId file overwrite w
    return w

/-- The names of the 3D files a call brings fit their column with the extension on. -/
def DoorCall.NamesModels (env : ArchiveEnv) : DoorCall → Prop
  | .upload door kind filename _ =>
    filename.length ≤ nameMax ∧ ¬(door = .tool ∧ kind = .model3d)
  | .importLibrary file _ => PlainModels env file.content
  | .importPartArchive _ _ file _ _ => PlainModels env file.content
  | .importVendorZip _ file _ => PlainModels env file.content

section Steps

variable {env : ArchiveEnv} {ctx : Ctx} {w w' : World}

theorem upload_keeps {door : Door} {kind : AssetKind} {filename : Text} {raw : ByteArray}
    {stored : Entry × Bool} (hname : filename.length ≤ nameMax)
    (hdoor : ¬(door = .tool ∧ kind = .model3d)) (hw : KeepsExtensions w.library)
    (h : doorUpload env.toEnv ctx door kind filename raw w = .ok (stored, w')) :
    KeepsExtensions w'.library := by
  by_cases hentry : kind.IsEntry
  · -- symbols and footprints leave the data files alone
    have hrows : w'.library.rows .datafile = w.library.rows .datafile := by
      have hasset : ∃ asset, readAsset env.toEnv kind filename raw = .ok asset ∧
          insertEntry env.toEnv ctx asset.model asset.storageKind asset.datafileKind none
            asset.name asset.data w.library = .ok (stored, w'.library) := by
        cases door with
        | rest => exact ((restUpload_entry hentry).mp (rest_ok.mp h).1).2.2
        | tool =>
          obtain ⟨-, -, asset, hasset, hinsert⟩ := tool_ok.mp h
          exact ⟨asset, hasset, hinsert.inserted⟩
      obtain ⟨asset, hasset, hinsert⟩ := hasset
      refine insertEntry_rows ?_ hinsert
      rcases hentry with rfl | rfl
      · obtain ⟨_, -, hret⟩ := Outcome.bind_ok.mp hasset
        rw [← Outcome.pure_ok.mp hret]
        exact Model.noConfusion
      · obtain ⟨_, -, hret⟩ := Outcome.bind_ok.mp hasset
        rw [← Outcome.pure_ok.mp hret]
        exact Model.noConfusion
    intro row hrow
    have hold : row ∈ w.library.rows .datafile := hrows ▸ hrow
    exact hw row hold
  · cases door with
    | rest =>
      obtain ⟨d, hkind, -, -, data, -, hinsert⟩ := (restUpload_datafile hentry).mp (rest_ok.mp h).1
      exact insertEntry_keeps hw (routeName_keeps hname hkind) hinsert
    | tool =>
      obtain ⟨-, -, asset, hasset, hinsert⟩ := tool_ok.mp h
      obtain ⟨d, -, htakes, data, -, rfl⟩ := (readAsset_datafile hentry).mp hasset
      have hspice : d = .spice := by
        cases kind with
        | symbol => exact absurd (.inl rfl) hentry
        | footprint => exact absurd (.inr rfl) hentry
        | model3d => exact absurd ⟨rfl, rfl⟩ hdoor
        | spice => exact htakes.1 rfl
      exact insertEntry_keeps hw (fun hd => absurd hspice hd) hinsert.inserted

theorem narrowToPart_datafiles {plan kept : ImportPlan} {hints : List Text}
    (h : narrowToPart env.toEnv plan hints = .ok kept) : kept.datafiles = plan.datafiles := by
  obtain ⟨_, -, h⟩ := Outcome.bind_ok.mp h
  obtain ⟨_, -, h⟩ := Outcome.bind_ok.mp h
  rw [← Outcome.pure_ok.mp h]

theorem readPlan_keeps (hlower : LowersAscii env) {archive : VendorArchive}
    (hplain : PlainModels env archive) {plan : ImportPlan}
    (h : readPlan env archive = .ok plan) : ∀ file ∈ plan.datafiles, ∀ candidate ∈
      file.name.take nameMax :: suffixedNames file.name true, NameKeeps file.kind candidate := by
  obtain ⟨read, col, hread, rfl⟩ := readPlan_ok h
  exact fun file hfile candidate hcandidate =>
    pending_keeps hlower hplain ((readArchive_offers hread).datafiles file hfile) hcandidate

theorem planForPart_keeps (hlower : LowersAscii env) {archive : VendorArchive}
    (hplain : PlainModels env archive) {hints : List Text} {plan : ImportPlan}
    (h : planForPart env archive hints = .ok plan) : ∀ file ∈ plan.datafiles, ∀ candidate ∈
      file.name.take nameMax :: suffixedNames file.name true, NameKeeps file.kind candidate := by
  obtain ⟨whole, hwhole, h⟩ := Outcome.bind_ok.mp h
  rw [narrowToPart_datafiles (Outcome.mapError_ok.mp h)]
  exact readPlan_keeps hlower hplain (Outcome.mapError_ok.mp hwhole)

theorem importForPart_keeps {part : Kicad.Part} {plan : ImportPlan} {categoryId : Option Uuid}
    {overwrite : Bool} {result : ImportResult × Bool}
    (hplan : ∀ file ∈ plan.datafiles, ∀ candidate ∈
      file.name.take nameMax :: suffixedNames file.name true, NameKeeps file.kind candidate)
    (hw : KeepsExtensions w.library)
    (h : importForPart env.toEnv ctx part plan categoryId overwrite w = .ok (result, w')) :
    KeepsExtensions w'.library := by
  obtain ⟨⟨imported, library⟩, himport, h⟩ := Outcome.bind_ok.mp h
  obtain ⟨-, rfl⟩ := Prod.mk.inj (Outcome.pure_ok.mp h)
  exact importPlan_keeps hplan hw (Outcome.mapError_ok.mp himport)

theorem execDoor_keeps (hlower : LowersAscii env) {call : Ctx × DoorCall}
    (hw : KeepsExtensions w.library) (hcall : call.2.NamesModels env)
    (h : execDoor env call w = .ok w') : KeepsExtensions w'.library := by
  obtain ⟨ctx, call⟩ := call
  cases call with
  | upload door kind filename raw =>
    obtain ⟨⟨stored, after⟩, hupload, h⟩ := Outcome.bind_ok.mp h
    obtain rfl := Outcome.pure_ok.mp h
    exact upload_keeps hcall.1 hcall.2 hw hupload
  | importLibrary file categoryId =>
    obtain ⟨⟨result, after⟩, himport, h⟩ := Outcome.bind_ok.mp h
    obtain rfl := Outcome.pure_ok.mp h
    obtain ⟨_, -, himport⟩ := Outcome.bind_ok.mp himport
    obtain ⟨plan, hplan, himport⟩ := Outcome.bind_ok.mp himport
    obtain ⟨⟨imported, library⟩, hmade, h⟩ := Outcome.bind_ok.mp himport
    obtain ⟨-, rfl⟩ := Prod.mk.inj (Outcome.pure_ok.mp h)
    exact importPlan_keeps (readPlan_keeps hlower hcall (Outcome.mapError_ok.mp hplan)) hw
      (Outcome.mapError_ok.mp hmade)
  | importPartArchive partId filename file categoryId overwrite =>
    obtain ⟨⟨reply, after⟩, himport, h⟩ := Outcome.bind_ok.mp h
    obtain rfl := Outcome.pure_ok.mp h
    obtain ⟨part, -, himport⟩ := Outcome.bind_ok.mp himport
    obtain ⟨_, -, himport⟩ := Outcome.bind_ok.mp himport
    obtain ⟨plan, hplan, himport⟩ := Outcome.bind_ok.mp himport
    obtain ⟨⟨result, after⟩, hmade, h⟩ := Outcome.bind_ok.mp himport
    obtain ⟨-, rfl⟩ := Prod.mk.inj (Outcome.pure_ok.mp h)
    exact importForPart_keeps (planForPart_keeps hlower hcall hplan) hw hmade
  | importVendorZip partId file overwrite =>
    obtain ⟨⟨reply, after⟩, himport, h⟩ := Outcome.bind_ok.mp h
    obtain rfl := Outcome.pure_ok.mp h
    obtain ⟨_, -, himport⟩ := Outcome.bind_ok.mp himport
    obtain ⟨part, -, himport⟩ := Outcome.bind_ok.mp himport
    obtain ⟨plan, hplan, himport⟩ := Outcome.bind_ok.mp himport
    obtain ⟨⟨result, after⟩, hmade, h⟩ := Outcome.bind_ok.mp himport
    obtain ⟨_, -, h⟩ := Outcome.bind_ok.mp h
    obtain ⟨-, rfl⟩ := Prod.mk.inj (Outcome.pure_ok.mp h)
    exact importForPart_keeps (planForPart_keeps hlower hcall hplan) hw hmade

end Steps

/-- What the two doors share for symbols and footprints: the outcome, and that a file that comes
again, by either door, finds its row. -/
structure EntriesAgree (env : Env) (ctx : Ctx) (kind : AssetKind) (filename : Text)
    (raw : ByteArray) (w : World) : Prop where
  same : ∀ result, doorUpload env ctx .tool kind filename raw w = .ok result ↔
    doorUpload env ctx .rest kind filename raw w = .ok result
  again : ∀ door door' ctx' stored w', ctx'.workspaceId = ctx.workspaceId →
    doorUpload env ctx door kind filename raw w = .ok (stored, w') →
      doorUpload env ctx' door' kind filename raw w' = .ok (foundAgain stored, w')

theorem entriesAgree {env : Env} {ctx : Ctx} {kind : AssetKind} {filename : Text}
    {raw : ByteArray} {w : World} (h : kind.IsEntry) (hraw : WithinBoth env kind.entryKind raw) :
    EntriesAgree env ctx kind filename raw w := by
  refine ⟨fun result => ?_, fun door door' ctx' stored w' hworkspace hfirst =>
    doorUpload_again h hraw hworkspace hfirst⟩
  obtain ⟨stored, w'⟩ := result
  rw [doorUpload_entry h hraw, doorUpload_entry h hraw]

/-- Both doors are one upload of a symbol or a footprint and take the same data files, a taken
name aside; a 3D file that is not the tool's keeps its extension over any run. -/
theorem doors_agree (env : ArchiveEnv) (hlower : LowersAscii env) :
    (∀ ctx kind filename raw w, filename.length ≤ nameMax →
      (kind.IsEntry → WithinBoth env.toEnv kind.entryKind raw →
        EntriesAgree env.toEnv ctx kind filename raw w) ∧
      (¬kind.IsEntry → raw.size ≤ maxDecodedBytes →
        (∀ row ∈ w.library.datafiles, row.id ≠ ctx.uuid4) →
          DatafilesAgree env.toEnv ctx kind filename raw w)) ∧
    ∀ (w : World) (calls : List (Ctx × DoorCall)), KeepsExtensions w.library →
      (∀ call ∈ calls, call.2.NamesModels env) →
        KeepsExtensions (Outcome.run (execDoor env) w calls).library := by
  constructor
  · intro ctx kind filename raw w hname
    exact ⟨fun h hraw => entriesAgree h hraw,
      fun h hmax hfresh => datafilesAgree h hname hmax hfresh⟩
  · intro w calls hw hcalls
    induction calls generalizing w with
    | nil => exact hw
    | cons call rest ih =>
      rw [List.forall_mem_cons] at hcalls
      rw [Outcome.run_cons]
      refine ih _ ?_ hcalls.2
      exact @Outcome.settle_invariant _ _ _ (fun w => KeepsExtensions w.library) _ hw
        fun after h => execDoor_keeps hlower hw hcalls.1 h

def emptyWorld : World := ⟨sampleState, [], []⟩

def stepModel : ByteArray := "ISO-10303-21;".toByteArray

def resistorSymbol : ByteArray := "(symbol \"R\" (symbol \"R_0_1\"))".toByteArray

def shapeArchive : ArchiveFile := ⟨300, .ok [shapeModel]⟩

theorem shapeArchive_plain : PlainModels asciiArchiveEnv shapeArchive.content := by
  intro name hname kind _
  obtain ⟨members, hmembers, member, hmember, rfl⟩ := hname
  obtain rfl := Except.ok.inj hmembers
  obtain rfl := List.mem_singleton.mp hmember
  decide

def plainCalls : List (Ctx × DoorCall) :=
  [(sampleCtx 7, .upload .rest .model3d "R.step".toList stepModel),
    (sampleCtx 8, .importLibrary shapeArchive none)]

theorem plainCalls_names : ∀ call ∈ plainCalls, call.2.NamesModels asciiArchiveEnv := by
  intro call hcall
  rcases List.mem_pair.mp hcall with rfl | rfl
  · exact ⟨by decide, by decide⟩
  · exact shapeArchive_plain

theorem doors_agree_ascii :
    EntriesAgree asciiArchiveEnv.toEnv (sampleCtx 7) .symbol "R.kicad_sym".toList resistorSymbol
        emptyWorld ∧
      DatafilesAgree asciiArchiveEnv.toEnv (sampleCtx 7) .model3d "R.step".toList stepModel
        emptyWorld ∧
      KeepsExtensions (Outcome.run (execDoor asciiArchiveEnv) emptyWorld plainCalls).library := by
  have hlower : LowersAscii asciiArchiveEnv := fun _ _ _ _ h => h
  obtain ⟨hdoors, hruns⟩ := doors_agree asciiArchiveEnv hlower
  refine ⟨?_, ?_, ?_⟩
  · exact (hdoors _ _ _ _ _ (by decide)).1 (.inl rfl) ⟨by decide, by decide⟩
  · have hmodel : ¬AssetKind.model3d.IsEntry := by
      rintro (h | h)
      · cases h
      · cases h
    exact (hdoors _ _ _ _ _ (by decide)).2 hmodel (by decide)
      fun _ h => absurd h List.not_mem_nil
  · exact hruns emptyWorld plainCalls (fun _ h => absurd h List.not_mem_nil) plainCalls_names

/-- The names and kinds of the data files after the calls. -/
def datafileNames (calls : List DoorCall) : List (Text × Option DatafileKind) :=
  (Outcome.run (execDoor asciiArchiveEnv) emptyWorld
    (calls.zipIdx.map fun call => (sampleCtx (100 * call.2), call.1))).library.datafiles.map
      fun row => (row.name, row.kind)

/-- The tool refuses a file of another kind, which the route takes, and VRML files are kept as they
are named. -/
theorem doors_disagree :
    datafileNames [.upload .tool .spice "R.step".toList stepModel] = [] ∧
    datafileNames [.upload .rest .spice "R.step".toList stepModel] =
      [("R.step".toList, some .step)] ∧
    datafileNames [.upload .rest .model3d "R.vrml".toList "#VRML V2.0 utf8".toByteArray] =
      [("R.vrml".toList, some .wrl)] := by
  decide

/-- One file through both doors is two rows, of which the tool's has no extension. -/
example : datafileNames [.upload .rest .model3d "R.step".toList stepModel,
      .upload .tool .model3d "R.step".toList stepModel] =
    [("R.step".toList, some .step), ("R".toList, some .step)] := by
  decide

def hiddenModels : ArchiveFile :=
  ⟨300, .ok [textMember "a/.step" "ISO-10303-21; a" (by decide),
    textMember "b/.step" "ISO-10303-21; b" (by decide)]⟩

def longName : Text := List.replicate nameMax 'a' ++ ".step".toList

def longModel : ArchiveFile :=
  ⟨300, .ok [textMember (String.ofList longName) "ISO-10303-21;" (by decide)]⟩

/-- The importer cuts the extension from a long name and puts a suffix behind one without a
stem. -/
example : datafileNames [.importLibrary longModel none] = [(List.replicate nameMax 'a', some .step)] ∧
    datafileNames [.importLibrary hiddenModels none] =
      [(".step".toList, some .step), (".step (2)".toList, some .step)] := by
  decide +kernel

end StockManager.Eda
