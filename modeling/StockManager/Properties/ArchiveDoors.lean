import StockManager.Effects.ImportLinks
import StockManager.Effects.Uncategorised
import StockManager.Properties.DoorRuns

/-! # One archive by both doors

The route imports a part's archive under no category, the tool under the part's own. The tool's
reply names the notes of the import by a field that they do not have. -/

namespace StockManager.Eda

open Sexpr (Text)

variable {plan : ImportPlan} {categoryId : Option Uuid} {after : World}

section Doors

variable {env : ArchiveEnv} {ctx : Ctx} {part : Kicad.Part} {idOrMpn : Kicad.IdText}
  {filename : Option Text} {file : ArchiveFile} {overwrite : Bool} {w : World}

/-- The name of the upload says no more than the part does. -/
def NeutralName (env : ArchiveEnv) (file : ArchiveFile) (part : Kicad.Part)
    (filename : Option Text) : Prop :=
  ∀ plan, readPlan env file.content = .ok plan →
    narrowToPart env.toEnv plan (archiveStem filename :: partHints part) =
      narrowToPart env.toEnv plan (partHints part)

/-- What a call needs before it reads the archive. -/
structure Asked (env : ArchiveEnv) (ctx : Ctx) (part : Kicad.Part) (idOrMpn : Kicad.IdText)
    (filename : Option Text) (file : ArchiveFile) (w : World) : Prop where
  byId : activePart ctx w.parts (.id part.id) = some part
  byText : activePart ctx w.parts idOrMpn = some part
  decoded : file.size ≤ maxDecodedBytes
  uploaded : file.size ≤ env.maxUploadBytes
  neutral : NeutralName env file part filename

/-- The two doors do the same with the archive, the categories of rows aside. -/
structure ImportsAlike (env : ArchiveEnv) (ctx : Ctx) (part : Kicad.Part) (idOrMpn : Kicad.IdText)
    (filename : Option Text) (file : ArchiveFile) (overwrite : Bool) (w : World) : Prop where
  accepts : (∃ result, importVendorZip env ctx idOrMpn file overwrite w = .ok result) ↔
    ∃ result, importPartArchive env ctx part.id filename file none overwrite w = .ok result
  same : ∀ reply after reply' after',
    importVendorZip env ctx idOrMpn file overwrite w = .ok (reply, after) →
    importPartArchive env ctx part.id filename file none overwrite w = .ok (reply', after') →
      after.library.uncategorised = after'.library.uncategorised ∧ after.parts = after'.parts ∧
      after.partEda = after'.partEda ∧
      reply.skipped = reply'.skipped.map fun note => (note.filename, note.reason)

theorem planForPart_neutral (h : NeutralName env file part filename) :
    planForPart env file.content (archiveStem filename :: partHints part) =
      planForPart env file.content (partHints part) := by
  unfold planForPart
  cases hread : readPlan env file.content with
  | error e => rfl
  | ok plan =>
    show (narrowToPart env.toEnv plan _).mapError _ = (narrowToPart env.toEnv plan _).mapError _
    rw [h plan hread]

theorem importForPart_ok {result : ImportResult × Bool} :
    importForPart env.toEnv ctx part plan categoryId overwrite w = .ok (result, after) ↔
      importPlan env.toEnv ctx plan categoryId w.library = .ok (result.1, after.library) ∧
      after.parts = w.parts ∧
      (after.partEda, result.2) = wirePart ctx part.id result.1 overwrite w.partEda := by
  rw [importForPart, Outcome.bind_ok]
  constructor
  · rintro ⟨⟨imported, library⟩, himport, h⟩
    obtain ⟨rfl, rfl⟩ := Prod.mk.inj (Outcome.pure_ok.mp h)
    exact ⟨Outcome.mapError_ok.mp himport, rfl, rfl⟩
  · rintro ⟨himport, hparts, hwired⟩
    refine ⟨_, Outcome.mapError_ok.mpr himport, ?_⟩
    obtain ⟨library, parts, partEda⟩ := after
    obtain rfl : parts = w.parts := hparts
    simp only
    rw [← hwired]
    rfl

theorem importForPart_of_plan {plan : ImportPlan} {categoryId : Option Uuid}
    {result : ImportResult} {library : State}
    (h : importPlan env.toEnv ctx plan categoryId w.library = .ok (result, library)) :
    ∃ wired after, importForPart env.toEnv ctx part plan categoryId overwrite w =
      .ok ((result, wired), after) :=
  ⟨_, _, Outcome.bind_ok.mpr ⟨_, Outcome.mapError_ok.mpr h, rfl⟩⟩

theorem skippedNames_ok {notes : List Skipped} {names : List (Text × String)} :
    skippedNames notes = .ok names ↔ notes = [] ∧ names = [] := by
  cases notes with
  | nil => exact ⟨fun h => ⟨rfl, (Except.ok.inj h).symm⟩, fun h => h.2 ▸ rfl⟩
  | cons note rest => exact iff_of_false (fun h => by cases h) fun h => by cases h.1

theorem importPartArchive_ok (hasked : Asked env ctx part idOrMpn filename file w)
    {reply : ImportReply} :
    importPartArchive env ctx part.id filename file none overwrite w = .ok (reply, after) ↔
      file.size ≠ 0 ∧ ∃ plan result,
        planForPart env file.content (partHints part) = .ok plan ∧
        importForPart env.toEnv ctx part plan none overwrite w = .ok (result, after) ∧
        reply = ⟨result.1.symbols.head?, result.1.footprints.head?, result.1.datafiles, result.2,
          result.1.skipped⟩ := by
  rw [importPartArchive, hasked.byId, Outcome.bind_ok]
  constructor
  · rintro ⟨_, hpart, h⟩
    obtain rfl := Option.some.inj (Outcome.orRaise_ok.mp hpart)
    obtain ⟨_, hupload, h⟩ := Outcome.bind_ok.mp h
    obtain ⟨-, hupload⟩ := Outcome.check_bind_ok.mp hupload
    obtain ⟨plan, hplan, h⟩ := Outcome.bind_ok.mp h
    obtain ⟨⟨result, after'⟩, himport, h⟩ := Outcome.bind_ok.mp h
    obtain ⟨rfl, rfl⟩ := Prod.mk.inj (Outcome.pure_ok.mp h)
    rw [planForPart_neutral hasked.neutral] at hplan
    exact ⟨Outcome.check_ok.mp hupload, plan, result, hplan, himport, rfl⟩
  · rintro ⟨hsize, plan, result, hplan, himport, rfl⟩
    rw [← planForPart_neutral hasked.neutral] at hplan
    refine ⟨part, rfl, Outcome.bind_ok.mpr ⟨(), ?_, Outcome.bind_ok.mpr ⟨plan, hplan, ?_⟩⟩⟩
    · exact Outcome.check_bind_ok.mpr ⟨hasked.uploaded, Outcome.check_ok.mpr hsize⟩
    · exact Outcome.bind_ok.mpr ⟨_, himport, rfl⟩

theorem importVendorZip_ok (hasked : Asked env ctx part idOrMpn filename file w)
    {reply : ToolReply} :
    importVendorZip env ctx idOrMpn file overwrite w = .ok (reply, after) ↔
      file.size ≠ 0 ∧ ∃ plan result,
        planForPart env file.content (partHints part) = .ok plan ∧
        importForPart env.toEnv ctx part plan part.categoryId overwrite w = .ok (result, after) ∧
        result.1.skipped = [] ∧
        reply = ⟨part.id, result.2, result.1.symbols, result.1.footprints, result.1.datafiles,
          []⟩ := by
  rw [importVendorZip, Outcome.bind_ok]
  constructor
  · rintro ⟨_, hsize, h⟩
    obtain ⟨part', hpart, h⟩ := Outcome.bind_ok.mp h
    rw [resolvePart, Outcome.orRaise_ok, hasked.byText] at hpart
    obtain rfl := Option.some.inj hpart
    obtain ⟨plan, hplan, h⟩ := Outcome.bind_ok.mp h
    obtain ⟨⟨result, after'⟩, himport, h⟩ := Outcome.bind_ok.mp h
    obtain ⟨names, hnames, h⟩ := Outcome.bind_ok.mp h
    obtain ⟨hskipped, rfl⟩ := skippedNames_ok.mp hnames
    obtain ⟨rfl, rfl⟩ := Prod.mk.inj (Outcome.pure_ok.mp h)
    exact ⟨(checkDecoded_ok.mp hsize).1, plan, result, hplan, himport, hskipped, rfl⟩
  · rintro ⟨hsize, plan, result, hplan, himport, hskipped, rfl⟩
    refine ⟨(), checkDecoded_ok.mpr ⟨hsize, hasked.decoded⟩, Outcome.bind_ok.mpr ⟨part, ?_, ?_⟩⟩
    · rw [resolvePart, Outcome.orRaise_ok, hasked.byText]
    · refine Outcome.bind_ok.mpr ⟨plan, hplan, Outcome.bind_ok.mpr ⟨_, himport, ?_⟩⟩
      exact Outcome.bind_ok.mpr ⟨[], skippedNames_ok.mpr ⟨hskipped, rfl⟩, rfl⟩

theorem importPlan_open (hopen : assertCategory ctx w.library categoryId true = .ok ()) :
    (importPlan env.toEnv ctx plan categoryId w.library).map resultView =
      (importPlan env.toEnv ctx plan none w.library).map resultView := by
  rw [importPlan_uncategorised hopen, importPlan_uncategorised rfl]

theorem importPlan_closed {result : ImportResult × State}
    (h : importPlan env.toEnv ctx plan categoryId w.library = .ok result) :
    assertCategory ctx w.library categoryId true = .ok () := by
  obtain ⟨_, hopen, -⟩ := Outcome.bind_ok.mp h
  exact hopen

theorem narrowToPart_single {plan kept : ImportPlan} {hints : List Text}
    (h : narrowToPart env.toEnv plan hints = .ok kept) :
    kept.footprints.length ≤ 1 ∧ kept.symbols.length ≤ 1 := by
  obtain ⟨symbol, -, h⟩ := Outcome.bind_ok.mp h
  obtain ⟨footprint, -, h⟩ := Outcome.bind_ok.mp h
  rw [← Outcome.pure_ok.mp h]
  exact ⟨Option.length_toList_le, Option.length_toList_le⟩

theorem planForPart_single {hints : List Text} (h : planForPart env file.content hints = .ok plan) :
    plan.footprints.length ≤ 1 ∧ plan.symbols.length ≤ 1 := by
  obtain ⟨whole, -, h⟩ := Outcome.bind_ok.mp h
  exact narrowToPart_single (Outcome.mapError_ok.mp h)

/-- The part is in no category or an active one, and nothing of the archive is left out. -/
structure FiledOpenly (env : ArchiveEnv) (ctx : Ctx) (part : Kicad.Part) (file : ArchiveFile)
    (s : State) : Prop where
  category : assertCategory ctx s part.categoryId true = .ok ()
  whole : ∀ plan, planForPart env file.content (partHints part) = .ok plan →
    FiledWhole env.toEnv ctx.workspaceId s plan

theorem importVendorZip_iff (hasked : Asked env ctx part idOrMpn filename file w) :
    (∃ result, importVendorZip env ctx idOrMpn file overwrite w = .ok result) ↔
      (∃ result, importPartArchive env ctx part.id filename file none overwrite w = .ok result) ∧
        FiledOpenly env ctx part file w.library := by
  constructor
  · rintro ⟨⟨reply, after⟩, htool⟩
    obtain ⟨hsize, plan, result, hplan, himport, hskipped, -⟩ :=
      (importVendorZip_ok hasked).mp htool
    obtain ⟨himported, hparts, hwired⟩ := importForPart_ok.mp himport
    have hopen := importPlan_closed himported
    obtain ⟨⟨result', library'⟩, hother⟩ :=
      (Outcome.exists_ok_of_map_eq (importPlan_open hopen)).mp ⟨_, himported⟩
    obtain ⟨wired, after', hrest⟩ := @importForPart_of_plan env ctx part overwrite w plan none
      result' library' hother
    refine ⟨?_, hopen, fun plan' hplan' => ?_⟩
    · exact ⟨(_, after'), (importPartArchive_ok hasked).mpr ⟨hsize, plan, _, hplan, hrest, rfl⟩⟩
    · obtain rfl := Outcome.ok_unique hplan hplan'
      obtain ⟨hfootprints, hsymbols⟩ := planForPart_single hplan
      exact (importPlan_skipped hfootprints hsymbols himported).mp hskipped
  · rintro ⟨⟨⟨reply, after⟩, hrest⟩, hopen, hwhole⟩
    obtain ⟨hsize, plan, result, hplan, himport, -⟩ := (importPartArchive_ok hasked).mp hrest
    obtain ⟨himported, hparts, hwired⟩ := importForPart_ok.mp himport
    obtain ⟨⟨result', library'⟩, hother⟩ :=
      (Outcome.exists_ok_of_map_eq (importPlan_open hopen)).mpr ⟨_, himported⟩
    obtain ⟨hfootprints, hsymbols⟩ := planForPart_single hplan
    have hskipped := (importPlan_skipped hfootprints hsymbols hother).mpr (hwhole plan hplan)
    obtain ⟨wired, after', htool⟩ := @importForPart_of_plan env ctx part overwrite w plan
      part.categoryId result' library' hother
    exact ⟨(_, after'), (importVendorZip_ok hasked).mpr ⟨hsize, plan, _, hplan, htool, hskipped,
      rfl⟩⟩

theorem imports_same (hasked : Asked env ctx part idOrMpn filename file w) {reply : ToolReply}
    {reply' : ImportReply} {after after' : World}
    (htool : importVendorZip env ctx idOrMpn file overwrite w = .ok (reply, after))
    (hrest : importPartArchive env ctx part.id filename file none overwrite w =
      .ok (reply', after')) :
    after.library.uncategorised = after'.library.uncategorised ∧ after.parts = after'.parts ∧
      after.partEda = after'.partEda ∧
      reply.skipped = reply'.skipped.map fun note => (note.filename, note.reason) := by
  obtain ⟨-, plan, result, hplan, himport, hskipped, rfl⟩ := (importVendorZip_ok hasked).mp htool
  obtain ⟨-, plan', result', hplan', himport', rfl⟩ := (importPartArchive_ok hasked).mp hrest
  obtain rfl := Outcome.ok_unique hplan hplan'
  obtain ⟨himported, hparts, hwired⟩ := importForPart_ok.mp himport
  obtain ⟨himported', hparts', hwired'⟩ := importForPart_ok.mp himport'
  have hview := Outcome.map_eq_ok (importPlan_open (importPlan_closed himported)) himported
    himported'
  obtain ⟨hresult, hlibrary⟩ := Prod.mk.inj hview
  simp only at hresult hlibrary
  rw [hresult, ← hwired'] at hwired
  refine ⟨hlibrary, hparts.trans hparts'.symm, (Prod.mk.inj hwired).1, ?_⟩
  rw [← hresult, hskipped]
  rfl

/-- The doors do the same just where the route refuses the archive, or the part's category is
open and nothing of the archive is left out. -/
theorem importsAlike_iff (hasked : Asked env ctx part idOrMpn filename file w) :
    ImportsAlike env ctx part idOrMpn filename file overwrite w ↔
      ((∃ result, importPartArchive env ctx part.id filename file none overwrite w = .ok result) →
        FiledOpenly env ctx part file w.library) := by
  have htool := @importVendorZip_iff env ctx part idOrMpn filename file overwrite w hasked
  constructor
  · exact fun halike hrest => (htool.mp (halike.accepts.mpr hrest)).2
  · intro hcond
    refine ⟨htool.trans ⟨And.left, fun hrest => ⟨hrest, hcond hrest⟩⟩, ?_⟩
    exact fun reply after reply' after' h h' => imports_same hasked h h'

end Doors

theorem neutralName_none (env : ArchiveEnv) (file : ArchiveFile) (part : Kicad.Part) :
    NeutralName env file part none := by
  intro plan _
  have hblank : archiveStem none = [] := by decide
  have hhints : foldedHints env.toEnv (archiveStem none :: partHints part) =
      foldedHints env.toEnv (partHints part) := by
    rw [hblank, foldedHints, List.filter_cons_of_neg (by simp)]
    rfl
  simp only [narrowToPart, pickSymbol, pickFootprint, hhints]

/-- A resistor in the category. -/
def filedPart (categoryId : Option Uuid) : Kicad.Part :=
  ⟨20, 1, "R0603", categoryId, none, none, none, none, none⟩

def filedWorld (categoryId : Option Uuid) : World where
  library := { sampleState with categories := [
    ⟨5, 1, "Open".toList, "open".toList, none, none, none⟩,
    ⟨6, 1, "Closed".toList, "closed".toList, none, none, some 0⟩] }
  parts := [filedPart categoryId]
  partEda := []

theorem filedPart_asked (categoryId : Option Uuid) (members : List Member) :
    Asked asciiArchiveEnv (sampleCtx 40) (filedPart categoryId) (.id 20) none
      ⟨300, .ok members⟩ (filedWorld categoryId) where
  byId := rfl
  byText := rfl
  decoded := show 300 ≤ maxDecodedBytes by decide
  uploaded := show 300 ≤ 25 * mib by decide
  neutral := neutralName_none _ _ _

/-- A shape and a list of parts that no importer reads. -/
def notedArchive : ArchiveFile :=
  ⟨300, .ok [shapeModel, textMember "readme.txt" "by hand" (by decide)]⟩

/-- The tool and the route, of the part under the category. -/
def toolTakes (categoryId : Option Uuid) (file : ArchiveFile) : Bool :=
  (importVendorZip asciiArchiveEnv (sampleCtx 40) (.id 20) file false
    (filedWorld categoryId)).toOption.isSome

def routeTakes (categoryId : Option Uuid) (file : ArchiveFile) : Bool :=
  (importPartArchive asciiArchiveEnv (sampleCtx 40) 20 none file none false
    (filedWorld categoryId)).toOption.isSome

/-- A readme in the archive, or an archived category, and the tool refuses what the route takes. -/
theorem imports_differ :
    (toolTakes (some 5) notedArchive = false ∧ routeTakes (some 5) notedArchive = true ∧
      ¬ImportsAlike asciiArchiveEnv (sampleCtx 40) (filedPart (some 5)) (.id 20) none notedArchive
        false (filedWorld (some 5))) ∧
    (toolTakes (some 6) shapeArchive = false ∧ routeTakes (some 6) shapeArchive = true ∧
      ¬ImportsAlike asciiArchiveEnv (sampleCtx 40) (filedPart (some 6)) (.id 20) none shapeArchive
        false (filedWorld (some 6))) := by
  have hdiffer : ∀ categoryId file, toolTakes categoryId file = false →
      routeTakes categoryId file = true →
        ¬ImportsAlike asciiArchiveEnv (sampleCtx 40) (filedPart categoryId) (.id 20) none file
          false (filedWorld categoryId) := by
    intro categoryId file htool hroute halike
    obtain ⟨result, hresult⟩ := halike.accepts.mpr (Outcome.exists_ok hroute)
    rw [toolTakes, hresult] at htool
    cases htool
  have hnoted : toolTakes (some 5) notedArchive = false ∧
      routeTakes (some 5) notedArchive = true := by decide +kernel
  have hclosed : toolTakes (some 6) shapeArchive = false ∧
      routeTakes (some 6) shapeArchive = true := by decide +kernel
  exact ⟨⟨hnoted.1, hnoted.2, hdiffer _ _ hnoted.1 hnoted.2⟩,
    ⟨hclosed.1, hclosed.2, hdiffer _ _ hclosed.1 hclosed.2⟩⟩

theorem shapeArchive_whole : FiledOpenly asciiArchiveEnv (sampleCtx 40) (filedPart (some 5))
    shapeArchive (filedWorld (some 5)).library := by
  refine ⟨rfl, fun plan hplan => ?_⟩
  have hread : (planForPart asciiArchiveEnv shapeArchive.content
      (partHints (filedPart (some 5)))).toOption.any (fun plan => decide (
        plan.symbols.length = 0 ∧ plan.footprints.length = 0 ∧ plan.skipped.length = 0 ∧
        plan.datafiles.all fun file =>
          (validatedDatafile file.kind file.data).toOption.isSome)) = true := by decide
  obtain ⟨plan', hplan', hfields⟩ := exists_of_any hread
  obtain rfl := Outcome.ok_unique hplan hplan'
  obtain ⟨hsymbols, hfootprints, hskipped, hdatafiles⟩ := of_decide_eq_true hfields
  rw [List.length_eq_zero_iff] at hsymbols hfootprints hskipped
  refine ⟨hskipped, fun file hfile => ?_, ?_, ?_, ?_⟩
  · exact Outcome.exists_ok (List.all_eq_true.mp hdatafiles file hfile)
  · rw [hfootprints]
    exact List.forall_mem_nil _
  · rw [hfootprints]
    exact List.forall_mem_nil _
  · rw [hsymbols]
    exact List.forall_mem_nil _

theorem importsAlike_shape :
    ImportsAlike asciiArchiveEnv (sampleCtx 40) (filedPart (some 5)) (.id 20) none shapeArchive
        false (filedWorld (some 5)) ∧ toolTakes (some 5) shapeArchive = true :=
  ⟨(importsAlike_iff (filedPart_asked (some 5) _)).mpr fun _ => shapeArchive_whole,
    by decide +kernel⟩

end StockManager.Eda
