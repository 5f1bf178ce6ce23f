import StockManager.Effects.ArchiveSteps
import StockManager.Effects.SexprNames

/-! # The turns of the archive walk

A turn ends in a collector that accounts for its member, unless all it could read has no name. -/

namespace StockManager.Eda

open Sexpr (Text)

variable {env : ArchiveEnv} {member : Member} {col col' : Collector}

/-- A symbol library read whole that names none of its entries; one without entries too. -/
def SilentSymbols (env : ArchiveEnv) (member : Member) (col : Collector) : Prop :=
  ∃ text found, ReadText env .symbol member col text ∧ Sexpr.entries text = .ok found ∧
    found.length ≤ col.room ∧ ∀ entry ∈ found, entry.1 = []

/-- A footprint whose name is empty. -/
def SilentFootprint (env : ArchiveEnv) (member : Member) (col : Collector) : Prop :=
  ∃ text node, ReadText env .footprint member col text ∧ readFootprint text = .ok ([], node)

def Silent (env : ArchiveEnv) (member : Member) (col : Collector) : Prop :=
  0 < col.room ∧ ((memberClass env member = some .symbols ∧ SilentSymbols env member col) ∨
    (memberClass env member = some .footprint ∧ SilentFootprint env member col))

/-- The cap under which a member is read. -/
def readCap (env : ArchiveEnv) (member : Member) : Option ℕ :=
  (memberClass env member).map fun
    | .symbols => maxBytesFor env.toEnv .symbol
    | .footprint => maxBytesFor env.toEnv .footprint
    | .datafile => maxBytesFor env.toEnv (.data (datafileKind env member))
    | .maybeSpice => maxBytesFor env.toEnv (.data .spice)

/-- Reading comes to an exception that `_read_member` does not catch. -/
def Faulty (env : ArchiveEnv) (member : Member) (col : Collector) : Prop :=
  0 < col.room ∧ ∃ cap ∈ readCap env member, ReadsThrough cap member col ∧
    ∃ f ∈ member.fault, f.caught = false

theorem collectSymbols_turned (hcol : col.Sound)
    (h : collectSymbols env member col = .ok col') :
    Turned (SilentSymbols env member col) (memberBasename member.filename) col col' := by
  obtain ⟨⟨text, read⟩, hread, h⟩ := Outcome.bind_ok.mp h
  obtain ⟨hsound, ⟨rfl, hnoted⟩ | ⟨text, rfl, htext, hkept⟩⟩ := readTextMember_ok hcol hread
  · cases h
    exact ⟨hsound, hnoted.accounted.1, .inl hnoted.accounted.2⟩
  · simp only at h
    cases hentries : Sexpr.entries text with
    | error e =>
      simp only [hentries] at h
      cases h
      exact turned_skip hsound hkept _
    | ok found =>
      simp only [hentries] at h
      cases h
      have hroom : read.room = col.room := by rw [Collector.room, hkept.held, Collector.room]
      have hfits : read.held + (found.take read.room).length ≤ maxEntries := by
        have := hsound.held
        have := List.length_take_le read.room found
        unfold Collector.room at *
        omega
      have hadded := addSymbols_sound (memberBasename member.filename) hsound hfits
      obtain ⟨hsymbols, hfootprints, hdatafiles, hskipped, hdropped⟩ :=
        addSymbols_fields (memberBasename member.filename) (found.take read.room) read
      have hextends : read.Extends
          (addSymbols (memberBasename member.filename) (found.take read.room) read) :=
        ⟨hsymbols ▸ List.prefix_append _ _, by rw [hfootprints], by rw [hdatafiles],
          by rw [hskipped], hdropped.ge⟩
      by_cases hmore : read.room < found.length
      · rw [if_pos hmore]
        refine ⟨Collector.sound_skip hadded _ _, (hkept.extends.trans hextends).trans
          (Collector.skip_extends _ _ _), .inl (.inr (.inr (.inl ⟨skipEntryCap, ?_⟩)))⟩
        show (addSymbols _ _ read).skipped ++ _ = _
        rw [hskipped, hkept.skipped]
      · rw [if_neg hmore]
        have hlength : found.length ≤ read.room := Nat.le_of_not_lt hmore
        rw [List.take_of_length_le hlength] at hadded hextends hsymbols ⊢
        refine ⟨hadded, hkept.extends.trans hextends, ?_⟩
        by_cases hnone : ∀ entry ∈ found, entry.1 = []
        · exact .inr ⟨text, found, htext, hentries, hroom ▸ hlength, hnone⟩
        · push Not at hnone
          obtain ⟨entry, hmem, hname⟩ := hnone
          refine .inl (.inl ⟨_, ?_, ?_, .inl (hkept.symbols ▸ hsymbols)⟩)
          · have hfound : entry ∈ found.filter (·.1 ≠ []) :=
              List.mem_filter.mpr ⟨hmem, by simpa using hname⟩
            exact fun hempty => absurd (List.map_eq_nil_iff.mp hempty ▸ hfound) List.not_mem_nil
          · intro new hnew
            obtain ⟨_, -, rfl⟩ := List.mem_map.mp hnew
            rfl

theorem collectFootprint_turned (hcol : col.Sound) (hroom : 0 < col.room)
    (h : collectFootprint env member col = .ok col') :
    Turned (SilentFootprint env member col) (memberBasename member.filename) col col' := by
  obtain ⟨⟨text, read⟩, hread, h⟩ := Outcome.bind_ok.mp h
  obtain ⟨hsound, ⟨rfl, hnoted⟩ | ⟨text, rfl, htext, hkept⟩⟩ := readTextMember_ok hcol hread
  · cases h
    exact ⟨hsound, hnoted.accounted.1, .inl hnoted.accounted.2⟩
  · simp only at h
    cases hfootprint : readFootprint text with
    | error e =>
      simp only [hfootprint] at h
      cases h
      exact turned_skip hsound hkept _
    | ok parsed =>
      obtain ⟨entryName, node⟩ := parsed
      simp only [hfootprint] at h
      cases h
      by_cases hname : entryName = []
      · rw [if_pos hname]
        exact ⟨hsound, hkept.extends, .inr ⟨text, node, htext, hname ▸ hfootprint⟩⟩
      · rw [if_neg hname]
        have hheld : { read with footprints := read.footprints ++
            [(⟨entryName, node, memberBasename member.filename⟩ : ReadEntry)] }.held ≤ maxEntries := by
          have hlt := Collector.held_lt hroom
          have hsame := hkept.held
          simp only [Collector.held, List.length_append, List.length_singleton] at hsame hlt ⊢
          omega
        refine ⟨Collector.sound_of_held hsound rfl rfl hheld rfl, ?_, .inl (.inl ?_)⟩
        · exact hkept.extends.trans ⟨List.prefix_rfl, List.prefix_append _ _, List.prefix_rfl,
            List.prefix_rfl, le_rfl⟩
        · refine ⟨[⟨entryName, node, memberBasename member.filename⟩], by simp, by simp, .inr ?_⟩
          rw [← hkept.footprints]
          rfl

theorem collectDatafile_turned (hcol : col.Sound) (hroom : 0 < col.room)
    (h : collectDatafile env member col = .ok col') :
    Turned False (memberBasename member.filename) col col' := by
  obtain ⟨⟨raw, read⟩, hread, h⟩ := Outcome.bind_ok.mp h
  obtain ⟨hsound, hkept⟩ := readMember_ok hcol hread
  cases raw with
  | none =>
    cases h
    exact turned_skip hsound hkept _
  | some raw =>
    obtain rfl := Except.ok.inj h
    by_cases hstart : startsWith (expectedStart (datafileKind env member)) raw = true
    · rw [if_pos hstart]
      exact addDatafile_turned hsound hkept hroom rfl
    · rw [if_neg hstart]
      exact turned_skip hsound hkept _

theorem collectMaybeSpice_turned (hcol : col.Sound) (hroom : 0 < col.room)
    (h : collectMaybeSpice env member col = .ok col') :
    Turned False (memberBasename member.filename) col col' := by
  obtain ⟨⟨raw, read⟩, hread, h⟩ := Outcome.bind_ok.mp h
  obtain ⟨hsound, hkept⟩ := readMember_ok hcol hread
  cases raw with
  | none =>
    cases h
    exact turned_skip hsound hkept _
  | some raw =>
    simp only at h
    cases hsniffed : decode (raw.extract 0 sniffBytes) with
    | none =>
      simp only [hsniffed] at h
      cases h
      exact turned_skip hsound hkept _
    | some sniffed =>
      simp only [hsniffed] at h
      split at h
      · cases h
        have hturned : Turned False (memberBasename member.filename) col
            (read.skip (memberBasename member.filename) skipLegacySymbols) :=
          turned_skip hsound hkept _
        obtain ⟨hskip, hextends, haccounted⟩ := hturned
        exact ⟨⟨hskip.inflated, hskip.parsed, hskip.held, hskip.moments⟩,
          ⟨hextends.symbols, hextends.footprints, hextends.datafiles, hextends.skipped,
            hextends.droppedMembers⟩, haccounted⟩
      · split at h
        · cases h
          exact turned_skip hsound hkept _
        · split at h
          · cases h
            exact turned_skip hsound hkept _
          · split at h
            · cases h
              exact turned_skip hsound hkept _
            · cases h
              exact addDatafile_turned hsound hkept hroom rfl

theorem walkMember_turned (hcol : col.Sound) (h : walkMember env col member = .ok col') :
    Turned (Silent env member col) (memberBasename member.filename) col col' := by
  unfold walkMember at h
  split at h
  · cases h
    exact ⟨⟨hcol.inflated, hcol.parsed, hcol.held, hcol.moments⟩,
      ⟨List.prefix_rfl, List.prefix_rfl, List.prefix_rfl, List.prefix_rfl, Nat.le_succ _⟩,
      .inl (.inr (.inr (.inr rfl)))⟩
  · rename_i hroom
    have hroom : 0 < col.room := Nat.pos_of_ne_zero fun hzero => hroom (Nat.le_of_eq hzero)
    split at h
    · rename_i hclass
      obtain ⟨hsound, hextends, hended⟩ := collectSymbols_turned hcol h
      exact ⟨hsound, hextends, hended.imp_right fun hs => ⟨hroom, .inl ⟨hclass, hs⟩⟩⟩
    · rename_i hclass
      obtain ⟨hsound, hextends, hended⟩ := collectFootprint_turned hcol hroom h
      exact ⟨hsound, hextends, hended.imp_right fun hs => ⟨hroom, .inr ⟨hclass, hs⟩⟩⟩
    · obtain ⟨hsound, hextends, hended⟩ := collectDatafile_turned hcol hroom h
      exact ⟨hsound, hextends, hended.imp_right False.elim⟩
    · obtain ⟨hsound, hextends, hended⟩ := collectMaybeSpice_turned hcol hroom h
      exact ⟨hsound, hextends, hended.imp_right False.elim⟩
    · cases h
      exact turned_skip hcol (.refl col) _

theorem capped_error {cap : ℕ} {e : Raised} (hroom : 0 < col.room)
    (hcap : readCap env member = some cap)
    (h : col'.MomentsWithin ∧
      (e.is422 = true ∨ ReadsThrough cap member col ∧ ∃ f ∈ member.fault, f.caught = false)) :
    col'.MomentsWithin ∧ (e.is422 = true ∨ Faulty env member col) :=
  ⟨h.1, h.2.imp_right fun hthrough => ⟨hroom, _, hcap, hthrough⟩⟩

theorem walkMember_error (hcol : col.Sound) {e : Raised}
    (h : walkMember env col member = .error (e, col')) :
    col'.MomentsWithin ∧ (e.is422 = true ∨ Faulty env member col) := by
  unfold walkMember at h
  split at h
  · cases h
  · rename_i hroom
    have hroom : 0 < col.room := Nat.pos_of_ne_zero fun hzero => hroom (Nat.le_of_eq hzero)
    split at h
    · rename_i hclass
      rcases Outcome.bind_error h with hread | ⟨⟨text, read⟩, hread, hrest⟩
      · exact capped_error hroom (congrArg (Option.map _) hclass) (readTextMember_error hcol hread)
      · cases text with
        | none => cases hrest
        | some text =>
          simp only at hrest
          split at hrest <;> cases hrest
    · rename_i hclass
      rcases Outcome.bind_error h with hread | ⟨⟨text, read⟩, hread, hrest⟩
      · exact capped_error hroom (congrArg (Option.map _) hclass) (readTextMember_error hcol hread)
      · cases text with
        | none => cases hrest
        | some text =>
          simp only at hrest
          split at hrest <;> cases hrest
    · rename_i hclass
      rcases Outcome.bind_error h with hread | ⟨⟨raw, read⟩, hread, hrest⟩
      · exact capped_error hroom (congrArg (Option.map _) hclass) (readMember_error hcol hread)
      · cases raw <;> cases hrest
    · rename_i hclass
      rcases Outcome.bind_error h with hread | ⟨⟨raw, read⟩, hread, hrest⟩
      · exact capped_error hroom (congrArg (Option.map _) hclass) (readMember_error hcol hread)
      · cases raw with
        | none => cases hrest
        | some raw =>
          simp only at hrest
          repeat (split at hrest <;> try cases hrest)
    · cases h

theorem walkMember_faulty (h : Faulty env member col) :
    ∃ f col', walkMember env col member = .error (.fault f, col') := by
  obtain ⟨hroom, cap, hcap, hthrough, f, hfault, huncaught⟩ := h
  have hread : readMember cap member col =
      .error (.fault f, inflateAll member.chunks col) := readMember_fault hthrough hfault huncaught
  obtain ⟨kind, hclass, rfl⟩ := Option.map_eq_some_iff.mp hcap
  refine ⟨f, inflateAll member.chunks col, ?_⟩
  rw [walkMember, if_neg (Nat.not_le.mpr hroom), hclass]
  cases kind with
  | symbols => simp only [collectSymbols, readTextMember, hread, bind, Except.bind]
  | footprint => simp only [collectFootprint, readTextMember, hread, bind, Except.bind]
  | datafile => simp only [collectDatafile, hread, bind, Except.bind]
  | maybeSpice => simp only [collectMaybeSpice, hread, bind, Except.bind]

theorem walkMember_silent (h : Silent env member col) :
    ∃ col', walkMember env col member = .ok col' ∧ col.Kept col' := by
  obtain ⟨hroom, ⟨hclass, text, found, htext, hentries, hlength, hnone⟩ |
    ⟨hclass, text, node, htext, hfootprint⟩⟩ := h
  · obtain ⟨read, hread, hkept⟩ := readTextMember_of htext
    have hsame : read.room = col.room := by rw [Collector.room, hkept.held, Collector.room]
    have hempty : found.filter (·.1 ≠ []) = [] :=
      List.filter_eq_nil_iff.mpr fun entry hmem => by simpa using hnone entry hmem
    obtain ⟨hsymbols, hfootprints, hdatafiles, hskipped, hdropped⟩ :=
      addSymbols_fields (memberBasename member.filename) found read
    rw [hempty] at hsymbols
    refine ⟨addSymbols (memberBasename member.filename) found read, ?_, hkept.trans
      ⟨by simpa using hsymbols, hfootprints, hdatafiles, hskipped, hdropped⟩⟩
    rw [walkMember, if_neg (Nat.not_le.mpr hroom), hclass]
    simp only [collectSymbols, hread, bind, Except.bind, hentries, hsame,
      List.take_of_length_le hlength, Nat.not_lt.mpr hlength, if_false]
  · obtain ⟨read, hread, hkept⟩ := readTextMember_of htext
    refine ⟨read, ?_, hkept⟩
    rw [walkMember, if_neg (Nat.not_le.mpr hroom), hclass]
    simp only [collectFootprint, hread, bind, Except.bind, hfootprint, if_true]

end StockManager.Eda

/-! ## What the entries of a read archive are -/

namespace StockManager.Eda

open Sexpr (Text Node)

/-- A symbol or footprint as the importer takes it. -/
structure EntryRead (roots : List Text) (entry : ReadEntry) : Prop where
  named : Sexpr.entryName entry.node = .ok entry.name
  nonempty : entry.name ≠ []
  parsed : ∃ text root, Sexpr.parse text = .ok root ∧
    (entry.node = root ∨ Sexpr.Item.node entry.node ∈ root)
  headed : ∃ root ∈ Sexpr.head entry.node, root ∈ roots

/-- The extensions a 3D file of the kind may have; a SPICE file's are left open. -/
def kindExtensions : DatafileKind → List Text
  | .step => ["step".toList, "stp".toList]
  | .wrl => ["wrl".toList, "vrml".toList]
  | .spice => []

/-- A data file has one of the names, a 3D file's with an extension of its kind. -/
structure FileRead (env : ArchiveEnv) (names : Text → Prop) (file : PendingDatafile) : Prop where
  name : names file.name
  kind : file.kind = .spice ∨ memberExtension env file.name ∈ kindExtensions file.kind

structure Collector.Offers (env : ArchiveEnv) (names : Text → Prop) (col : Collector) : Prop where
  symbols : ∀ entry ∈ col.symbols, EntryRead [Sexpr.symbolRoot] entry
  footprints : ∀ entry ∈ col.footprints, EntryRead Sexpr.footprintRoots entry
  datafiles : ∀ file ∈ col.datafiles, FileRead env names file

theorem Collector.offers_empty (env : ArchiveEnv) (names : Text → Prop) :
    Collector.empty.Offers env names :=
  ⟨fun _ h => absurd h List.not_mem_nil, fun _ h => absurd h List.not_mem_nil,
    fun _ h => absurd h List.not_mem_nil⟩

section Offers

variable {env : ArchiveEnv} {names : Text → Prop} {col col' : Collector} {member : Member}

theorem Collector.Offers.kept (h : col.Offers env names) (hkept : col.Kept col') :
    col'.Offers env names :=
  ⟨hkept.symbols ▸ h.symbols, hkept.footprints ▸ h.footprints, hkept.datafiles ▸ h.datafiles⟩

theorem Collector.Offers.skip (h : col.Offers env names) (name : Text) (reason : String) :
    (col.skip name reason).Offers env names := ⟨h.symbols, h.footprints, h.datafiles⟩

theorem Collector.Offers.noted {name : Text} (h : col.Offers env names)
    (hnoted : Noted name col col') : col'.Offers env names := by
  obtain ⟨base, reason, hkept, rfl⟩ := hnoted
  exact (h.kept hkept).skip name reason

theorem Collector.Offers.addDatafile (h : col.Offers env names) {file : PendingDatafile}
    (hfile : FileRead env names file) : (col.addDatafile file).Offers env names := by
  refine ⟨h.symbols, h.footprints, fun other hother => ?_⟩
  rcases List.mem_append.mp hother with hold | hnew
  · exact h.datafiles other hold
  · rw [List.mem_singleton.mp hnew]
    exact hfile

theorem entries_parsed {text : Text} {found : List (Text × Node)}
    (h : Sexpr.entries text = .ok found) {name : Text} {node : Node} (hmem : (name, node) ∈ found) :
    ∃ root, Sexpr.parse text = .ok root ∧ (node = root ∨ Sexpr.Item.node node ∈ root) := by
  rw [Sexpr.entries, Outcome.bind_ok] at h
  obtain ⟨root, hroot, h⟩ := h
  refine ⟨root, hroot, ?_⟩
  unfold Sexpr.rootEntries at h
  split at h
  next =>
    obtain ⟨hin, -⟩ := Sexpr.mem_of_mapM_named h hmem
    exact .inr (List.mem_of_mem_tail (Sexpr.mem_symbolChildren.mp hin).1)
  next =>
    split at h
    next =>
      obtain ⟨entry, hentry, hret⟩ := Outcome.bind_ok.mp h
      obtain rfl := Outcome.pure_ok.mp hret
      obtain rfl := List.mem_singleton.mp hmem
      rw [Sexpr.named, Outcome.bind_ok] at hentry
      obtain ⟨rootName, -, hret⟩ := hentry
      exact .inl (Prod.mk.inj (Outcome.pure_ok.mp hret)).2.symm
    next => cases h

theorem collectSymbols_offers (hcol : col.Sound) (h : col.Offers env names)
    (hok : collectSymbols env member col = .ok col') : col'.Offers env names := by
  obtain ⟨⟨text, read⟩, hread, hok⟩ := Outcome.bind_ok.mp hok
  obtain ⟨-, ⟨rfl, hnoted⟩ | ⟨text, rfl, -, hkept⟩⟩ := readTextMember_ok hcol hread
  · cases hok
    exact h.noted hnoted
  · simp only at hok
    cases hentries : Sexpr.entries text with
    | error e =>
      simp only [hentries] at hok
      cases hok
      exact (h.kept hkept).skip _ _
    | ok found =>
      simp only [hentries] at hok
      cases hok
      have hread' := h.kept hkept
      obtain ⟨hsymbols, hfootprints, hdatafiles, -, -⟩ :=
        addSymbols_fields (memberBasename member.filename) (found.take read.room) read
      have hadded : (addSymbols (memberBasename member.filename) (found.take read.room) read).Offers
          env names := by
        refine ⟨?_, hfootprints ▸ hread'.footprints, hdatafiles ▸ hread'.datafiles⟩
        rw [hsymbols]
        intro entry hentry
        rcases List.mem_append.mp hentry with hold | hnew
        · exact hread'.symbols entry hold
        · obtain ⟨⟨name, node⟩, hmem, rfl⟩ := List.mem_map.mp hnew
          obtain ⟨hmem, hname⟩ := List.mem_filter.mp hmem
          have hmem := List.mem_of_mem_take hmem
          obtain ⟨hnamed, hhead, -⟩ := Sexpr.entries_mem hentries hmem
          obtain ⟨root, hroot, hin⟩ := entries_parsed hentries hmem
          exact ⟨hnamed, by simpa using hname, ⟨text, root, hroot, hin⟩,
            ⟨Sexpr.symbolRoot, hhead, List.mem_singleton.mpr rfl⟩⟩
      split
      · exact hadded.skip _ _
      · exact hadded

theorem collectFootprint_offers (hcol : col.Sound) (h : col.Offers env names)
    (hok : collectFootprint env member col = .ok col') : col'.Offers env names := by
  obtain ⟨⟨text, read⟩, hread, hok⟩ := Outcome.bind_ok.mp hok
  obtain ⟨-, ⟨rfl, hnoted⟩ | ⟨text, rfl, -, hkept⟩⟩ := readTextMember_ok hcol hread
  · cases hok
    exact h.noted hnoted
  · simp only at hok
    have hread' := h.kept hkept
    cases hfootprint : readFootprint text with
    | error e =>
      simp only [hfootprint] at hok
      cases hok
      exact hread'.skip _ _
    | ok parsed =>
      obtain ⟨name, node⟩ := parsed
      simp only [hfootprint] at hok
      cases hok
      split
      · exact hread'
      · rename_i hname
        obtain ⟨root, hroot, hfootprint⟩ := Outcome.bind_ok.mp hfootprint
        obtain ⟨_, hhead, hfootprint⟩ := Outcome.bind_ok.mp hfootprint
        obtain ⟨rootName, hnamed, hret⟩ := Outcome.bind_ok.mp hfootprint
        obtain ⟨rfl, rfl⟩ := Prod.mk.inj (Outcome.pure_ok.mp hret)
        refine ⟨hread'.symbols, ?_, hread'.datafiles⟩
        intro entry hentry
        rcases List.mem_append.mp hentry with hold | hnew
        · exact hread'.footprints entry hold
        · rw [List.mem_singleton.mp hnew]
          exact ⟨hnamed, hname, ⟨text, _, hroot, .inl rfl⟩, Outcome.check_ok.mp hhead⟩

theorem not_mem_afterLast (separator : Char) (text : Text) :
    separator ∉ afterLast separator text := by
  intro hmem
  have hkept := List.mem_takeWhile_imp (List.mem_reverse.mp hmem)
  simp at hkept

theorem afterLast_eq_self {separator : Char} {text : Text} (h : separator ∉ text) :
    afterLast separator text = text := by
  have hall : text.reverse.takeWhile (· ≠ separator) = text.reverse :=
    List.takeWhile_eq_self_iff.mpr fun c hc =>
      decide_eq_true fun heq => h (heq ▸ List.mem_reverse.mp hc)
  rw [afterLast, hall, List.reverse_reverse]

theorem afterLast_subset (separator : Char) (text : Text) : afterLast separator text ⊆ text := by
  intro c hc
  have hmem := List.mem_reverse.mp hc
  exact List.mem_reverse.mp ((List.takeWhile_sublist _).subset hmem)

theorem memberBasename_idem (name : Text) :
    memberBasename (memberBasename name) = memberBasename name := by
  have hslash : '\\' ∉ memberBasename name := by
    intro hmem
    obtain ⟨c, -, hc⟩ := List.mem_map.mp (afterLast_subset _ _ hmem)
    split at hc
    · cases hc
    · exact absurd hc ‹_›
  have hslashed : slashed (memberBasename name) = memberBasename name := by
    refine (List.map_congr_left fun c hc => if_neg fun heq => ?_).trans (List.map_id _)
    exact hslash (heq ▸ hc)
  rw [memberBasename, hslashed]
  exact afterLast_eq_self (not_mem_afterLast '/' _)

theorem memberExtension_basename (name : Text) :
    memberExtension env (memberBasename name) = memberExtension env name := by
  rw [memberExtension, memberExtension, memberBasename_idem]

theorem memberClass_datafile (h : memberClass env member = some .datafile) :
    memberExtension env member.filename ∈ ["step", "stp", "wrl", "vrml"].map String.toList := by
  unfold memberClass at h
  simp only at h
  split at h
  · cases h
  · split at h
    · cases h
    · split at h
      · assumption
      · split at h <;> cases h

theorem collectDatafile_offers (hname : names (memberBasename member.filename)) (hcol : col.Sound)
    (h : col.Offers env names)
    (hclass : memberClass env member = some .datafile)
    (hok : collectDatafile env member col = .ok col') : col'.Offers env names := by
  obtain ⟨⟨raw, read⟩, hread, hok⟩ := Outcome.bind_ok.mp hok
  have hread' := h.kept (readMember_ok hcol hread).2
  cases raw with
  | none =>
    cases hok
    exact hread'.skip _ _
  | some raw =>
    obtain rfl := Except.ok.inj hok
    split
    · refine hread'.addDatafile ⟨hname, .inr ?_⟩
      show memberExtension env (memberBasename member.filename) ∈
        kindExtensions (datafileKind env member)
      unfold datafileKind
      split
      · assumption
      · rename_i hstep
        rw [memberExtension_basename] at hstep ⊢
        have hfour : memberExtension env member.filename ∈
            ["step".toList, "stp".toList] ++ ["wrl".toList, "vrml".toList] :=
          memberClass_datafile hclass
        exact (List.mem_append.mp hfour).resolve_left hstep
    · exact hread'.skip _ _

theorem collectMaybeSpice_offers (hname : names (memberBasename member.filename)) (hcol : col.Sound)
    (h : col.Offers env names)
    (hok : collectMaybeSpice env member col = .ok col') : col'.Offers env names := by
  obtain ⟨⟨raw, read⟩, hread, hok⟩ := Outcome.bind_ok.mp hok
  have hread' := h.kept (readMember_ok hcol hread).2
  cases raw with
  | none =>
    cases hok
    exact hread'.skip _ _
  | some raw =>
    simp only at hok
    cases hsniffed : decode (raw.extract 0 sniffBytes) with
    | none =>
      simp only [hsniffed] at hok
      cases hok
      exact hread'.skip _ _
    | some sniffed =>
      simp only [hsniffed] at hok
      split at hok
      · cases hok
        exact ⟨hread'.symbols, hread'.footprints, hread'.datafiles⟩
      · split at hok
        · cases hok
          exact hread'.skip _ _
        · split at hok
          · cases hok
            exact hread'.skip _ _
          · split at hok
            · cases hok
              exact hread'.skip _ _
            · cases hok
              exact hread'.addDatafile ⟨hname, .inl rfl⟩

theorem walkMember_offers (hname : names (memberBasename member.filename)) (hcol : col.Sound)
    (h : col.Offers env names)
    (hok : walkMember env col member = .ok col') : col'.Offers env names := by
  unfold walkMember at hok
  split at hok
  · cases hok
    exact ⟨h.symbols, h.footprints, h.datafiles⟩
  · split at hok
    · exact collectSymbols_offers hcol h hok
    · exact collectFootprint_offers hcol h hok
    · rename_i hclass
      exact collectDatafile_offers hname hcol h hclass hok
    · exact collectMaybeSpice_offers hname hcol h hok
    · cases hok
      exact h.skip _ _

theorem walkMembers_offers {members : List Member}
    (hnames : ∀ member ∈ members, names (memberBasename member.filename)) (hcol : col.Sound)
    (h : col.Offers env names) (hok : walkMembers env members col = .ok col') :
    col'.Offers env names := by
  induction members generalizing col with
  | nil =>
    cases hok
    exact h
  | cons member after ih =>
    rw [List.forall_mem_cons] at hnames
    obtain ⟨mid, hmid, hrest⟩ := Outcome.bind_ok.mp hok
    exact ih hnames.2 (walkMember_turned hcol hmid).1 (walkMember_offers hnames.1 hcol h hmid) hrest

end Offers

/-- The base name of a member of the archive. -/
def IsMemberName (archive : VendorArchive) (name : Text) : Prop :=
  ∃ members, archive = .ok members ∧ ∃ member ∈ members, memberBasename member.filename = name

/-- What a plan that was read offers. -/
structure ReadPlan.Offers (env : ArchiveEnv) (archive : VendorArchive) (plan : ReadPlan) :
    Prop where
  symbols : ∀ entry ∈ plan.symbols, EntryRead [Sexpr.symbolRoot] entry
  footprints : ∀ entry ∈ plan.footprints, EntryRead Sexpr.footprintRoots entry
  datafiles : ∀ file ∈ plan.datafiles, FileRead env (IsMemberName archive) file

/-- What is read of an archive is named, headed and parsed as the importer takes it. -/
theorem readArchive_offers {env : ArchiveEnv} {archive : VendorArchive} {plan : ReadPlan}
    {col : Collector} (h : readArchive env archive = .ok (plan, col)) :
    plan.Offers env archive := by
  obtain ⟨members, hopen, h⟩ := Outcome.bind_ok.mp h
  obtain ⟨walked, hwalk, h⟩ := Outcome.bind_ok.mp h
  obtain ⟨-, h⟩ := Outcome.check_bind_ok.mp h
  obtain ⟨-, h⟩ := Outcome.check_bind_ok.mp h
  obtain ⟨rfl, -⟩ := Prod.mk.inj (Outcome.pure_ok.mp h)
  obtain ⟨all, hall, hopen⟩ := Outcome.bind_ok.mp hopen
  obtain ⟨-, hopen⟩ := Outcome.check_bind_ok.mp hopen
  obtain ⟨-, hopen⟩ := Outcome.check_bind_ok.mp hopen
  obtain rfl := Outcome.pure_ok.mp hopen
  have hnames : ∀ member ∈ all.filter (fun member => !isNoise member),
      IsMemberName archive (memberBasename member.filename) := fun member hmember =>
    ⟨all, Outcome.mapError_ok.mp hall, member, List.mem_of_mem_filter hmember, rfl⟩
  have hwalked := walkMembers_offers hnames Collector.sound_empty
    (Collector.offers_empty env (IsMemberName archive)) hwalk
  have hnoted : walked.noteDropped.Offers env (IsMemberName archive) := by
    unfold Collector.noteDropped
    split
    · exact hwalked
    · exact hwalked.skip _ _
  exact ⟨hnoted.symbols, hnoted.footprints, hnoted.datafiles⟩

def ReadEntry.pending {roots : List Text} (entry : ReadEntry) (h : EntryRead roots entry) :
    PendingEntry :=
  ⟨entry.name, entry.node, entry.filename, h.named, h.nonempty, h.parsed⟩

theorem EntryRead.symbol {entry : ReadEntry} (h : EntryRead [Sexpr.symbolRoot] entry) :
    Sexpr.head entry.node = some Sexpr.symbolRoot := by
  obtain ⟨root, hroot, hmem⟩ := h.headed
  rw [List.mem_singleton.mp hmem] at hroot
  exact hroot

def ReadPlan.pending {env : ArchiveEnv} {archive : VendorArchive} (plan : ReadPlan)
    (h : plan.Offers env archive) : ImportPlan where
  symbols := plan.symbols.attach.map fun entry =>
    ⟨entry.val.pending (h.symbols entry.val entry.property),
      (h.symbols entry.val entry.property).symbol⟩
  footprints := plan.footprints.attach.map fun entry =>
    ⟨entry.val.pending (h.footprints entry.val entry.property),
      (h.footprints entry.val entry.property).headed⟩
  datafiles := plan.datafiles
  skipped := plan.skipped

/-- `read_archive`, as the plan the importer takes. -/
def readPlan (env : ArchiveEnv) (archive : VendorArchive) : Except Raised ImportPlan :=
  match h : readArchive env archive with
  | .error e => .error e.1
  | .ok (plan, _) => .ok (plan.pending (readArchive_offers h))

theorem readPlan_ok {env : ArchiveEnv} {archive : VendorArchive} {plan : ImportPlan}
    (h : readPlan env archive = .ok plan) :
    ∃ (read : ReadPlan) (col : Collector) (hread : readArchive env archive = .ok (read, col)),
      plan = read.pending (readArchive_offers hread) := by
  unfold readPlan at h
  split at h
  · cases h
  · rename_i read col hread
    exact ⟨read, col, hread, (Except.ok.inj h).symm⟩

end StockManager.Eda
