import StockManager.Model.VendorZip

/-! # What one turn of the archive walk can do

Reading charges the budget and touches nothing else; what a turn adds comes from its member. -/

namespace StockManager.Eda

open Sexpr (Text)

variable {col' col : Collector} {name : Text} {count : ℕ} {e : Raised}

/-- Within the caps, but for the one chunk that was inflated before the total was looked at. -/
def Totals.Within (t : Totals) : Prop :=
  t.inflated ≤ maxUncompressedBytes + chunkBytes ∧ t.parsed ≤ maxParsedTextBytes ∧
    t.held ≤ maxEntries

def Collector.MomentsWithin (col : Collector) : Prop := ∀ t ∈ col.moments, t.Within

structure Collector.Sound (col : Collector) : Prop where
  inflated : col.inflated ≤ maxUncompressedBytes
  parsed : col.parsed ≤ maxParsedTextBytes
  held : col.held ≤ maxEntries
  moments : col.MomentsWithin

theorem Collector.sound_empty : Collector.empty.Sound :=
  ⟨Nat.zero_le _, Nat.zero_le _, Nat.zero_le _, fun _ h => absurd h List.not_mem_nil⟩

theorem Collector.momentsWithin_record (h : col.MomentsWithin)
    (hnow : Totals.Within ⟨col.inflated, col.parsed, col.held⟩) : col.record.MomentsWithin := by
  intro t ht
  rcases List.mem_append.mp ht with ht | ht
  · exact h t ht
  · rw [List.mem_singleton.mp ht]
    exact hnow

/-- Nothing that was gathered has changed. -/
structure Collector.Kept (col col' : Collector) : Prop where
  symbols : col'.symbols = col.symbols
  footprints : col'.footprints = col.footprints
  datafiles : col'.datafiles = col.datafiles
  skipped : col'.skipped = col.skipped
  droppedMembers : col'.droppedMembers = col.droppedMembers

theorem Collector.Kept.refl (col : Collector) : col.Kept col := ⟨rfl, rfl, rfl, rfl, rfl⟩

theorem Collector.Kept.trans {a b c : Collector} (h : a.Kept b) (h' : b.Kept c) : a.Kept c :=
  ⟨h'.symbols.trans h.symbols, h'.footprints.trans h.footprints,
    h'.datafiles.trans h.datafiles, h'.skipped.trans h.skipped,
    h'.droppedMembers.trans h.droppedMembers⟩

theorem Collector.kept_inflate (col : Collector) (count : ℕ) : col.Kept (col.inflate count) :=
  ⟨rfl, rfl, rfl, rfl, rfl⟩

theorem Collector.Kept.held (h : col.Kept col') : col'.held = col.held := by
  simp only [Collector.held, h.symbols, h.footprints, h.datafiles]

theorem Collector.inflate_within (h : col.Sound)
    (hcount : count ≤ chunkBytes) : (col.inflate count).MomentsWithin := by
  refine Collector.momentsWithin_record h.moments ⟨?_, h.parsed, h.held⟩
  have := h.inflated
  show col.inflated + count ≤ _
  omega

theorem Collector.inflate_sound (h : col.Sound)
    (hcount : count ≤ chunkBytes) (hfits : (col.inflate count).inflated ≤ maxUncompressedBytes) :
    (col.inflate count).Sound :=
  ⟨hfits, h.parsed, h.held, Collector.inflate_within h hcount⟩

/-- The bytes of the chunks, one after the other. -/
def joined (chunks : List ByteArray) (out : ByteArray) : ByteArray := chunks.foldl (· ++ ·) out

def totalSize (chunks : List ByteArray) : ℕ := (chunks.map ByteArray.size).sum

def inflateAll (chunks : List ByteArray) (col : Collector) : Collector :=
  chunks.foldl (fun col chunk => col.inflate chunk.size) col

section Chunks

variable {cap : ℕ} {fault : Option ReaderFault} {chunks : List ByteArray} {out : ByteArray}
  {col : Collector}

theorem readChunks_ok_sound (hsound : col.Sound) (hchunks : ∀ c ∈ chunks, c.size ≤ chunkBytes)
    {raw : Option ByteArray}
    (h : readChunks cap fault chunks out col = .ok (raw, col')) :
    col'.Sound ∧ col.Kept col' := by
  induction chunks generalizing out col with
  | nil =>
    simp only [readChunks] at h
    split at h
    · cases h
      exact ⟨hsound, .refl _⟩
    · split at h
      · cases h
        exact ⟨hsound, .refl _⟩
      · cases h
  | cons chunk rest ih =>
    simp only [readChunks] at h
    split at h
    · cases h
    · rename_i hfits
      have hnext := Collector.inflate_sound hsound (hchunks chunk (by simp)) (Nat.le_of_not_lt hfits)
      split at h
      · cases h
        exact ⟨hnext, Collector.kept_inflate col _⟩
      · obtain ⟨hsound', hkept⟩ := ih hnext (fun c hc => hchunks c (by simp [hc])) h
        exact ⟨hsound', (Collector.kept_inflate col _).trans hkept⟩

theorem readChunks_error_within (hsound : col.Sound) (hchunks : ∀ c ∈ chunks, c.size ≤ chunkBytes)
    (h : readChunks cap fault chunks out col = .error (e, col')) : col'.MomentsWithin := by
  induction chunks generalizing out col with
  | nil =>
    simp only [readChunks] at h
    split at h
    · cases h
    · split at h
      · cases h
      · cases h
        exact hsound.moments
  | cons chunk rest ih =>
    have hchunk := hchunks chunk (by simp)
    simp only [readChunks] at h
    split at h
    · cases h
      exact Collector.inflate_within hsound hchunk
    · rename_i hfits
      split at h
      · cases h
      · exact ih (Collector.inflate_sound hsound hchunk (Nat.le_of_not_lt hfits))
          (fun c hc => hchunks c (by simp [hc])) h

theorem readChunks_fits (hcap : out.size + totalSize chunks ≤ cap)
    (hbudget : col.inflated + totalSize chunks ≤ maxUncompressedBytes) :
    readChunks cap fault chunks out col =
      readChunks cap fault [] (joined chunks out) (inflateAll chunks col) := by
  induction chunks generalizing out col with
  | nil => rfl
  | cons chunk rest ih =>
    have htotal : totalSize (chunk :: rest) = chunk.size + totalSize rest := rfl
    have hinflated : (col.inflate chunk.size).inflated = col.inflated + chunk.size := rfl
    have hsize : (out ++ chunk).size = out.size + chunk.size := ByteArray.size_append
    rw [readChunks]
    rw [if_neg (by omega), if_neg (by omega), ih (by omega) (by omega)]
    rfl

theorem readChunks_overflow (hover : out.size ≤ cap → col.inflated ≤ maxUncompressedBytes →
      ¬(out.size + totalSize chunks ≤ cap ∧
        col.inflated + totalSize chunks ≤ maxUncompressedBytes))
    (hout : out.size ≤ cap) (hcol : col.inflated ≤ maxUncompressedBytes) :
    (∃ col', readChunks cap fault chunks out col = .ok (none, col')) ∨
      ∃ col', readChunks cap fault chunks out col = .error (.rejected .understated, col') := by
  induction chunks generalizing out col with
  | nil =>
    have htotal : totalSize [] = 0 := rfl
    exact absurd ⟨by omega, by omega⟩ (hover hout hcol)
  | cons chunk rest ih =>
    have htotal : totalSize (chunk :: rest) = chunk.size + totalSize rest := rfl
    have hinflated : (col.inflate chunk.size).inflated = col.inflated + chunk.size := rfl
    have hsize : (out ++ chunk).size = out.size + chunk.size := ByteArray.size_append
    rw [readChunks]
    by_cases hbudget : maxUncompressedBytes < (col.inflate chunk.size).inflated
    · rw [if_pos hbudget]
      exact .inr ⟨_, rfl⟩
    · rw [if_neg hbudget]
      by_cases hcap : cap < (out ++ chunk).size
      · rw [if_pos hcap]
        exact .inl ⟨_, rfl⟩
      · rw [if_neg hcap]
        have hboth := hover hout hcol
        exact ih (fun _ _ h => hboth ⟨by omega, by omega⟩) (by omega) (by omega)

end Chunks

/-- Both caps let the member be read to its end, or to its exception. -/
def ReadsThrough (cap : ℕ) (member : Member) (col : Collector) : Prop :=
  member.fileSize ≤ cap ∧ totalSize member.chunks ≤ cap ∧
    col.inflated + totalSize member.chunks ≤ maxUncompressedBytes

def content (member : Member) : ByteArray := joined member.chunks ByteArray.empty

section Members

variable {cap : ℕ} {member : Member} {col : Collector}

theorem readMember_through (h : ReadsThrough cap member col) :
    readMember cap member col =
      readChunks cap member.fault [] (content member) (inflateAll member.chunks col) := by
  have hempty : ByteArray.empty.size = 0 := rfl
  rw [readMember, if_neg (Nat.not_lt.mpr h.1), content]
  exact readChunks_fits (by have := h.2.1; omega) h.2.2

theorem readMember_overflow (hcol : col.Sound) (h : ¬ReadsThrough cap member col) :
    (∃ col', readMember cap member col = .ok (none, col')) ∨
      ∃ col', readMember cap member col = .error (.rejected .understated, col') := by
  unfold readMember
  by_cases hsize : cap < member.fileSize
  · rw [if_pos hsize]
    exact .inl ⟨col, rfl⟩
  · rw [if_neg hsize]
    have hempty : ByteArray.empty.size = 0 := rfl
    refine readChunks_overflow (fun _ _ hfits => h ?_) (Nat.zero_le _) hcol.inflated
    exact ⟨Nat.le_of_not_lt hsize, by omega, hfits.2⟩

theorem readMember_some (hcol : col.Sound) {raw : ByteArray}
    (h : readMember cap member col = .ok (some raw, col')) :
    ReadsThrough cap member col ∧ member.fault = none ∧ raw = content member ∧
      col' = inflateAll member.chunks col := by
  by_cases hthrough : ReadsThrough cap member col
  · rw [readMember_through hthrough] at h
    cases hfault : member.fault with
    | none =>
      rw [hfault, readChunks] at h
      cases h
      exact ⟨hthrough, rfl, rfl, rfl⟩
    | some f =>
      rw [hfault, readChunks] at h
      cases f <;> cases h
  · rcases readMember_overflow hcol hthrough with ⟨_, heq⟩ | ⟨_, heq⟩ <;>
    · rw [heq] at h
      cases h

theorem readMember_fault (h : ReadsThrough cap member col) {f : ReaderFault}
    (hfault : member.fault = some f) (huncaught : f.caught = false) :
    readMember cap member col = .error (.fault f, inflateAll member.chunks col) := by
  rw [readMember_through h, hfault, readChunks, huncaught]
  rfl

theorem readMember_error (hcol : col.Sound) (h : readMember cap member col = .error (e, col')) :
    col'.MomentsWithin ∧ (e.is422 = true ∨
      ReadsThrough cap member col ∧ ∃ f ∈ member.fault, f.caught = false) := by
  constructor
  · unfold readMember at h
    split at h
    · cases h
    · exact readChunks_error_within hcol (fun c hc => (member.chunk_size c hc).2) h
  · by_cases hthrough : ReadsThrough cap member col
    · rw [readMember_through hthrough] at h
      cases hfault : member.fault with
      | none =>
        rw [hfault, readChunks] at h
        cases h
      | some f =>
        refine .inr ⟨hthrough, f, rfl, ?_⟩
        rw [hfault, readChunks] at h
        cases hcaught : f.caught with
        | false => rfl
        | true => simp [hcaught] at h
    · rcases readMember_overflow hcol hthrough with ⟨_, heq⟩ | ⟨_, heq⟩
      · rw [heq] at h
        cases h
      · rw [heq] at h
        cases h
        exact .inl rfl

theorem readMember_ok (hcol : col.Sound) {raw : Option ByteArray}
    (h : readMember cap member col = .ok (raw, col')) : col'.Sound ∧ col.Kept col' := by
  unfold readMember at h
  split at h
  · cases h
    exact ⟨hcol, .refl _⟩
  · exact readChunks_ok_sound hcol (fun c hc => (member.chunk_size c hc).2) h

end Members

theorem inflateAll_kept (chunks : List ByteArray) (col : Collector) :
    col.Kept (inflateAll chunks col) ∧ (inflateAll chunks col).parsed = col.parsed := by
  induction chunks generalizing col with
  | nil => exact ⟨.refl col, rfl⟩
  | cons chunk rest ih =>
    obtain ⟨hkept, hparsed⟩ := ih (col.inflate chunk.size)
    exact ⟨(Collector.kept_inflate col chunk.size).trans hkept, hparsed⟩

/-- The member is read, within the parse budget, and decoded. -/
def ReadText (env : ArchiveEnv) (kind : StorageKind) (member : Member) (col : Collector)
    (text : Text) : Prop :=
  ReadsThrough (maxBytesFor env.toEnv kind) member col ∧ member.fault = none ∧
    col.parsed + (content member).size ≤ maxParsedTextBytes ∧
    decodeText (content member) kind.str = .ok text

def Noted (name : Text) (col col' : Collector) : Prop :=
  ∃ base reason, col.Kept base ∧ col' = base.skip name reason

theorem Collector.sound_skip (h : col.Sound) (name : Text) (reason : String) :
    (col.skip name reason).Sound := ⟨h.inflated, h.parsed, h.held, h.moments⟩

theorem Collector.takeParse_some (hcol : col.Sound) (h : col.takeParse count = some col') :
    col.parsed + count ≤ maxParsedTextBytes ∧ col'.Sound ∧ col.Kept col' := by
  unfold Collector.takeParse at h
  split at h
  · cases h
  · rename_i hfits
    cases h
    have hparsed := Nat.le_of_not_lt hfits
    have hinflated : col.inflated ≤ maxUncompressedBytes + chunkBytes :=
      hcol.inflated.trans (Nat.le_add_right _ _)
    exact ⟨hparsed, ⟨hcol.inflated, hparsed, hcol.held,
      Collector.momentsWithin_record hcol.moments ⟨hinflated, hparsed, hcol.held⟩⟩,
      rfl, rfl, rfl, rfl, rfl⟩

theorem decodeText_is422 {raw : ByteArray} {kind : String} {e : EdaError}
    (h : decodeText raw kind = .error e) : (Raised.text e).is422 = true := by
  unfold decodeText at h
  by_cases hnul : 0 ∉ raw.data
  · rw [Outcome.check, if_pos hnul] at h
    cases hdecode : decode raw with
    | none =>
      rw [hdecode] at h
      cases h
      rfl
    | some text =>
      rw [hdecode] at h
      cases h
  · rw [Outcome.check, if_neg hnul] at h
    cases h
    rfl

section Texts

variable {env : ArchiveEnv} {kind : StorageKind} {member : Member} {col : Collector}

theorem readTextMember_ok (hcol : col.Sound) {text : Option Text}
    (h : readTextMember env kind member col = .ok (text, col')) :
    col'.Sound ∧ ((text = none ∧ Noted (memberBasename member.filename) col col') ∨
      ∃ t, text = some t ∧ ReadText env kind member col t ∧ col.Kept col') := by
  obtain ⟨⟨raw, read⟩, hread, h⟩ := Outcome.bind_ok.mp h
  obtain ⟨hsound, hkept⟩ := readMember_ok hcol hread
  cases raw with
  | none =>
    cases h
    exact ⟨Collector.sound_skip hsound _ _, .inl ⟨rfl, read, _, hkept, rfl⟩⟩
  | some raw =>
    obtain ⟨hthrough, hfault, rfl, rfl⟩ := readMember_some hcol hread
    simp only at h
    cases htake : (inflateAll member.chunks col).takeParse (content member).size with
    | none =>
      rw [htake] at h
      cases h
      exact ⟨Collector.sound_skip hsound _ _, .inl ⟨rfl, _, _, hkept, rfl⟩⟩
    | some taken =>
      rw [htake] at h
      obtain ⟨hparsed, hsound', hkept'⟩ := Collector.takeParse_some hsound htake
      rw [(inflateAll_kept member.chunks col).2] at hparsed
      cases hdecode : decodeText (content member) kind.str with
      | error e =>
        simp only [hdecode] at h
        cases h
      | ok decoded =>
        simp only [hdecode] at h
        cases h
        exact ⟨hsound', .inr ⟨_, rfl, ⟨hthrough, hfault, hparsed, hdecode⟩, hkept.trans hkept'⟩⟩

theorem readTextMember_of (h : ReadText env kind member col text) :
    ∃ col', readTextMember env kind member col = .ok (some text, col') ∧ col.Kept col' := by
  obtain ⟨hthrough, hfault, hparsed, hdecode⟩ := h
  obtain ⟨hkept, hsame⟩ := inflateAll_kept member.chunks col
  have hread : readMember (maxBytesFor env.toEnv kind) member col =
      .ok (some (content member), inflateAll member.chunks col) := by
    rw [readMember_through hthrough, hfault, readChunks]
  have hfits : ¬maxParsedTextBytes < (inflateAll member.chunks col).parsed +
      (content member).size := by
    rw [hsame]
    omega
  refine ⟨{ inflateAll member.chunks col with
    parsed := (inflateAll member.chunks col).parsed + (content member).size }.record, ?_,
    hkept.symbols, hkept.footprints, hkept.datafiles, hkept.skipped, hkept.droppedMembers⟩
  unfold readTextMember
  rw [hread]
  simp only [bind, Except.bind, Collector.takeParse, hfits, if_false, hdecode]

theorem readTextMember_error (hcol : col.Sound)
    (h : readTextMember env kind member col = .error (e, col')) :
    col'.MomentsWithin ∧ (e.is422 = true ∨
      ReadsThrough (maxBytesFor env.toEnv kind) member col ∧
        ∃ f ∈ member.fault, f.caught = false) := by
  cases hread : readMember (maxBytesFor env.toEnv kind) member col with
  | error raised =>
    simp only [readTextMember, hread, bind, Except.bind] at h
    cases h
    exact readMember_error hcol hread
  | ok read =>
    obtain ⟨raw, read⟩ := read
    have hsound := (readMember_ok hcol hread).1
    simp only [readTextMember, hread, bind, Except.bind] at h
    cases raw with
    | none => cases h
    | some raw =>
      simp only at h
      cases htake : read.takeParse raw.size with
      | none =>
        rw [htake] at h
        cases h
      | some taken =>
        rw [htake] at h
        have hsound' := (Collector.takeParse_some hsound htake).2.1
        cases hdecode : decodeText raw kind.str with
        | error e =>
          simp only [hdecode] at h
          cases h
          exact ⟨hsound'.moments, .inl (decodeText_is422 hdecode)⟩
        | ok decoded =>
          simp only [hdecode] at h
          cases h

end Texts

/-- What was gathered stays, and what is new stands behind it. -/
structure Collector.Extends (col col' : Collector) : Prop where
  symbols : col.symbols <+: col'.symbols
  footprints : col.footprints <+: col'.footprints
  datafiles : col.datafiles <+: col'.datafiles
  skipped : col.skipped <+: col'.skipped
  droppedMembers : col.droppedMembers ≤ col'.droppedMembers

theorem Collector.Extends.trans {a b c : Collector} (h : a.Extends b) (h' : b.Extends c) :
    a.Extends c :=
  ⟨h.symbols.trans h'.symbols, h.footprints.trans h'.footprints, h.datafiles.trans h'.datafiles,
    h.skipped.trans h'.skipped, h.droppedMembers.trans h'.droppedMembers⟩

theorem Collector.Kept.extends (h : col.Kept col') : col.Extends col' :=
  ⟨by rw [h.symbols], by rw [h.footprints], by rw [h.datafiles], by rw [h.skipped],
    h.droppedMembers.ge⟩

/-- Entries of the member are collected, it has its note, or it is counted. -/
def Accounted (name : Text) (col col' : Collector) : Prop :=
  (∃ new, new ≠ [] ∧ (∀ entry ∈ new, entry.filename = name) ∧
    (col'.symbols = col.symbols ++ new ∨ col'.footprints = col.footprints ++ new)) ∨
  (∃ file : PendingDatafile, file.name = name ∧ col'.datafiles = col.datafiles ++ [file]) ∨
  (∃ reason, col'.skipped = col.skipped ++ [skip name reason]) ∨
  col'.droppedMembers = col.droppedMembers + 1

theorem not_accounted_of_kept (h : col.Kept col') :
    ¬Accounted name col col' := by
  rintro (⟨new, hnew, -, hsymbols | hfootprints⟩ | ⟨file, -, hdatafiles⟩ | ⟨reason, hskipped⟩ |
    hdropped)
  · exact hnew (List.append_right_eq_self.mp (hsymbols.symm.trans h.symbols))
  · exact hnew (List.append_right_eq_self.mp (hfootprints.symm.trans h.footprints))
  · simpa using hdatafiles.symm.trans h.datafiles
  · simpa using hskipped.symm.trans h.skipped
  · have := hdropped.symm.trans h.droppedMembers
    omega

theorem Collector.skip_extends (col : Collector) (name : Text) (reason : String) :
    col.Extends (col.skip name reason) :=
  ⟨List.prefix_rfl, List.prefix_rfl, List.prefix_rfl, List.prefix_append _ _, le_rfl⟩

theorem Noted.accounted (h : Noted name col col') :
    col.Extends col' ∧ Accounted name col col' := by
  obtain ⟨base, reason, hkept, rfl⟩ := h
  have hskipped : (base.skip name reason).skipped = col.skipped ++ [skip name reason] := by
    rw [← hkept.skipped]
    rfl
  exact ⟨hkept.extends.trans (Collector.skip_extends base name reason),
    .inr (.inr (.inl ⟨reason, hskipped⟩))⟩

/-- What a turn comes to: the caps hold, what was gathered stays, and the member is accounted
for unless it is one of the silent ones. -/
def Turned (silent : Prop) (name : Text) (col col' : Collector) : Prop :=
  col'.Sound ∧ col.Extends col' ∧ (Accounted name col col' ∨ silent)

theorem turned_skip {silent : Prop} {col base : Collector} (hbase : base.Sound)
    (hkept : col.Kept base) (reason : String) : Turned silent name col (base.skip name reason) :=
  have h := Noted.accounted ⟨base, reason, hkept, rfl⟩
  ⟨Collector.sound_skip hbase name reason, h.1, .inl h.2⟩

theorem Collector.held_lt (h : 0 < col.room) : col.held + 1 ≤ maxEntries := by
  unfold Collector.room at h
  omega

theorem Collector.sound_of_held (hcol : col.Sound)
    (hinflated : col'.inflated = col.inflated) (hparsed : col'.parsed = col.parsed)
    (hheld : col'.held ≤ maxEntries) (hmoments : col'.moments = col.moments) :
    col'.record.Sound := by
  have hnow : Totals.Within ⟨col'.inflated, col'.parsed, col'.held⟩ :=
    ⟨hinflated ▸ hcol.inflated.trans (Nat.le_add_right _ _), hparsed ▸ hcol.parsed, hheld⟩
  have hbefore : col'.MomentsWithin := fun t ht => hcol.moments t (hmoments ▸ ht)
  exact ⟨hinflated ▸ hcol.inflated, hparsed ▸ hcol.parsed, hheld,
    Collector.momentsWithin_record hbefore hnow⟩

theorem addDatafile_turned {silent : Prop} {col base : Collector}
    (hbase : base.Sound) (hkept : col.Kept base) (hroom : 0 < col.room)
    {file : PendingDatafile} (hname : file.name = name) :
    Turned silent name col (base.addDatafile file) := by
  have hheld : { base with datafiles := base.datafiles ++ [file] }.held ≤ maxEntries := by
    have hlt := Collector.held_lt hroom
    have hsame := hkept.held
    simp only [Collector.held, List.length_append, List.length_singleton] at hsame hlt ⊢
    omega
  refine ⟨Collector.sound_of_held hbase rfl rfl hheld rfl, ?_, .inl (.inr (.inl ⟨file, hname, ?_⟩))⟩
  · exact hkept.extends.trans ⟨List.prefix_rfl, List.prefix_rfl, List.prefix_append _ _,
      List.prefix_rfl, le_rfl⟩
  · rw [← hkept.datafiles]
    rfl

theorem addSymbols_fields (name : Text) (found : List (Text × Sexpr.Node)) (col : Collector) :
    (addSymbols name found col).symbols = col.symbols ++
        ((found.filter (·.1 ≠ [])).map fun entry => ⟨entry.1, entry.2, name⟩) ∧
      (addSymbols name found col).footprints = col.footprints ∧
      (addSymbols name found col).datafiles = col.datafiles ∧
      (addSymbols name found col).skipped = col.skipped ∧
      (addSymbols name found col).droppedMembers = col.droppedMembers := by
  induction found generalizing col with
  | nil => simp [addSymbols]
  | cons entry rest ih =>
    by_cases hname : entry.1 = []
    · have hstep : addSymbols name (entry :: rest) col = addSymbols name rest col := by
        simp [addSymbols, hname]
      rw [hstep, List.filter_cons_of_neg (by simpa using hname)]
      exact ih col
    · have hstep : addSymbols name (entry :: rest) col =
          addSymbols name rest (col.addSymbol ⟨entry.1, entry.2, name⟩) := by
        simp [addSymbols, hname]
      obtain ⟨hsymbols, hrest⟩ := ih (col.addSymbol ⟨entry.1, entry.2, name⟩)
      rw [hstep, List.filter_cons_of_pos (by simpa using hname)]
      refine ⟨?_, hrest⟩
      rw [hsymbols]
      simp [Collector.addSymbol, Collector.record]

/-- A library whose symbols fit under the cap leaves the collector within its limits. -/
theorem addSymbols_sound (name : Text) {found : List (Text × Sexpr.Node)}
    (hcol : col.Sound) (hroom : col.held + found.length ≤ maxEntries) :
    (addSymbols name found col).Sound := by
  induction found generalizing col with
  | nil => exact hcol
  | cons entry rest ih =>
    rw [List.length_cons] at hroom
    by_cases hname : entry.1 = []
    · have hstep : addSymbols name (entry :: rest) col = addSymbols name rest col := by
        simp [addSymbols, hname]
      rw [hstep]
      exact ih hcol (by omega)
    · have hstep : addSymbols name (entry :: rest) col =
          addSymbols name rest (col.addSymbol ⟨entry.1, entry.2, name⟩) := by
        simp [addSymbols, hname]
      have hheld : (col.addSymbol ⟨entry.1, entry.2, name⟩).held = col.held + 1 := by
        simp only [Collector.held, Collector.addSymbol, Collector.record, List.length_append,
          List.length_singleton]
        omega
      rw [hstep]
      refine ih (Collector.sound_of_held hcol rfl rfl ?_ rfl) (by omega)
      show (col.addSymbol ⟨entry.1, entry.2, name⟩).held ≤ maxEntries
      omega

end StockManager.Eda
