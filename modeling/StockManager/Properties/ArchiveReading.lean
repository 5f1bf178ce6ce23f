import StockManager.Effects.ArchiveEntries

/-! # Archive reading accounts for every member within its caps -/

namespace StockManager.Eda

open Sexpr (Text)

variable {env : ArchiveEnv} {archive : VendorArchive}
variable {col col' : Collector} {e : Raised} {members : List Member} {plan : ReadPlan}
  {member : Member}

theorem walkMembers_append (before after : List Member) (col : Collector) :
    walkMembers env (before ++ after) col =
      walkMembers env before col >>= fun mid => walkMembers env after mid := by
  simp only [walkMembers, List.foldlM_append]

theorem walkMembers_cons (member : Member) (after : List Member) (col : Collector) :
    walkMembers env (member :: after) col =
      walkMember env col member >>= fun mid => walkMembers env after mid := rfl

theorem walkMembers_ok (hcol : col.Sound)
    (h : walkMembers env members col = .ok col') : col'.Sound ∧ col.Extends col' := by
  induction members generalizing col with
  | nil =>
    cases h
    exact ⟨hcol, (Collector.Kept.refl _).extends⟩
  | cons member after ih =>
    obtain ⟨mid, hmid, hrest⟩ := Outcome.bind_ok.mp h
    obtain ⟨hsound, hextends, -⟩ := walkMember_turned hcol hmid
    obtain ⟨hsound', hextends'⟩ := ih hsound hrest
    exact ⟨hsound', hextends.trans hextends'⟩

theorem walkMembers_error (hcol : col.Sound) (h : walkMembers env members col = .error (e, col')) :
    ∃ before member after mid, members = before ++ member :: after ∧
      walkMembers env before col = .ok mid ∧ mid.Sound ∧
      walkMember env mid member = .error (e, col') := by
  induction members generalizing col with
  | nil => cases h
  | cons member after ih =>
    rcases Outcome.bind_error h with hturn | ⟨mid, hmid, hrest⟩
    · exact ⟨[], member, after, col, rfl, rfl, hcol, hturn⟩
    · have hsound := (walkMember_turned hcol hmid).1
      obtain ⟨before, member', after', mid', rfl, hbefore, hsound', hturn⟩ := ih hsound hrest
      refine ⟨member :: before, member', after', mid', rfl, ?_, hsound', hturn⟩
      rw [walkMembers_cons, hmid]
      exact hbefore

/-- It is the member's turn, with what was collected before it. -/
def Turn (env : ArchiveEnv) (archive : VendorArchive) (member : Member) (col : Collector) : Prop :=
  ∃ before after, openArchive archive = .ok (before ++ member :: after) ∧
    walkMembers env before .empty = .ok col

/-- The note of what no entry was left for. -/
def capNote (dropped : ℕ) : List Skipped :=
  if dropped = 0 then [] else [skip s!"{dropped} files".toList skipEntryCap]

theorem readArchive_ok (h : readArchive env archive = .ok (plan, col)) :
    ∃ members walked, openArchive archive = .ok members ∧
      walkMembers env members .empty = .ok walked ∧ plan.symbols = walked.symbols ∧
      plan.footprints = walked.footprints ∧ plan.datafiles = walked.datafiles ∧
      plan.skipped = walked.skipped ++ capNote walked.droppedMembers ∧
      col.moments = walked.moments := by
  obtain ⟨members, hopen, h⟩ := Outcome.bind_ok.mp h
  obtain ⟨walked, hwalk, h⟩ := Outcome.bind_ok.mp h
  obtain ⟨-, h⟩ := Outcome.check_bind_ok.mp h
  obtain ⟨-, h⟩ := Outcome.check_bind_ok.mp h
  cases h
  refine ⟨members, walked, hopen, hwalk, ?_⟩
  by_cases hdropped : walked.droppedMembers = 0
  · simp [Collector.noteDropped, hdropped, capNote]
  · simp [Collector.noteDropped, hdropped, capNote, Collector.skip]

theorem noteDropped_moments (col : Collector) : col.noteDropped.moments = col.moments := by
  unfold Collector.noteDropped
  split <;> rfl

/-- The constructor of `ZipFile` raises what `_open_archive` does not catch. -/
def Unopened (archive : VendorArchive) : Prop := ∃ f, archive = .error f ∧ f.caughtOpening = false

theorem openArchive_unopened (h : Unopened archive) :
    ∃ f, openArchive archive = .error (.fault f, .empty) := by
  obtain ⟨f, rfl, hf⟩ := h
  have hraised : openFault f = .fault f := by simp [openFault, hf]
  exact ⟨f, by rw [← hraised]; rfl⟩

theorem openArchive_error (h : openArchive archive = .error (e, col)) :
    (e.is422 = true ∨ Unopened archive) ∧ col = .empty := by
  rcases Outcome.bind_error h with h | ⟨members, -, h⟩
  · cases archive with
    | error f =>
      cases h
      refine ⟨?_, rfl⟩
      cases hf : f.caughtOpening with
      | true => exact .inl (by simp [openFault, hf, Raised.is422])
      | false => exact .inr ⟨f, rfl, hf⟩
    | ok members => cases h
  · rcases Outcome.bind_error h with h | ⟨_, -, h⟩
    · cases Outcome.check_error h
      exact ⟨.inl rfl, rfl⟩
    · rcases Outcome.bind_error h with h | ⟨_, -, h⟩
      · cases Outcome.check_error h
        exact ⟨.inl rfl, rfl⟩
      · cases h

theorem readArchive_error (h : readArchive env archive = .error (e, col)) :
    col.MomentsWithin ∧ (e.is422 = true ∨ Unopened archive ∨
      ∃ member mid, Turn env archive member mid ∧ Faulty env member mid) := by
  rcases Outcome.bind_error h with hopen | ⟨members, hopen, h⟩
  · obtain ⟨hraised, rfl⟩ := openArchive_error hopen
    exact ⟨Collector.sound_empty.moments, hraised.imp_right .inl⟩
  · rcases Outcome.bind_error h with hwalk | ⟨walked, hwalk, h⟩
    · obtain ⟨before, member, after, mid, rfl, hbefore, hsound, hturn⟩ :=
        walkMembers_error Collector.sound_empty hwalk
      obtain ⟨hmoments, hraised⟩ := walkMember_error hsound hturn
      exact ⟨hmoments, hraised.imp_right fun hfaulty =>
        .inr ⟨member, mid, ⟨before, after, hopen, hbefore⟩, hfaulty⟩⟩
    · have hmoments : walked.noteDropped.MomentsWithin := by
        unfold Collector.MomentsWithin
        rw [noteDropped_moments]
        exact (walkMembers_ok Collector.sound_empty hwalk).1.moments
      rcases Outcome.bind_error h with h | ⟨_, -, h⟩
      · cases Outcome.check_error h
        exact ⟨hmoments, .inl rfl⟩
      · rcases Outcome.bind_error h with h | ⟨_, -, h⟩
        · cases Outcome.check_error h
          exact ⟨hmoments, .inl rfl⟩
        · cases h

theorem readArchive_faulty (hturn : Turn env archive member col) (h : Faulty env member col) :
    ∃ f col', readArchive env archive = .error (.fault f, col') := by
  obtain ⟨before, after, hopen, hwalk⟩ := hturn
  obtain ⟨f, col', hraised⟩ := walkMember_faulty h
  refine ⟨f, col', ?_⟩
  simp only [readArchive, hopen, bind, Except.bind, walkMembers_append, hwalk, walkMembers_cons,
    hraised]

/-- In a returned plan each member is accounted for by its turn: what its turn collected or noted
stands in the plan, and the members counted have one note. -/
def PlanAccounts (env : ArchiveEnv) (archive : VendorArchive) (plan : ReadPlan) : Prop :=
  ∃ notes dropped, plan.skipped = notes ++ capNote dropped ∧
    ∀ before member after, openArchive archive = .ok (before ++ member :: after) →
      ∃ col col', walkMembers env before .empty = .ok col ∧
        walkMember env col member = .ok col' ∧
        Accounted (memberBasename member.filename) col col' ∧ col'.symbols <+: plan.symbols ∧
        col'.footprints <+: plan.footprints ∧ col'.datafiles <+: plan.datafiles ∧
        col'.skipped <+: notes ∧ col'.droppedMembers ≤ dropped

/-- The totals there were, up to the answer or the exception. -/
def moments (env : ArchiveEnv) (archive : VendorArchive) : List Totals :=
  match readArchive env archive with
  | .ok (_, col) => col.moments
  | .error (_, col) => col.moments

structure ReadsSafely (env : ArchiveEnv) (archive : VendorArchive) : Prop where
  answers : ∀ e col, readArchive env archive = .error (e, col) → e.is422 = true
  caps : ∀ t ∈ moments env archive, t.Within
  accounts : ∀ plan col, readArchive env archive = .ok (plan, col) → PlanAccounts env archive plan

theorem moments_within (env : ArchiveEnv) (archive : VendorArchive) :
    ∀ t ∈ moments env archive, t.Within := by
  unfold moments
  split
  · rename_i plan col hread
    obtain ⟨members, walked, -, hwalk, -, -, -, -, hmoments⟩ := readArchive_ok hread
    rw [hmoments]
    exact (walkMembers_ok Collector.sound_empty hwalk).1.moments
  · rename_i e col hread
    exact (readArchive_error hread).1

theorem turn_of_walk {before after : List Member} {walked : Collector}
    (hwalk : walkMembers env (before ++ member :: after) .empty = .ok walked) :
    ∃ col col', walkMembers env before .empty = .ok col ∧ col.Sound ∧
      walkMember env col member = .ok col' ∧ col'.Extends walked := by
  rw [walkMembers_append] at hwalk
  obtain ⟨col, hbefore, hwalk⟩ := Outcome.bind_ok.mp hwalk
  rw [walkMembers_cons] at hwalk
  obtain ⟨col', hmember, hafter⟩ := Outcome.bind_ok.mp hwalk
  have hsound := (walkMembers_ok Collector.sound_empty hbefore).1
  have hsound' := (walkMember_turned hsound hmember).1
  exact ⟨col, col', hbefore, hsound, hmember, (walkMembers_ok hsound' hafter).2⟩

theorem planAccounts_of_read {last : Collector} (hread : readArchive env archive = .ok (plan, last))
    (hsilent : ∀ member col, Turn env archive member col → ¬Silent env member col) :
    PlanAccounts env archive plan := by
  obtain ⟨members, walked, hopen, hwalk, hsymbols, hfootprints, hdatafiles, hskipped, -⟩ :=
    readArchive_ok hread
  refine ⟨walked.skipped, walked.droppedMembers, hskipped, fun before member after hopen' => ?_⟩
  obtain rfl : members = before ++ member :: after := Outcome.ok_unique hopen hopen'
  obtain ⟨col, col', hbefore, hsound, hmember, hextends⟩ := turn_of_walk hwalk
  have haccounted := (walkMember_turned hsound hmember).2.2.resolve_right
    (hsilent member col ⟨before, after, hopen, hbefore⟩)
  exact ⟨col, col', hbefore, hmember, haccounted, hsymbols ▸ hextends.symbols,
    hfootprints ▸ hextends.footprints, hdatafiles ▸ hextends.datafiles, hextends.skipped,
    hextends.droppedMembers⟩

/-- Archive reading is safe exactly when neither the archive nor a member that is reached ends in
an exception that nothing catches and, unless the archive is rejected, no member leaves only
entries without a name. -/
theorem readsSafely_iff (env : ArchiveEnv) (archive : VendorArchive) :
    ReadsSafely env archive ↔
      ¬Unopened archive ∧
      (∀ member col, Turn env archive member col → ¬Faulty env member col) ∧
      ((∃ read, readArchive env archive = .ok read) →
        ∀ member col, Turn env archive member col → ¬Silent env member col) := by
  constructor
  · intro h
    refine ⟨fun hunopened => ?_, fun member col hturn hfaulty => ?_,
      fun hread member col hturn hsilent => ?_⟩
    · obtain ⟨f, hopen⟩ := openArchive_unopened hunopened
      have hraised : readArchive env archive = .error (.fault f, .empty) := by
        rw [readArchive, hopen]
        rfl
      cases h.answers _ _ hraised
    · obtain ⟨f, col', hraised⟩ := readArchive_faulty hturn hfaulty
      cases h.answers _ _ hraised
    · obtain ⟨⟨plan, last⟩, hread⟩ := hread
      obtain ⟨before, after, hopen, hwalk⟩ := hturn
      obtain ⟨notes, dropped, -, haccounts⟩ := h.accounts plan last hread
      obtain ⟨col₁, col', hwalk', hmember, haccounted, -⟩ := haccounts before member after hopen
      obtain rfl : col = col₁ := Outcome.ok_unique hwalk hwalk'
      obtain ⟨kept, hkeeps, hkept⟩ := walkMember_silent hsilent
      obtain rfl := Outcome.ok_unique hmember hkeeps
      exact not_accounted_of_kept hkept haccounted
  · intro h
    refine ⟨fun e col hread => ?_, moments_within env archive,
      fun plan last hread => planAccounts_of_read hread (h.2.2 ⟨_, hread⟩)⟩
    rcases (readArchive_error hread).2 with h422 | hunopened | ⟨member, mid, hturn, hfault⟩
    · exact h422
    · exact absurd hunopened h.1
    · exact absurd hfault (h.2.1 member mid hturn)

def asciiArchiveEnv : ArchiveEnv where
  maxUploadBytes := 25 * mib
  sha256 data := data.data.toList.map fun byte => Char.ofNat byte.toNat
  fold text := (text.map Char.toLower).filter Char.isAlphanum
  lower text := text.map Char.toLower

def textMember (name text : String) (h : 0 < text.toByteArray.size ∧
    text.toByteArray.size ≤ chunkBytes) : Member where
  filename := name.toList
  fileSize := text.toByteArray.size
  chunks := [text.toByteArray]
  fault := none
  chunk_size := by simpa using h

/-- A compressed stream with an invalid block. -/
def corruptModel : Member where
  filename := "3D/R0603.step".toList
  fileSize := 4096
  chunks := []
  fault := some .zlibError
  chunk_size := by simp

def namelessLibrary : Member :=
  textMember "R0603.kicad_sym" "(kicad_symbol_lib (symbol \"\"))" (by decide)

def shapeModel : Member := textMember "R0603.wrl" "#VRML V2.0 utf8" (by decide)

def uncaught {α : Type} : Except (Raised × Collector) α → Option ReaderFault
  | .error (.fault f, _) => some f
  | _ => none

theorem exists_of_any {ε α : Type} {x : Except ε α} {p : α → Bool}
    (h : x.toOption.any p = true) : ∃ a, x = .ok a ∧ p a = true := by
  cases x with
  | error e => cases h
  | ok a => exact ⟨a, rfl, h⟩

theorem not_safe_of_uncaught {f : ReaderFault}
    (h : uncaught (readArchive env archive) = some f) : ¬ReadsSafely env archive := by
  intro hsafe
  cases hread : readArchive env archive with
  | ok read =>
    rw [hread] at h
    cases h
  | error raised =>
    obtain ⟨e, col⟩ := raised
    have h422 := hsafe.answers e col hread
    rw [hread] at h
    cases e with
    | rejected r => cases h
    | text e => cases h
    | fault f => cases h422

/-- A corrupt member raises `zlib.error` and a directory with a bad name `UnicodeDecodeError`; a
library of nameless symbols is neither collected nor noted. -/
theorem faults_and_nameless_members :
    uncaught (readArchive asciiArchiveEnv (.ok [corruptModel])) = some .zlibError ∧
    ¬ReadsSafely asciiArchiveEnv (.ok [corruptModel]) ∧
    uncaught (readArchive asciiArchiveEnv (.error .unicodeDecodeError)) =
      some .unicodeDecodeError ∧
    ¬ReadsSafely asciiArchiveEnv (.error .unicodeDecodeError) ∧
    ∃ plan col, readArchive asciiArchiveEnv (.ok [namelessLibrary, shapeModel]) =
        .ok (plan, col) ∧
      plan.symbols.length = 0 ∧ plan.footprints.length = 0 ∧
      plan.datafiles.map (·.name) = ["R0603.wrl".toList] ∧ plan.skipped.length = 0 := by
  have hcorrupt : uncaught (readArchive asciiArchiveEnv (.ok [corruptModel])) =
      some .zlibError := by decide
  have hunopened : uncaught (readArchive asciiArchiveEnv (.error .unicodeDecodeError)) =
      some .unicodeDecodeError := by decide
  refine ⟨hcorrupt, not_safe_of_uncaught hcorrupt, hunopened, not_safe_of_uncaught hunopened, ?_⟩
  have hread : (readArchive asciiArchiveEnv (.ok [namelessLibrary, shapeModel])).toOption.any
      (fun read => decide (read.1.symbols.length = 0 ∧ read.1.footprints.length = 0 ∧
        read.1.datafiles.map (·.name) = ["R0603.wrl".toList] ∧
        read.1.skipped.length = 0)) = true := by decide +kernel
  obtain ⟨⟨plan, col⟩, hok, hplan⟩ := exists_of_any hread
  exact ⟨plan, col, hok, of_decide_eq_true hplan⟩

end StockManager.Eda
