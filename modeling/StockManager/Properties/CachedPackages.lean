import StockManager.Effects.PackageArchives
import StockManager.Properties.PackageIntegrity

/-! # Cached packages

A cached archive is served for every later plan of its fingerprint. -/

namespace StockManager.Eda

open PlainText
open Sexpr (Text)

variable {archive : Archive} {shot : Snapshot} {s : State} {workspaceId : Uuid} {cache : Cache}

/-- Everything hashed of two plans agrees. -/
structure Alike (p q : PackagePlan) : Prop where
  identifier : p.contents.identifier = q.contents.identifier
  version : p.version.text = q.version.text
  name : p.workspaceName = q.workspaceName
  symbols : p.contents.symbols.map hashedEntry = q.contents.symbols.map hashedEntry
  footprints : p.contents.footprints.map hashedEntry = q.contents.footprints.map hashedEntry
  blobs : p.contents.blobs.map hashedEntry = q.contents.blobs.map hashedEntry

/-- The name of `p` is that of `q`, a line break and lines of `q`'s entries; the lines that
are left of them are those of `p`. -/
def Absorbs (p q : PackagePlan) : Prop :=
  Lines.Swallows '\n' p.workspaceName (planLines p.contents) q.workspaceName (planLines q.contents)

/-- The fingerprint tells one plan from the other wherever the archives differ. -/
structure Told (p q : PackagePlan) : Prop where
  names : p.contents.identifier = q.contents.identifier → p.version.text = q.version.text →
    ¬ Absorbs p q ∧ ¬ Absorbs q p
  folders : Alike p q → p.contents.blobs.map (·.member) = q.contents.blobs.map (·.member)

theorem planLines_congr {p q : Plan} (hsymbols : p.symbols.map hashedEntry = q.symbols.map hashedEntry)
    (hfootprints : p.footprints.map hashedEntry = q.footprints.map hashedEntry)
    (hblobs : p.blobs.map hashedEntry = q.blobs.map hashedEntry) : planLines p = planLines q := by
  have hlines : ∀ (label : Text) (entries : List StoredEntry), entries.flatMap (entryLines label) =
      (entries.map hashedEntry).flatMap fun e =>
        (label ++ '\t' :: (e.1 ++ '\t' :: (e.2.1 ++ '\t' :: e.2.2.1))) ::
          e.2.2.2.map fun model => "\tmodel\t".toList ++ model := by
    intro label entries
    rw [List.flatMap_map]
    rfl
  rw [planLines, planLines, hlines, hlines, hlines, hlines, hlines, hlines, hsymbols, hfootprints, hblobs]

theorem fingerprintText_alike {p q : PackagePlan} (h : Alike p q) :
    fingerprintText p = fingerprintText q := by
  unfold fingerprintText
  rw [h.identifier, h.version, h.name, planLines_congr h.symbols h.footprints h.blobs]

theorem fingerprintText_absorbs {p q : PackagePlan} (h : Absorbs p q)
    (hidentifier : p.contents.identifier = q.contents.identifier)
    (hversion : p.version.text = q.version.text) : fingerprintText p = fingerprintText q := by
  unfold fingerprintText
  rw [hidentifier, hversion, h.join_eq]

variable {sha256 : ByteArray → Text} {collate : Text → Text → Bool}

/-- A state with a content-addressed store, and a name that fits its column. -/
structure Snapshot.Sound (sha256 : ByteArray → Text) (shot : Snapshot) : Prop where
  addressed : shot.state.files.Addressed sha256
  name : shot.name.length ≤ 200

/-- A plan of a workspace and the archive made for it. -/
structure Built (sha256 : ByteArray → Text) (p : PackagePlan) (archive : Archive) : Prop where
  identifier : Plain p.contents.identifier
  placed : Placed p.contents
  entries : ∀ pair ∈ labelled p.contents, PlainEntry pair.2
  name : p.workspaceName.length ≤ 200
  written : writePackage (readDigest sha256) p = .ok archive

theorem plan_ok {p : PackagePlan} (h : shot.plan collate = .ok p) :
    planPackage collate shot.state shot.workspaceId = .ok p.contents ∧ p.workspaceName = shot.name := by
  obtain ⟨contents, hcontents, rfl⟩ := Outcome.map_ok.mp h
  exact ⟨hcontents, rfl⟩

theorem blob_named {entry : StoredEntry}
    (h : entry ∈ planBlobs s workspaceId) : entry.stem = [] ∧ entry.models = [] ∧
      isSafeMemberName entry.name = true := by
  have hsource := (winners_dedupeMembers _).mem entry h
  rw [List.mem_mergeSort, List.mem_filterMap] at hsource
  obtain ⟨row, hrow, hblob⟩ := hsource
  obtain ⟨kind, _, rfl⟩ := Option.map_eq_some_iff.mp hblob
  exact ⟨rfl, rfl, (List.mem_filter.mp hrow).2⟩

theorem plainEntry_of_plan {plan : Plan}
    (hplan : planPackage collate s workspaceId = .ok plan) {pair : Text × StoredEntry}
    (hpair : pair ∈ labelled plan) (hdigest : Plain pair.2.sha256) : PlainEntry pair.2 := by
  simp only [labelled, List.mem_append, List.mem_map] at hpair
  rcases hpair with (⟨entry, hentry, rfl⟩ | ⟨entry, hentry, rfl⟩) | ⟨entry, hentry, rfl⟩
  · obtain ⟨hstem, hname⟩ := symbol_isPackaged hplan hentry
    obtain ⟨row, _, _, rfl⟩ := (mem_plan_symbols hplan).mp hentry
    exact ⟨plain_of_isSafe hstem, plain_of_isSafe hname, hdigest, fun _ h => absurd h List.not_mem_nil⟩
  · obtain ⟨hstem, hname⟩ := footprint_isPackaged hplan hentry
    obtain ⟨row, _, _, rfl⟩ := (mem_plan_footprints hplan).mp hentry
    refine ⟨plain_of_isSafe hstem, plain_of_isSafe hname, hdigest, fun model hmodel => ?_⟩
    -- a packaged link names a data file that ships
    have hshipped := of_decide_eq_true (List.mem_filter.mp hmodel).2
    obtain ⟨blob, hblob, rfl⟩ := List.mem_map.mp hshipped
    exact plain_of_isSafe (blob_named (List.mem_filter.mp hblob).1).2.2
  · rw [planPackage_ok hplan] at hentry
    obtain ⟨hstem, hmodels, hname⟩ := blob_named hentry
    refine ⟨?_, plain_of_isSafe hname, hdigest, ?_⟩
    · rw [hstem]
      exact fun _ h => absurd h List.not_mem_nil
    · rw [hmodels]
      exact fun _ h => absurd h List.not_mem_nil

theorem built_of_write (hsha : Function.Injective sha256) (hplain : ∀ data, Plain (sha256 data))
    {p : PackagePlan} (hshot : shot.Sound sha256)
    (hplan : shot.plan collate = .ok p) (h : writePackage shot.read p = .ok archive) :
    Built sha256 p archive := by
  obtain ⟨hcontents, hname⟩ := plan_ok hplan
  refine ⟨?_, ?_, ?_, hname ▸ hshot.name, ?_⟩
  · rw [planPackage_ok hcontents]
    exact plain_packageIdentifier _
  · intro entry hentry
    obtain ⟨row, _, _, rfl⟩ := (mem_plan_footprints hcontents).mp hentry
    rfl
  · intro pair hpair
    obtain ⟨raw, hraw⟩ := read_of_archive h pair hpair
    refine plainEntry_of_plan hcontents hpair ?_
    rw [← hshot.addressed _ _ _ hraw]
    exact hplain raw
  · exact writeArchive_mono (readDigest_of_addressed hsha hshot.addressed shot.workspaceId) h

section Pair

variable {p q : PackagePlan} {x y : Archive}

theorem hashed_of_fingerprintText (hp : Built sha256 p x) (hq : Built sha256 q y)
    (h : fingerprintText p = fingerprintText q) :
    p.contents.identifier = q.contents.identifier ∧ p.version.text = q.version.text ∧
      (Alike p q ∨ Absorbs p q ∨ Absorbs q p) := by
  obtain ⟨_, h⟩ := Lines.before_sep (plain_toDigits _ _).newline (plain_toDigits _ _).newline
    (List.append_cancel_left h)
  obtain ⟨hidentifier, h⟩ := Lines.before_sep hp.identifier.newline hq.identifier.newline h
  obtain ⟨hversion, h⟩ := Lines.before_sep (plain_version _).newline (plain_version _).newline h
  refine ⟨hidentifier, hversion, ?_⟩
  rcases Lines.text_join_eq (free_planLines hp.entries) (free_planLines hq.entries) h with
    ⟨hname, hlines⟩ | hswallows | hswallows
  · obtain ⟨hsymbols, hfootprints, hblobs⟩ := hashed_of_lines hp.entries hq.entries hlines
    exact Or.inl ⟨hidentifier, hversion, hname, hsymbols, hfootprints, hblobs⟩
  · exact Or.inr (Or.inl hswallows)
  · exact Or.inr (Or.inr hswallows)

theorem archive_of_alike (hp : Built sha256 p x) (hq : Built sha256 q y) (h : Alike p q)
    (hfolders : p.contents.blobs.map (·.member) = q.contents.blobs.map (·.member)) : x = y := by
  have hblobs : (p.contents.blobs.map fun e => (e.member, e.sha256)) =
      q.contents.blobs.map fun e => (e.member, e.sha256) := by
    have hsha : p.contents.blobs.map (·.sha256) = q.contents.blobs.map (·.sha256) := by
      simpa [List.map_map, hashedEntry, Function.comp_def] using congrArg (List.map (·.2.2.1)) h.blobs
    rw [← List.zip_map', ← List.zip_map', hfolders, hsha]
  have hmetadata : metadataText p = metadataText q := by
    unfold metadataText
    rw [h.name, h.identifier, h.version]
  have hwritten := hp.written
  rw [writePackage, hmetadata] at hwritten
  have hsame : writePackage (readDigest sha256) q =
      writeArchive (encode (metadataText q)) (readDigest sha256) p.contents :=
    (writeArchive_congr hp.placed hq.placed h.identifier h.symbols h.footprints hblobs).symm
  exact Except.ok.inj (hwritten.symm.trans (hsame.symm.trans hq.written))

theorem blobs_of_archive (hp : Built sha256 p x) (hq : Built sha256 q y) (h : Alike p q)
    (hxy : x = y) : p.contents.blobs.map (·.member) = q.contents.blobs.map (·.member) := by
  have hnames := (names_of_archive hp.written).symm.trans
    ((congrArg (List.map (·.1)) hxy).trans (names_of_archive hq.written))
  have hlibraries : ((GroupRuns.groupBy (·.stem) p.contents.symbols).map
      fun library => symbolMember library.1) =
      (GroupRuns.groupBy (·.stem) q.contents.symbols).map fun library => symbolMember library.1 := by
    have hruns : ∀ entries : List StoredEntry, ((GroupRuns.groupBy (·.stem) entries).map
        fun library => symbolMember library.1) =
        (GroupRuns.groupBy (·.1) (entries.map hashedEntry)).map
          fun library => symbolMember library.1 := by
      intro entries
      have hstem : ∀ entry : StoredEntry, (hashedEntry entry).1 = entry.stem := fun _ => rfl
      rw [GroupRuns.groupBy_map hstem, List.map_map]
      rfl
    rw [hruns, hruns, h.symbols]
  have hfiles : p.contents.footprints.map (·.member) = q.contents.footprints.map (·.member) := by
    have hplace : ∀ {plan : Plan}, Placed plan → plan.footprints.map (·.member) =
        (plan.footprints.map hashedEntry).map fun e => footprintMember e.1 e.2.1 := by
      intro plan hplan
      rw [List.map_map]
      exact List.map_congr_left hplan
    rw [hplace hp.placed, hplace hq.placed, h.footprints]
  rw [hlibraries, hfiles] at hnames
  exact List.append_cancel_left (List.cons.inj hnames).2

theorem name_of_archive (hp : Built sha256 p x) (hq : Built sha256 q y) (hxy : x = y) :
    p.workspaceName = q.workspaceName := by
  obtain ⟨_, _, _, _, _, _, hx⟩ := writeArchive_ok.mp hp.written
  obtain ⟨_, _, _, _, _, _, hy⟩ := writeArchive_ok.mp hq.written
  rw [hx, hy] at hxy
  exact name_of_metadata hp.name hq.name
    (encode_injective (Prod.mk.inj (List.cons.inj hxy).1).2)

theorem fingerprint_iff (hsha : Function.Injective sha256) (hp : Built sha256 p x)
    (hq : Built sha256 q y) :
    (fingerprint sha256 p = fingerprint sha256 q → x = y) ↔ Told p q := by
  constructor
  · intro h
    have hdiffer : ∀ {a b : PackagePlan}, Absorbs a b → a.workspaceName ≠ b.workspaceName :=
      fun habsorbs => habsorbs.ne
    refine ⟨fun hidentifier hversion => ⟨fun habsorbs => ?_, fun habsorbs => ?_⟩, fun halike => ?_⟩
    · have hxy := h (congrArg (sha256 ∘ encode) (fingerprintText_absorbs habsorbs hidentifier hversion))
      exact hdiffer habsorbs (name_of_archive hp hq hxy)
    · have htext := fingerprintText_absorbs habsorbs hidentifier.symm hversion.symm
      have hxy := h (congrArg (sha256 ∘ encode) htext.symm)
      exact hdiffer habsorbs (name_of_archive hp hq hxy).symm
    · have hxy := h (congrArg (sha256 ∘ encode) (fingerprintText_alike halike))
      exact blobs_of_archive hp hq halike hxy
  · intro htold h
    obtain ⟨hidentifier, hversion, halike | habsorbs | habsorbs⟩ :=
      hashed_of_fingerprintText hp hq (encode_injective (hsha h))
    · exact archive_of_alike hp hq halike (htold.folders halike)
    · exact absurd habsorbs (htold.names hidentifier hversion).1
    · exact absurd habsorbs (htold.names hidentifier hversion).2

end Pair

section Runs

variable (sha256) (collate)

def CacheEvent.Sound : CacheEvent → Prop
  | .request shot _ => shot.Sound sha256
  | .lost _ => True

def CachedFrom (past : List CacheEvent) (cache : Cache) : Prop :=
  ∀ file ∈ cache.files, ∃ shot building p, CacheEvent.request shot building ∈ past ∧
    shot.plan collate = .ok p ∧ file.1 = cacheKey sha256 p ∧ writePackage shot.read p = .ok file.2

variable {sha256 collate}

theorem mem_of_find? {key : Uuid × Text}
    (h : cache.find? key = some archive) : (key, archive) ∈ cache.files := by
  obtain ⟨file, hfile, rfl⟩ := Option.map_eq_some_iff.mp h
  have hkey := List.find?_some hfile
  rw [decide_eq_true_eq] at hkey
  exact hkey ▸ List.mem_of_find?_eq_some hfile

theorem materialise_cases {read : ReadFile} {p : PackagePlan} {building : Building}
    {cache later : Cache}
    (h : materialise sha256 read p building cache = .ok (archive, later)) :
    (cache.find? (cacheKey sha256 p) = some archive ∧ later = cache) ∨
      (writePackage read p = .ok archive ∧
        (later = cache ∨ later = cache.store (cacheKey sha256 p) archive)) := by
  unfold materialise at h
  split at h
  next found hfound =>
    obtain ⟨rfl, rfl⟩ := Prod.mk.inj (Except.ok.inj h)
    exact Or.inl ⟨hfound, rfl⟩
  next =>
    split at h
    · cases h
    · obtain ⟨made, hmade, hpair⟩ := Outcome.map_ok.mp h
      obtain ⟨rfl, rfl⟩ := Prod.mk.inj hpair
      refine Or.inr ⟨hmade, ?_⟩
      split
      · exact Or.inr rfl
      · exact Or.inl rfl

theorem CachedFrom.mono {past later : List CacheEvent} {cache smaller : Cache}
    (h : CachedFrom sha256 collate past cache) (hpast : ∀ event ∈ past, event ∈ later)
    (hfiles : ∀ file ∈ smaller.files, file ∈ cache.files) :
    CachedFrom sha256 collate later smaller := by
  intro file hfile
  obtain ⟨shot, building, p, hmem, hrest⟩ := h file (hfiles file hfile)
  exact ⟨shot, building, p, hpast _ hmem, hrest⟩

theorem cachedFrom_step {past : List CacheEvent}
    (h : CachedFrom sha256 collate past cache) (event : CacheEvent) :
    CachedFrom sha256 collate (past ++ [event]) (cacheStep sha256 collate cache event) := by
  have hkept : CachedFrom sha256 collate (past ++ [event]) cache :=
    h.mono (fun _ hmem => List.mem_append_left _ hmem) fun _ hfile => hfile
  cases event with
  | lost key => exact hkept.mono (fun _ hmem => hmem) fun _ hfile => (List.mem_filter.mp hfile).1
  | request shot building =>
    simp only [cacheStep]
    split
    next => exact hkept
    next p hplan =>
      split
      next => exact hkept
      next archive later hserved =>
        rcases materialise_cases hserved with ⟨_, rfl⟩ | ⟨hmade, rfl | rfl⟩
        · exact hkept
        · exact hkept
        · intro file hfile
          rcases List.mem_cons.mp hfile with rfl | hfile
          · exact ⟨shot, building, p, List.mem_append_right _ (List.mem_singleton_self _), hplan,
              rfl, hmade⟩
          · exact hkept file (List.mem_filter.mp hfile).1

theorem cachedFrom_run (past : List CacheEvent) :
    CachedFrom sha256 collate past (past.foldl (cacheStep sha256 collate) ⟨[]⟩) := by
  induction past using List.reverseRecOn with
  | nil => exact fun file hfile => absurd hfile List.not_mem_nil
  | append_singleton past event ih =>
    rw [List.foldl_append]
    exact cachedFrom_step ih event

end Runs

/-- SHA-256 digests are written in hexadecimal. -/
def Hex (text : Text) : Prop := ∀ c ∈ text, c ∈ "0123456789abcdef".toList

theorem plain_of_hex {text : Text} (h : Hex text) : Plain text := by
  have hdigits : Plain "0123456789abcdef".toList := plain_of_all (by decide)
  exact fun c hc => hdigits c (h c hc)

/-- Plans of one fingerprint have one archive exactly if the fingerprint tells them apart where
they differ; and where it does, in any run of requests, whatever is served is what a fresh build
would have been. -/
theorem package_of_fingerprint (hsha : Function.Injective sha256)
    (hhex : ∀ data, Hex (sha256 data)) (collate : Text → Text → Bool) :
    (∀ a b : Snapshot, a.Sound sha256 → b.Sound sha256 → ∀ p q, a.plan collate = .ok p →
      b.plan collate = .ok q → ∀ x y, writePackage a.read p = .ok x →
      writePackage b.read q = .ok y →
      ((fingerprint sha256 p = fingerprint sha256 q → x = y) ↔ Told p q)) ∧
    ∀ (past : List CacheEvent) (shot : Snapshot) (q : PackagePlan),
      (∀ event ∈ past, event.Sound sha256) → shot.Sound sha256 → shot.plan collate = .ok q →
      (∀ earlier building p, CacheEvent.request earlier building ∈ past →
        earlier.plan collate = .ok p → Told p q) →
      ∀ building archive later fresh,
        materialise sha256 shot.read q building (past.foldl (cacheStep sha256 collate) ⟨[]⟩) =
          .ok (archive, later) →
        writePackage shot.read q = .ok fresh → archive = fresh := by
  have hplain : ∀ data, Plain (sha256 data) := fun data => plain_of_hex (hhex data)
  refine ⟨fun a b ha hb p q hp hq x y hx hy => ?_, ?_⟩
  · exact fingerprint_iff hsha (built_of_write hsha hplain ha hp hx)
      (built_of_write hsha hplain hb hq hy)
  · intro past shot q hpast hshot hq htold building archive later fresh hserved hfresh
    have hbuilt := built_of_write hsha hplain hshot hq hfresh
    rcases materialise_cases hserved with ⟨hfound, _⟩ | ⟨hmade, _⟩
    · obtain ⟨earlier, asked, p, hmem, hp, hkey, hwritten⟩ :=
        cachedFrom_run past _ (mem_of_find? hfound)
      have hearlier := built_of_write hsha hplain (hpast _ hmem) hp hwritten
      exact (fingerprint_iff hsha hearlier hbuilt).mpr (htold _ _ _ hmem hp)
        (Prod.mk.inj hkey).2.symm
    · exact Except.ok.inj (hmade.symm.trans hfresh)

def hexDigit (n : ℕ) : Char := "0123456789abcdef".toList.getD n '0'

def hexEnv : Env :=
  { sampleEnv with sha256 := fun data => data.data.toList.flatMap fun b =>
      [hexDigit (b.toNat / 16), hexDigit (b.toNat % 16)] }

def spiceCalls : List (Ctx × Request) :=
  [(sampleCtx 7, .uploadDatafile (some "x.lib".toList) "ISO-10303-21;".toUTF8
    (some ⟨['x'], by decide⟩))]

/-- The file is archived and comes again as a STEP model. -/
def stepCalls : List (Ctx × Request) :=
  spiceCalls ++ [(sampleCtx 8, .archive .datafile 7),
    (sampleCtx 9, .uploadDatafile (some "x.step".toList) "ISO-10303-21;".toUTF8
      (some ⟨['x'], by decide⟩))]

def sampleShot (calls : List (Ctx × Request)) : Snapshot :=
  ⟨Outcome.run (exec hexEnv) sampleState calls, 1, "Lab".toList, none⟩

theorem hexDigit_injective : ∀ m < 16, ∀ n < 16, hexDigit m = hexDigit n → m = n := by
  decide

theorem hexEnv_injective : Function.Injective hexEnv.sha256 := by
  intro a b h
  have hcode : ∀ (x y : UInt8) (s t : Text),
      [hexDigit (x.toNat / 16), hexDigit (x.toNat % 16)] ++ s =
        [hexDigit (y.toNat / 16), hexDigit (y.toNat % 16)] ++ t → x = y ∧ s = t := by
    intro x y s t heq
    obtain ⟨hhigh, hrest⟩ := List.cons.inj heq
    obtain ⟨hlow, hlater⟩ := List.cons.inj hrest
    have hx := x.toNat_lt
    have hy := y.toNat_lt
    have hdiv := hexDigit_injective _ (by omega) _ (by omega) hhigh
    have hmod := hexDigit_injective _ (by omega) _ (by omega) hlow
    exact ⟨UInt8.toNat_inj.mp (by omega), hlater⟩
  have hne : ∀ n < 16, hexDigit n ≠ 'x' := by decide
  have hlist : a.data.toList = b.data.toList := by
    refine (Lines.code_injective hcode (fun x => ⟨_, _, rfl, hne _ ?_⟩)
      (congrArg (· ++ ['x']) h)).1
    have hx := x.toNat_lt
    omega
  exact ByteArray.ext (Array.toList_inj.mp hlist)

theorem hexEnv_hex (data : ByteArray) : Hex (hexEnv.sha256 data) := by
  have hdigit : ∀ n < 16, hexDigit n ∈ "0123456789abcdef".toList := by decide
  intro c hc
  obtain ⟨b, _, hb⟩ := List.mem_flatMap.mp hc
  have hlt := b.toNat_lt
  simp only [List.mem_cons, List.not_mem_nil, or_false] at hb
  rcases hb with rfl | rfl
  · exact hdigit _ (by omega)
  · exact hdigit _ (by omega)

theorem sampleShot_sound (calls : List (Ctx × Request)) :
    (sampleShot calls).Sound hexEnv.sha256 :=
  ⟨(entryShaped_of_run hexEnv_injective ⟨rfl, rfl, rfl, rfl⟩ calls).addressed,
    show "Lab".toList.length ≤ 200 by decide⟩

def sampleFingerprint (calls : List (Ctx × Request)) : Option Text :=
  ((sampleShot calls).plan textLe).toOption.map (fingerprint hexEnv.sha256)

def sampleFiles (calls : List (Ctx × Request)) : Option (List Text) :=
  ((sampleShot calls).plan textLe).toOption.bind fun p =>
    (writePackage (sampleShot calls).read p).toOption.map (·.map (·.1))

theorem sample_built {calls : List (Ctx × Request)} {files : List Text}
    (h : sampleFiles calls = some files) : ∃ p archive, (sampleShot calls).plan textLe = .ok p ∧
      writePackage (sampleShot calls).read p = .ok archive ∧ archive.map (·.1) = files := by
  obtain ⟨p, hp, hfiles⟩ := Option.bind_eq_some_iff.mp h
  obtain ⟨archive, harchive, rfl⟩ := Option.map_eq_some_iff.mp hfiles
  exact ⟨p, archive, Outcome.toOption_eq_some.mp hp, Outcome.toOption_eq_some.mp harchive, rfl⟩

theorem told_self (p : PackagePlan) : Told p p :=
  ⟨fun _ _ => ⟨fun h => h.ne rfl, fun h => h.ne rfl⟩, fun _ => rfl⟩

theorem package_of_fingerprint_sample : ∃ p archive later,
    (sampleShot spiceCalls).plan textLe = .ok p ∧
    materialise hexEnv.sha256 (sampleShot spiceCalls).read p .busy
      (cacheStep hexEnv.sha256 textLe ⟨[]⟩ (.request (sampleShot spiceCalls) .cached)) =
        .ok (archive, later) ∧
    writePackage (sampleShot spiceCalls).read p = .ok archive := by
  have hfiles : sampleFiles spiceCalls = some ["metadata.json".toList, "resources/spice/x".toList] := by
    decide +kernel
  obtain ⟨p, fresh, hp, hfresh, _⟩ := sample_built hfiles
  have hserved : ((materialise hexEnv.sha256 (sampleShot spiceCalls).read p .busy
      (cacheStep hexEnv.sha256 textLe ⟨[]⟩
        (.request (sampleShot spiceCalls) .cached))).toOption).isSome = true := by
    simp [cacheStep, hp, materialise, Cache.find?, hfresh, Cache.store, Except.map, Except.toOption]
  obtain ⟨⟨archive, later⟩, hserved⟩ := Outcome.exists_ok hserved
  have hright := (package_of_fingerprint hexEnv_injective hexEnv_hex textLe).2
    [.request (sampleShot spiceCalls) .cached] (sampleShot spiceCalls) p
    (fun event hevent => by
      rw [List.mem_singleton.mp hevent]
      exact sampleShot_sound _)
    (sampleShot_sound _) hp
    (fun earlier building q hmem hq => by
      obtain ⟨rfl, _⟩ := CacheEvent.request.inj (List.mem_singleton.mp hmem)
      rw [Except.ok.inj (hq.symm.trans hp)]
      exact told_self p)
    .busy archive later fresh hserved hfresh
  exact ⟨p, archive, later, hp, hserved, hright ▸ hfresh⟩

/-- A SPICE model and a STEP model of one name and content: one fingerprint, two archives. -/
theorem spice_packaged_as_step : ¬ ∀ p q x y,
    (sampleShot spiceCalls).plan textLe = .ok p → (sampleShot stepCalls).plan textLe = .ok q →
    writePackage (sampleShot spiceCalls).read p = .ok x →
    writePackage (sampleShot stepCalls).read q = .ok y →
    fingerprint hexEnv.sha256 p = fingerprint hexEnv.sha256 q → x = y := by
  have hspice : sampleFiles spiceCalls = some ["metadata.json".toList, "resources/spice/x".toList] := by
    decide +kernel
  have hstep : sampleFiles stepCalls = some ["metadata.json".toList, "3dmodels/x".toList] := by
    decide +kernel
  have hsame : sampleFingerprint spiceCalls = sampleFingerprint stepCalls := by decide +kernel
  obtain ⟨p, x, hp, hx, hxfiles⟩ := sample_built hspice
  obtain ⟨q, y, hq, hy, hyfiles⟩ := sample_built hstep
  have hfingerprint : fingerprint hexEnv.sha256 p = fingerprint hexEnv.sha256 q := by
    rw [sampleFingerprint, sampleFingerprint, hp, hq] at hsame
    exact Option.some.inj hsame
  intro hclaim
  have hxy := hclaim p q x y hp hq hx hy hfingerprint
  rw [hxy, hyfiles] at hxfiles
  exact absurd hxfiles (by decide)

end StockManager.Eda
