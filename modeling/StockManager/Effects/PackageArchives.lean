import StockManager.Effects.PackageMembers
import StockManager.Library.PlainText

/-! # What the metadata tells of the workspace's name -/

namespace StockManager.Eda

open Sexpr (Text)

def escapedChars : List Char := '"' :: '\\' :: (List.range 32).map Char.ofNat

theorem jsonChar_plain {c : Char} (h : c ∉ escapedChars) : jsonChar c = [c] := by
  have hquote : c ≠ '"' := fun heq => h (heq ▸ by decide)
  have hslash : c ≠ '\\' := fun heq => h (heq ▸ by decide)
  have hlow : ¬ c.toNat < 32 := by
    intro hlt
    refine h (List.mem_cons_of_mem _ (List.mem_cons_of_mem _ (List.mem_map.mpr
      ⟨c.toNat, List.mem_range.mpr hlt, Char.ofNat_toNat c⟩)))
  have hne : ∀ d : Char, d.toNat < 32 → c ≠ d := fun d hd heq => hlow (heq ▸ hd)
  rw [jsonChar, if_neg hquote, if_neg hslash, if_neg (hne _ (by decide)), if_neg (hne _ (by decide)),
    if_neg (hne _ (by decide)), if_neg (by omega), if_neg (by omega), if_neg hlow]

theorem jsonChar_escaped {c : Char} (h : c ∈ escapedChars) : (jsonChar c).head? = some '\\' := by
  have hall : (escapedChars.all fun c => (jsonChar c).head? == some '\\') = true := by decide
  exact eq_of_beq (List.all_eq_true.mp hall c h)

theorem jsonChar_escapes {c d : Char} (hc : c ∈ escapedChars) (hd : d ∈ escapedChars)
    (h : (jsonChar c).isPrefixOf (jsonChar d) = true) : c = d := by
  have hall : (escapedChars.all fun c => escapedChars.all fun d =>
      !(jsonChar c).isPrefixOf (jsonChar d) || c == d) = true := by decide
  have hpair := List.all_eq_true.mp (List.all_eq_true.mp hall c hc) d hd
  rw [h] at hpair
  exact eq_of_beq hpair

theorem jsonChar_head (c : Char) : ∃ d later, jsonChar c = d :: later ∧ d ≠ '"' ∧
    (d = '\\' ↔ c ∈ escapedChars) := by
  by_cases hc : c ∈ escapedChars
  · cases hword : jsonChar c with
    | nil => exact absurd (hword ▸ jsonChar_escaped hc) (by decide)
    | cons d later =>
      have hhead := jsonChar_escaped hc
      rw [hword] at hhead
      have hslash : d = '\\' := Option.some.inj hhead
      exact ⟨d, later, rfl, by rw [hslash]; decide, fun _ => hc, fun _ => hslash⟩
  · refine ⟨c, [], jsonChar_plain hc, fun heq => hc (heq ▸ by decide), fun heq => ?_, fun h => absurd h hc⟩
    exact heq ▸ by decide

theorem jsonChar_code {c d : Char} {s t : Text} (h : jsonChar c ++ s = jsonChar d ++ t) :
    c = d ∧ s = t := by
  suffices heq : c = d by
    subst heq
    exact ⟨rfl, List.append_cancel_left h⟩
  obtain ⟨x, xs, hx, _, hc⟩ := jsonChar_head c
  obtain ⟨y, ys, hy, _, hd⟩ := jsonChar_head d
  have hfirst : x = y := by
    rw [hx, hy] at h
    exact (List.cons.inj h).1
  have hiff : c ∈ escapedChars ↔ d ∈ escapedChars := by rw [← hc, ← hd, hfirst]
  by_cases hesc : c ∈ escapedChars
  · have hword : ∀ {a b : Text} {s t : Text}, a ++ s = b ++ t → a.length ≤ b.length →
        a.isPrefixOf b = true := fun heq hle =>
      List.isPrefixOf_iff_prefix.mpr (List.prefix_of_prefix_length_le ⟨_, heq⟩ ⟨_, rfl⟩ hle)
    rcases Nat.le_total (jsonChar c).length (jsonChar d).length with hle | hle
    · exact jsonChar_escapes hesc (hiff.mp hesc) (hword h hle)
    · exact (jsonChar_escapes (hiff.mp hesc) hesc (hword h.symm hle)).symm
  · rw [jsonChar_plain hesc, jsonChar_plain fun hmem => hesc (hiff.mpr hmem)] at h
    exact (List.cons.inj h).1

theorem jsonString_code {a b s t : Text} (h : jsonString a ++ s = jsonString b ++ t) :
    a = b ∧ s = t := by
  have hbody : a.flatMap jsonChar ++ '"' :: s = b.flatMap jsonChar ++ '"' :: t := by
    simpa [jsonString] using h
  exact Lines.code_injective (fun _ _ _ _ => jsonChar_code)
    (fun c => (jsonChar_head c).imp fun d hd => hd.imp fun _ hlater => ⟨hlater.1, hlater.2.1⟩) hbody

theorem encode_injective : Function.Injective encode := by
  intro a b h
  exact Option.some.inj ((decode_encode a).symm.trans (h ▸ decode_encode b))

theorem name_of_metadata {p q : PackagePlan} (hp : p.workspaceName.length ≤ 200)
    (hq : q.workspaceName.length ≤ 200) (h : metadataText p = metadataText q) :
    p.workspaceName = q.workspaceName := by
  obtain ⟨_, h⟩ := jsonString_code (List.append_cancel_left h)
  obtain ⟨hdescription, _⟩ := jsonString_code (List.append_cancel_left h)
  have hwhole : ∀ {name : Text}, name.length ≤ 200 → description name =
      "KiCad symbols, footprints and 3D models hosted by the ".toList ++
        (name ++ " stockManager workspace.".toList) := by
    intro name hname
    refine List.take_of_length_le ?_
    have hfirst : "KiCad symbols, footprints and 3D models hosted by the ".toList.length = 54 := by decide
    have hlast : " stockManager workspace.".toList.length = 24 := by decide
    rw [List.length_append, List.length_append]
    omega
  rw [hwhole hp, hwhole hq] at hdescription
  exact List.append_cancel_right (List.append_cancel_left hdescription)

end StockManager.Eda

/-! ## What a fingerprint tells -/

namespace StockManager.Eda

open PlainText
open Sexpr (Text)

theorem plain_of_isSafe {name : Text} (h : isSafeMemberName name = true) : Plain name := by
  simp only [isSafeMemberName, decide_eq_true_eq] at h
  intro c hc
  have hsafe := List.all_eq_true.mp h.2.2.2.2 c hc
  simp only [decide_eq_true_eq] at hsafe
  omega

theorem plain_version (v : Version) : Plain v.text := by
  intro c hc
  simp only [Version.text, List.mem_append, List.mem_cons] at hc
  rcases hc with hc | rfl | hc | rfl | hc
  · exact plain_toDigits _ _ c hc
  · decide
  · exact plain_toDigits _ _ c hc
  · decide
  · exact plain_toDigits _ _ c hc

theorem plain_packageIdentifier (workspaceId : Uuid) : Plain (packageIdentifier workspaceId) := by
  refine Plain.append ?_ (Plain.append ?_ (plain_toDigits _ _))
  · exact plain_of_all (by decide)
  · exact plain_replicate _ (by decide)

/-- What is hashed of an entry has no control characters. -/
structure PlainEntry (entry : StoredEntry) : Prop where
  stem : Plain entry.stem
  name : Plain entry.name
  sha256 : Plain entry.sha256
  models : ∀ model ∈ entry.models, Plain model

/-- What is hashed of an entry. -/
def hashedEntry (entry : StoredEntry) : Text × Text × Text × List Text :=
  (entry.stem, entry.name, entry.sha256, entry.models)

def entryBlock (label : Text) (entry : StoredEntry) : Text × List Text :=
  (label ++ '\t' :: (entry.stem ++ '\t' :: (entry.name ++ '\t' :: entry.sha256)),
    entry.models.map fun model => "\tmodel\t".toList ++ model)

def labelled (plan : Plan) : List (Text × StoredEntry) :=
  plan.symbols.map (symbolLabel, ·) ++ plan.footprints.map (footprintLabel, ·) ++
    plan.blobs.map (blobLabel, ·)

theorem planLines_eq (plan : Plan) :
    planLines plan = Lines.outline ((labelled plan).map fun p => entryBlock p.1 p.2) := by
  simp only [planLines, labelled, Lines.outline, List.map_append, List.flatMap_append,
    List.flatMap_map, List.map_map]
  rfl

theorem plain_labelled {plan : Plan} : ∀ pair ∈ labelled plan, Plain pair.1 := by
  intro pair hpair
  simp only [labelled, List.mem_append, List.mem_map] at hpair
  have hsymbol : Plain symbolLabel := plain_of_all (by decide)
  have hfootprint : Plain footprintLabel := plain_of_all (by decide)
  have hblob : Plain blobLabel := plain_of_all (by decide)
  rcases hpair with (⟨_, _, rfl⟩ | ⟨_, _, rfl⟩) | ⟨_, _, rfl⟩
  · exact hsymbol
  · exact hfootprint
  · exact hblob

theorem free_planLines {plan : Plan} (h : ∀ pair ∈ labelled plan, PlainEntry pair.2) :
    Lines.Free '\n' (planLines plan) := by
  rw [planLines_eq]
  intro line hline
  obtain ⟨_, hblock, hline⟩ := List.mem_flatMap.mp hline
  obtain ⟨pair, hpair, rfl⟩ := List.mem_map.mp hblock
  have hentry := h pair hpair
  rcases List.mem_cons.mp hline with rfl | hline
  · have hlabel := (plain_labelled pair hpair).newline
    simp only [entryBlock, List.mem_append, List.mem_cons, not_or]
    exact ⟨hlabel, by decide, hentry.stem.newline, by decide, hentry.name.newline, by decide,
      hentry.sha256.newline⟩
  · obtain ⟨model, hmodel, rfl⟩ := List.mem_map.mp hline
    rw [List.mem_append, not_or]
    exact ⟨by decide, (hentry.models model hmodel).newline⟩

theorem hashed_of_block {label label' : Text} {a b : StoredEntry} (hlabel : Plain label)
    (hlabel' : Plain label') (ha : PlainEntry a) (hb : PlainEntry b)
    (h : entryBlock label a = entryBlock label' b) : label = label' ∧ hashedEntry a = hashedEntry b := by
  obtain ⟨hline, hmodels⟩ := Prod.mk.inj h
  obtain ⟨rfl, hfields⟩ := Lines.before_sep hlabel.tab hlabel'.tab hline
  obtain ⟨hstem, hfields⟩ := Lines.before_sep ha.stem.tab hb.stem.tab hfields
  obtain ⟨hname, hsha⟩ := Lines.before_sep ha.name.tab hb.name.tab hfields
  have hinj : Function.Injective fun model : Text => "\tmodel\t".toList ++ model :=
    fun _ _ heq => List.append_cancel_left heq
  refine ⟨rfl, ?_⟩
  rw [hashedEntry, hstem, hname, hsha, (List.map_injective_iff.mpr hinj) hmodels]
  rfl

theorem map_eq_map_of {α β γ δ : Type} {f : α → γ} {g : β → γ} {f' : α → δ} {g' : β → δ}
    {xs : List α} {ys : List β} (hstep : ∀ x ∈ xs, ∀ y ∈ ys, f x = g y → f' x = g' y)
    (h : xs.map f = ys.map g) : xs.map f' = ys.map g' := by
  induction xs generalizing ys with
  | nil =>
    cases ys with
    | nil => rfl
    | cons y ys => cases h
  | cons x xs ih =>
    cases ys with
    | nil => cases h
    | cons y ys =>
      obtain ⟨hfirst, hrest⟩ := List.cons.inj h
      rw [List.map_cons, List.map_cons, hstep x (List.mem_cons_self ..) y (List.mem_cons_self ..) hfirst,
        ih (fun a ha b hb => hstep a (List.mem_cons_of_mem _ ha) b (List.mem_cons_of_mem _ hb)) hrest]

def underLabel (label : Text) (entries : List (Text × (Text × Text × Text × List Text))) :
    List (Text × Text × Text × List Text) :=
  entries.filterMap fun p => if p.1 = label then some p.2 else none

theorem underLabel_map (label own : Text) (entries : List StoredEntry) :
    underLabel label ((entries.map (own, ·)).map fun p => (p.1, hashedEntry p.2)) =
      if own = label then entries.map hashedEntry else [] := by
  unfold underLabel
  rw [List.map_map, List.filterMap_map]
  split
  next h =>
    rw [← List.filterMap_eq_map]
    refine List.filterMap_congr fun entry _ => ?_
    simp [h]
  next h =>
    refine List.filterMap_eq_nil_iff.mpr fun entry _ => ?_
    simp [h]

theorem hashed_of_lines {p q : Plan} (hp : ∀ pair ∈ labelled p, PlainEntry pair.2)
    (hq : ∀ pair ∈ labelled q, PlainEntry pair.2) (h : planLines p = planLines q) :
    p.symbols.map hashedEntry = q.symbols.map hashedEntry ∧
      p.footprints.map hashedEntry = q.footprints.map hashedEntry ∧
      p.blobs.map hashedEntry = q.blobs.map hashedEntry := by
  have hlabel : ∀ {plan : Plan}, ∀ pair ∈ labelled plan,
      pair.1 = symbolLabel ∨ pair.1 = footprintLabel ∨ pair.1 = blobLabel := by
    intro plan pair hpair
    simp only [labelled, List.mem_append, List.mem_map] at hpair
    rcases hpair with (⟨_, _, rfl⟩ | ⟨_, _, rfl⟩) | ⟨_, _, rfl⟩
    · exact Or.inl rfl
    · exact Or.inr (Or.inl rfl)
    · exact Or.inr (Or.inr rfl)
  -- A heading begins with a letter of its label, a link's line with a tab.
  have hheading : ∀ {plan : Plan}, ∀ b ∈ (labelled plan).map fun p => entryBlock p.1 p.2,
      b.1.head? ≠ some '\t' ∧ ∀ line ∈ b.2, ¬ line.head? ≠ some '\t' := by
    intro plan b hb
    obtain ⟨pair, hpair, rfl⟩ := List.mem_map.mp hb
    refine ⟨?_, fun line hline => ?_⟩
    · rcases hlabel pair hpair with h | h | h
      all_goals
        rw [h]
        simp [entryBlock, symbolLabel, footprintLabel, blobLabel]
    · obtain ⟨model, _, rfl⟩ := List.mem_map.mp hline
      simp
  rw [planLines_eq, planLines_eq] at h
  have hblocks := Lines.outline_injective (fun line => line.head? ≠ some '\t') hheading hheading h
  have hall : (labelled p).map (fun p => (p.1, hashedEntry p.2)) =
      (labelled q).map fun p => (p.1, hashedEntry p.2) := by
    refine map_eq_map_of (fun x hx y hy heq => ?_) hblocks
    obtain ⟨hname, hentry⟩ := hashed_of_block (plain_labelled x hx) (plain_labelled y hy) (hp x hx) (hq y hy) heq
    exact Prod.ext hname hentry
  have hunder : ∀ label, underLabel label ((labelled p).map fun p => (p.1, hashedEntry p.2)) =
      underLabel label ((labelled q).map fun p => (p.1, hashedEntry p.2)) :=
    fun label => congrArg _ hall
  have hsplit : ∀ (plan : Plan) (label : Text),
      underLabel label ((labelled plan).map fun p => (p.1, hashedEntry p.2)) =
      (if symbolLabel = label then plan.symbols.map hashedEntry else []) ++
      (if footprintLabel = label then plan.footprints.map hashedEntry else []) ++
      if blobLabel = label then plan.blobs.map hashedEntry else [] := by
    intro plan label
    rw [← underLabel_map, ← underLabel_map, ← underLabel_map]
    simp only [labelled, List.map_append, underLabel, List.filterMap_append]
  simp only [hsplit] at hunder
  refine ⟨?_, ?_, ?_⟩
  · simpa [symbolLabel, footprintLabel, blobLabel] using hunder symbolLabel
  · simpa [symbolLabel, footprintLabel, blobLabel] using hunder footprintLabel
  · simpa [symbolLabel, footprintLabel, blobLabel] using hunder blobLabel

end StockManager.Eda

/-! ## What an archive depends on -/

namespace StockManager.Eda

open Sexpr (Text)

variable {read read' : ReadFile} {metadata : ByteArray} {plan p q : Plan} {archive : Archive}
variable {entry : StoredEntry} {member : Text × ByteArray}
  {footprints footprints' : List StoredEntry}

theorem writeArchive_ok : writeArchive metadata read plan = .ok archive ↔
    ∃ libraries, (GroupRuns.groupBy (·.stem) plan.symbols).mapM
      (writeSymbolLibrary read plan.footprints) = .ok libraries ∧
    ∃ footprints, plan.footprints.mapM (writeFootprint read plan.identifier) = .ok footprints ∧
    ∃ blobs, plan.blobs.mapM (copyStored read) = .ok blobs ∧
      archive = (metadataMember, metadata) :: (libraries ++ footprints ++ blobs) := by
  unfold writeArchive
  simp only [Outcome.bind_ok, Outcome.pure_ok]
  simp only [eq_comm (a := archive)]

theorem readStored_ok {raw : ByteArray} :
    readStored read entry = .ok raw ↔ read entry.kind entry.sha256 = some raw := Outcome.orRaise_ok

theorem copyStored_ok :
    copyStored read entry = .ok member ↔
      ∃ raw, read entry.kind entry.sha256 = some raw ∧ member = (entry.member, raw) := by
  unfold copyStored
  simp only [Outcome.bind_ok, Outcome.pure_ok, readStored_ok]
  simp only [eq_comm (a := member)]

theorem writeFootprint_ok {identifier : Text} :
    writeFootprint read identifier entry = .ok member ↔
      ∃ raw, read entry.kind entry.sha256 = some raw ∧
      ∃ data, footprintForPackage identifier entry.models raw = .ok data ∧
        member = (entry.member, data) := by
  unfold writeFootprint
  simp only [Outcome.bind_ok, Outcome.pure_ok, readStored_ok]
  simp only [eq_comm (a := member)]

theorem writeSymbolLibrary_ok {library : Text × List StoredEntry}
    :
    writeSymbolLibrary read footprints library = .ok member ↔
      ∃ entries, library.2.mapM (fun entry => readStored read entry >>= symbolForPackage footprints) =
        .ok entries ∧ member = (symbolMember library.1, symbolLibrary entries) := by
  unfold writeSymbolLibrary
  rw [Outcome.bind_ok]
  simp only [Outcome.pure_ok, eq_comm (a := member)]

theorem writeArchive_mono (hread : ∀ kind sha256 raw, read kind sha256 = some raw →
    read' kind sha256 = some raw) (h : writeArchive metadata read plan = .ok archive) :
    writeArchive metadata read' plan = .ok archive := by
  obtain ⟨libraries, hlibraries, footprints, hfootprints, blobs, hblobs, harchive⟩ :=
    writeArchive_ok.mp h
  refine writeArchive_ok.mpr ⟨libraries, ?_, footprints, ?_, blobs, ?_, harchive⟩
  · refine Outcome.mapM_ok_mono (fun library _ member hmember => ?_) hlibraries
    obtain ⟨entries, hentries, heq⟩ := writeSymbolLibrary_ok.mp hmember
    refine writeSymbolLibrary_ok.mpr ⟨entries, ?_, heq⟩
    refine Outcome.mapM_ok_mono (fun entry _ data hdata => ?_) hentries
    obtain ⟨raw, hraw, hsymbol⟩ := Outcome.bind_ok.mp hdata
    exact Outcome.bind_ok.mpr ⟨raw, readStored_ok.mpr (hread _ _ _ (readStored_ok.mp hraw)), hsymbol⟩
  · refine Outcome.mapM_ok_mono (fun entry _ member hmember => ?_) hfootprints
    obtain ⟨raw, hraw, hrest⟩ := writeFootprint_ok.mp hmember
    exact writeFootprint_ok.mpr ⟨raw, hread _ _ _ hraw, hrest⟩
  · refine Outcome.mapM_ok_mono (fun entry _ member hmember => ?_) hblobs
    obtain ⟨raw, hraw, hrest⟩ := copyStored_ok.mp hmember
    exact copyStored_ok.mpr ⟨raw, hread _ _ _ hraw, hrest⟩

theorem read_of_archive (h : writeArchive metadata read plan = .ok archive) :
    ∀ pair ∈ labelled plan, ∃ raw, read pair.2.kind pair.2.sha256 = some raw := by
  obtain ⟨_, hlibraries, _, hfootprints, _, hblobs, _⟩ := writeArchive_ok.mp h
  intro pair hpair
  simp only [labelled, List.mem_append, List.mem_map] at hpair
  rcases hpair with (⟨entry, hentry, rfl⟩ | ⟨entry, hentry, rfl⟩) | ⟨entry, hentry, rfl⟩
  · rw [← GroupRuns.flatMap_groupBy (·.stem) plan.symbols, List.mem_flatMap] at hentry
    obtain ⟨library, hlibrary, hmem⟩ := hentry
    obtain ⟨_, hmember⟩ := Outcome.mapM_ok_mem hlibraries library hlibrary
    obtain ⟨_, hentries, _⟩ := writeSymbolLibrary_ok.mp hmember
    obtain ⟨_, hdata⟩ := Outcome.mapM_ok_mem hentries entry hmem
    obtain ⟨raw, hraw, _⟩ := Outcome.bind_ok.mp hdata
    exact ⟨raw, readStored_ok.mp hraw⟩
  · obtain ⟨_, hmember⟩ := Outcome.mapM_ok_mem hfootprints entry hentry
    obtain ⟨raw, hraw, _⟩ := writeFootprint_ok.mp hmember
    exact ⟨raw, hraw⟩
  · obtain ⟨_, hmember⟩ := Outcome.mapM_ok_mem hblobs entry hentry
    obtain ⟨raw, hraw, _⟩ := copyStored_ok.mp hmember
    exact ⟨raw, hraw⟩

theorem names_of_archive (h : writeArchive metadata read plan = .ok archive) :
    archive.map (·.1) = metadataMember ::
      ((GroupRuns.groupBy (·.stem) plan.symbols).map (fun library => symbolMember library.1) ++
        plan.footprints.map (·.member) ++ plan.blobs.map (·.member)) := by
  obtain ⟨_, hlibraries, _, hfootprints, _, hblobs, rfl⟩ := writeArchive_ok.mp h
  have h₁ := Outcome.map_of_mapM_ok (·.1) (fun library => symbolMember library.1)
    (fun _ _ _ hmember => by
      obtain ⟨_, _, rfl⟩ := writeSymbolLibrary_ok.mp hmember
      rfl) hlibraries
  have h₂ := Outcome.map_of_mapM_ok (·.1) StoredEntry.member
    (fun _ _ _ hmember => by
      obtain ⟨_, _, _, _, rfl⟩ := writeFootprint_ok.mp hmember
      rfl) hfootprints
  have h₃ := Outcome.map_of_mapM_ok (·.1) StoredEntry.member
    (fun _ _ _ hmember => by
      obtain ⟨_, _, rfl⟩ := copyStored_ok.mp hmember
      rfl) hblobs
  rw [List.map_cons, List.map_append, List.map_append, h₁, h₂, h₃]

noncomputable def readDigest (sha256 : ByteArray → Text) : ReadFile :=
  fun _ => Function.partialInv sha256

theorem readDigest_of_addressed {sha256 : ByteArray → Text} (hsha : Function.Injective sha256)
    {s : State} (haddressed : s.files.Addressed sha256) (workspaceId : Uuid) (kind : StorageKind)
    (address : Text) (raw : ByteArray) (h : storeOf s workspaceId kind address = some raw) :
    readDigest sha256 kind address = some raw :=
  (hsha.isPartialInv raw address).mpr (haddressed _ _ _ h)

theorem footprintLibrary_congr
    (h : footprints.map hashedEntry = footprints'.map hashedEntry) (name : Text) :
    footprintLibrary footprints name = footprintLibrary footprints' name := by
  have hfind : ∀ entries : List StoredEntry, footprintLibrary entries name =
      (((entries.map hashedEntry).reverse.find? fun e => e.2.1 = name).map
        fun e => stemNickname e.1) := by
    intro entries
    rw [← List.map_reverse, List.find?_map, Option.map_map]
    rfl
  rw [hfind, hfind, h]

theorem symbolForPackage_congr (h : footprints.map hashedEntry = footprints'.map hashedEntry) :
    symbolForPackage footprints = symbolForPackage footprints' := by
  funext raw
  unfold symbolForPackage repointed
  simp only [footprintLibrary_congr h]

def Placed (plan : Plan) : Prop :=
  ∀ entry ∈ plan.footprints, entry.member = footprintMember entry.stem entry.name

/-- The archive depends on a plan only through the names and digests of its entries. -/
theorem writeArchive_congr {find : Text → Option ByteArray} (hp : Placed p) (hq : Placed q)
    (hidentifier : p.identifier = q.identifier)
    (hsymbols : p.symbols.map hashedEntry = q.symbols.map hashedEntry)
    (hfootprints : p.footprints.map hashedEntry = q.footprints.map hashedEntry)
    (hblobs : (p.blobs.map fun e => (e.member, e.sha256)) =
      q.blobs.map fun e => (e.member, e.sha256)) :
    writeArchive metadata (fun _ => find) p = writeArchive metadata (fun _ => find) q := by
  have hgroups : ((GroupRuns.groupBy (·.stem) p.symbols).map
      fun library => (library.1, library.2.map hashedEntry)) =
      (GroupRuns.groupBy (·.stem) q.symbols).map
        fun library => (library.1, library.2.map hashedEntry) := by
    have hruns : ∀ entries : List StoredEntry, ((GroupRuns.groupBy (·.stem) entries).map
        fun library => (library.1, library.2.map hashedEntry)) =
        GroupRuns.groupBy (·.1) (entries.map hashedEntry) := by
      intro entries
      have hstem : ∀ entry : StoredEntry, (hashedEntry entry).1 = entry.stem := fun _ => rfl
      exact (GroupRuns.groupBy_map hstem entries).symm
    rw [hruns, hruns, hsymbols]
  have hlibraries : (GroupRuns.groupBy (·.stem) p.symbols).mapM
      (writeSymbolLibrary (fun _ => find) p.footprints) =
      (GroupRuns.groupBy (·.stem) q.symbols).mapM
        (writeSymbolLibrary (fun _ => find) q.footprints) := by
    refine Outcome.mapM_congr_map (fun library => do
      let entries ← library.2.mapM fun e => do
        let raw ← Outcome.orRaise (find e.2.2.1)
          (unavailable "a library file is missing from storage")
        symbolForPackage q.footprints raw
      return (symbolMember library.1, symbolLibrary entries)) (fun library _ => ?_)
      (fun library _ => ?_) hgroups
    · rw [writeSymbolLibrary, symbolForPackage_congr hfootprints, List.mapM_map]
      rfl
    · rw [writeSymbolLibrary, List.mapM_map]
      rfl
  have hfiles : p.footprints.mapM (writeFootprint (fun _ => find) p.identifier) =
      q.footprints.mapM (writeFootprint (fun _ => find) q.identifier) := by
    refine Outcome.mapM_congr_map (fun e => do
      let raw ← Outcome.orRaise (find e.2.2.1)
        (unavailable "a library file is missing from storage")
      let data ← footprintForPackage q.identifier e.2.2.2 raw
      return (footprintMember e.1 e.2.1, data)) (fun entry hentry => ?_)
      (fun entry hentry => ?_) hfootprints
    · rw [writeFootprint, hp entry hentry, hidentifier]
      rfl
    · rw [writeFootprint, hq entry hentry]
      rfl
  have hcopies : p.blobs.mapM (copyStored fun _ => find) = q.blobs.mapM (copyStored fun _ => find) :=
    Outcome.mapM_congr_map (fun e => do
      let raw ← Outcome.orRaise (find e.2) (unavailable "a library file is missing from storage")
      return (e.1, raw)) (fun _ _ => rfl) (fun _ _ => rfl) hblobs
  rw [writeArchive, writeArchive, hlibraries, hfiles, hcopies]

end StockManager.Eda
