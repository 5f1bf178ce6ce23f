import StockManager.Properties.UploadDoors

/-! # 3D files keep their extension

KiCad picks its 3D plugin by the extension of a model's path, which is the name of a row. -/

namespace StockManager.Eda

open Sexpr (Text)

variable {separator : Char} {before after ext filename name candidate : Text}
  {d kind : DatafileKind} {data : ByteArray} {categoryId : Option Uuid}

/-- In lower case, without the dot. -/
def extensionOf (name : Text) : Text :=
  if '.' ∈ name then (afterLast '.' name).map Char.toLower else []

/-- A 3D file's name has an extension of its kind. -/
def NameKeeps (kind : DatafileKind) (name : Text) : Prop :=
  kind ≠ .spice → extensionOf name ∈ kindExtensions kind

def KeepsExtensions (s : State) : Prop :=
  ∀ row ∈ s.datafiles, ∀ kind ∈ row.kind, NameKeeps kind row.name

theorem afterLast_append (h : separator ∉ after) :
    afterLast separator (before ++ after) = afterLast separator before ++ after := by
  have hall : after.reverse.takeWhile (· ≠ separator) = after.reverse :=
    List.takeWhile_eq_self_iff.mpr fun c hc =>
      decide_eq_true fun heq => h (heq ▸ List.mem_reverse.mp hc)
  have hkept : ∀ c ∈ after.reverse, decide (c ≠ separator) = true := fun c hc =>
    decide_eq_true fun heq => h (heq ▸ List.mem_reverse.mp hc)
  rw [afterLast, afterLast, List.reverse_append, List.takeWhile_append_of_pos hkept,
    List.reverse_append, List.reverse_reverse]

theorem afterLast_cons (h : separator ∉ after) :
    afterLast separator (before ++ separator :: after) = after := by
  have hsplit : before ++ separator :: after = (before ++ [separator]) ++ after := by simp
  rw [hsplit, afterLast_append h, afterLast, List.reverse_append, List.reverse_singleton,
    List.singleton_append, List.takeWhile_cons_of_neg (by simp), List.reverse_nil,
    List.nil_append]

theorem exists_afterLast {text : Text} (h : separator ∈ text) :
    ∃ before, text = before ++ separator :: afterLast separator text := by
  obtain ⟨after, before, heq, hafter⟩ := List.eq_append_cons_of_mem (List.mem_reverse.mpr h)
  have htext : text = before.reverse ++ separator :: after.reverse := by
    rw [← List.reverse_reverse text, heq]
    simp
  refine ⟨before.reverse, ?_⟩
  conv_lhs => rw [htext]
  rw [htext, afterLast_cons fun hmem => hafter (List.mem_reverse.mp hmem)]

theorem extensionOf_cons (h : '.' ∉ ext) :
    extensionOf (before ++ '.' :: ext) = ext.map Char.toLower := by
  rw [extensionOf, if_pos (by simp), afterLast_cons h]

theorem toLower_space {c : Char} (h : isSpace c = true) : c.toLower = c := by
  unfold Char.toLower
  split
  · rename_i hupper
    obtain ⟨hlow, hhigh⟩ := hupper
    have hlow' : 65 ≤ c.toNat := hlow
    have hhigh' : c.toNat ≤ 90 := hhigh
    simp only [isSpace, Bool.or_eq_true, Bool.and_eq_true, decide_eq_true_eq] at h
    omega
  · rfl

def extensionLetters : Text := ['s', 't', 'e', 'p', 'w', 'r', 'l', 'v', 'm']

theorem kindExtensions_letters : ∀ kind, ∀ word ∈ kindExtensions kind,
    word ≠ [] ∧ ∀ c ∈ word, c ∈ extensionLetters := by
  intro kind word hword
  cases kind with
  | step =>
    rcases List.mem_pair.mp hword with rfl | rfl <;> simp [extensionLetters]
  | wrl =>
    rcases List.mem_pair.mp hword with rfl | rfl <;> simp [extensionLetters]
  | spice => exact absurd hword List.not_mem_nil

theorem letters_plain : ∀ c ∈ extensionLetters, c ≠ '/' ∧ c ≠ '\\' ∧ c ≠ '.' ∧
    isSpace c = false := by
  simp [extensionLetters, isSpace]

theorem extension_plain (h : ext.map Char.toLower ∈ kindExtensions kind) :
    ext ≠ [] ∧ ∀ c ∈ ext, c ≠ '/' ∧ c ≠ '\\' ∧ c ≠ '.' ∧ isSpace c = false := by
  obtain ⟨hne, hletters⟩ := kindExtensions_letters kind _ h
  refine ⟨fun hnil => hne (by rw [hnil]; rfl), fun c hc => ?_⟩
  have hlower := letters_plain _ (hletters _ (List.mem_map_of_mem hc))
  refine ⟨?_, ?_, ?_, ?_⟩
  · rintro rfl
    exact hlower.1 rfl
  · rintro rfl
    exact hlower.2.1 rfl
  · rintro rfl
    exact hlower.2.2.1 rfl
  · by_contra hspace
    have hspace : isSpace c = true := by simpa using hspace
    rw [toLower_space hspace, hspace] at hlower
    exact Bool.noConfusion hlower.2.2.2

theorem datafileKind_extension
    (h : datafileKindFromFilename (some filename) = .ok d) (hd : d ≠ .spice) :
    '.' ∈ filename ∧ (afterLast '.' filename).map Char.toLower ∈ kindExtensions d := by
  unfold datafileKindFromFilename at h
  by_cases hdot : '.' ∈ filename
  · refine ⟨hdot, ?_⟩
    simp only [Option.getD_some, hdot, if_true] at h
    split at h
    · rename_i hword
      obtain rfl := Except.ok.inj h
      simp only [List.mem_cons, List.not_mem_nil, or_false] at hword
      rcases hword with hword | hword
      · rw [← String.toList_ofList (l := (afterLast '.' filename).map Char.toLower), hword]
        decide
      · rw [← String.toList_ofList (l := (afterLast '.' filename).map Char.toLower), hword]
        decide
    · split at h
      · rename_i hword
        obtain rfl := Except.ok.inj h
        simp only [List.mem_cons, List.not_mem_nil, or_false] at hword
        rcases hword with hword | hword
        · rw [← String.toList_ofList (l := (afterLast '.' filename).map Char.toLower), hword]
          decide
        · rw [← String.toList_ofList (l := (afterLast '.' filename).map Char.toLower), hword]
          decide
      · split at h
        · exact absurd (Except.ok.inj h).symm hd
        · cases h
  · exfalso
    simp [hdot] at h

theorem basename_extension {before ext : Text}
    (hext : ∀ c ∈ ext, c ≠ '/' ∧ c ≠ '\\' ∧ c ≠ '.' ∧ isSpace c = false)
    (hlength : (before ++ '.' :: ext).length ≤ nameMax) :
    ∃ front, basename (some (before ++ '.' :: ext)) = front ++ '.' :: ext := by
  have htail : ∀ c ∈ '.' :: ext, c ≠ '/' ∧ c ≠ '\\' ∧ isSpace c = false :=
    List.forall_mem_cons.mpr ⟨by decide, fun c hc => ⟨(hext c hc).1, (hext c hc).2.1, (hext c hc).2.2.2⟩⟩
  have hslashed : slashed (before ++ '.' :: ext) = slashed before ++ '.' :: ext := by
    rw [slashed, List.map_append]
    refine congrArg (_ ++ ·) ((List.map_congr_left fun c hc => ?_).trans (List.map_id _))
    exact if_neg (htail c hc).2.1
  have hbase : afterLast '/' (slashed (before ++ '.' :: ext)) =
      afterLast '/' (slashed before) ++ '.' :: ext := by
    rw [hslashed, afterLast_append fun hmem => (htail _ hmem).1 rfl]
  have hfront : ∃ front, (afterLast '/' (slashed before) ++ '.' :: ext).dropWhile isSpace =
      front ++ '.' :: ext ∧ front.length ≤ before.length := by
    have hle : (afterLast '/' (slashed before)).length ≤ before.length :=
      (length_afterLast_le _ _).trans (by rw [slashed, List.length_map])
    rw [List.dropWhile_append]
    split
    · exact ⟨[], by rw [List.dropWhile_cons_of_neg (by decide), List.nil_append], Nat.zero_le _⟩
    · exact ⟨_, rfl, ((List.dropWhile_sublist _).length_le).trans hle⟩
  obtain ⟨front, hfront, hle⟩ := hfront
  have hback : ((front ++ '.' :: ext).reverse.dropWhile isSpace).reverse = front ++ '.' :: ext := by
    have hlast : ∀ c ∈ (front ++ '.' :: ext).reverse.head?, isSpace c = false := by
      intro c hc
      rw [List.head?_reverse, List.getLast?_append_of_ne_nil _ (List.cons_ne_nil _ _)] at hc
      exact (htail c (List.mem_of_getLast? hc)).2.2
    rw [Trim.dropWhile_of_head hlast, List.reverse_reverse]
  refine ⟨front, ?_⟩
  have hshort : (front ++ '.' :: ext).length ≤ nameMax := by
    rw [List.length_append] at hlength ⊢
    omega
  show (((afterLast '/' (slashed (before ++ '.' :: ext))).dropWhile isSpace).reverse.dropWhile
    isSpace).reverse.take nameMax = _
  rw [hbase, hfront, hback, List.take_of_length_le hshort]

theorem routeName_keeps {env : Env} (hname : filename.length ≤ nameMax)
    (h : datafileKindFromFilename (some filename) = .ok d) :
    NameKeeps d (routeName env filename d data) := by
  intro hd
  obtain ⟨hdot, hext⟩ := datafileKind_extension h hd
  have hplain := (extension_plain hext).2
  obtain ⟨before, hsplit⟩ := exists_afterLast hdot
  obtain ⟨front, hfront⟩ := @basename_extension before _ hplain (hsplit ▸ hname)
  rw [← hsplit] at hfront
  rw [routeName, hfront, if_pos (by simp), extensionOf_cons (not_mem_afterLast '.' filename)]
  exact hext

/-- The lower case of a text is a word of ASCII letters only where those of its letters are. -/
def LowersAscii (env : ArchiveEnv) : Prop :=
  ∀ kind, ∀ word ∈ kindExtensions kind, ∀ text, env.lower text = word →
    text.map Char.toLower = word

/-- Every 3D file in the archive has a name that fits the column, with a stem. -/
def PlainModels (env : ArchiveEnv) (archive : VendorArchive) : Prop :=
  ∀ name, IsMemberName archive name → ∀ kind, memberExtension env name ∈ kindExtensions kind →
    name.length ≤ nameMax ∧ (splitExtension name).1 ≠ []

theorem suffixed_keeps (hdot : '.' ∈ name)
    (hstem : (splitExtension name).1 ≠ []) (h : NameKeeps kind name)
    (hmem : candidate ∈ suffixedNames name true) : NameKeeps kind candidate := by
  intro hkind
  have hext : extensionOf name = (afterLast '.' name).map Char.toLower := if_pos hdot
  unfold suffixedNames at hmem
  simp only at hmem
  rw [if_pos ⟨trivial, hdot, hstem⟩] at hmem
  obtain ⟨suffix, -, rfl⟩ := List.mem_map.mp hmem
  show extensionOf (_ ++ '.' :: afterLast '.' name) ∈ kindExtensions kind
  rw [extensionOf_cons (not_mem_afterLast '.' name), ← hext]
  exact h hkind

theorem pending_keeps {env : ArchiveEnv} (hlower : LowersAscii env) {archive : VendorArchive}
    (hplain : PlainModels env archive) {file : PendingDatafile}
    (hfile : FileRead env (IsMemberName archive) file)
    (hmem : candidate ∈ file.name.take nameMax :: suffixedNames file.name true) :
    NameKeeps file.kind candidate := by
  intro hkind
  have hext := hfile.kind.resolve_left hkind
  obtain ⟨hlength, hstem⟩ := hplain file.name hfile.name file.kind hext
  obtain ⟨_, _, member, _, hname⟩ := hfile.name
  have hbase : memberBasename file.name = file.name := by rw [← hname, memberBasename_idem]
  have hword := hext
  rw [memberExtension, hbase] at hword
  have hdot : '.' ∈ file.name := by
    by_contra hnot
    rw [if_neg hnot] at hword
    exact (kindExtensions_letters file.kind [] hword).1 rfl
  rw [if_pos hdot] at hword
  have hkeeps : NameKeeps file.kind file.name := fun _ => by
    rw [extensionOf, if_pos hdot, hlower file.kind _ hword _ rfl]
    exact hword
  rcases List.mem_cons.mp hmem with rfl | hmem
  · rw [List.take_of_length_le hlength]
    exact hkeeps hkind
  · exact suffixed_keeps hdot hstem hkeeps hmem hkind

section Imports

variable {env : Env} {ctx : Ctx} {s t : State} {stored : Entry × Bool}

theorem insertEntry_keeps {storageKind : StorageKind} (hs : KeepsExtensions s)
    (hname : NameKeeps d name)
    (h : insertEntry env ctx .datafile storageKind (some d) categoryId name data s =
      .ok (stored, t)) : KeepsExtensions t := by
  obtain ⟨middle, hupload, rfl⟩ := insertEntry_ok h
  obtain ⟨-, ⟨rfl, -⟩ | ⟨-, hrow, -, rfl⟩⟩ := uploadEntry_ok hupload
  · exact hs
  · intro row hmem kind hkind
    rcases List.mem_append.mp hmem with hold | hnew
    · exact hs row hold kind hkind
    · rw [List.mem_singleton.mp hnew, hrow] at hkind ⊢
      obtain rfl : d = kind := Option.some.inj hkind
      exact hname

theorem importDatafiles_keeps {pending : List PendingDatafile} {result after : ImportResult}
    {models models' : ModelsByStem}
    (hpending : ∀ file ∈ pending, ∀ candidate ∈
      file.name.take nameMax :: suffixedNames file.name true, NameKeeps file.kind candidate)
    (hs : KeepsExtensions s)
    (h : importDatafiles env ctx pending result models s = .ok (after, models', t)) :
    KeepsExtensions t := by
  induction pending generalizing ctx result models s with
  | nil =>
    rw [importDatafiles] at h
    cases h
    exact hs
  | cons file rest ih =>
    rw [List.forall_mem_cons] at hpending
    rw [importDatafiles, Outcome.bind_ok] at h
    obtain ⟨⟨stored, middle⟩, hstored, h⟩ := h
    have hmiddle : KeepsExtensions middle := by
      obtain ⟨-, rfl⟩ | ⟨candidate, hmem, data, row, -, -, hinsert⟩ := storeCandidates_ok hstored
      · exact hs
      · exact insertEntry_keeps hs (hpending.1 candidate hmem) hinsert
    cases stored with
    | none => exact ih hpending.2 hmiddle h
    | some stored => exact ih hpending.2 hmiddle h

theorem importPlan_keeps {plan : ImportPlan} {result : ImportResult}
    (hplan : ∀ file ∈ plan.datafiles, ∀ candidate ∈
      file.name.take nameMax :: suffixedNames file.name true, NameKeeps file.kind candidate)
    (hs : KeepsExtensions s) (h : importPlan env ctx plan categoryId s = .ok (result, t)) :
    KeepsExtensions t := by
  obtain ⟨_, -, h⟩ := Outcome.bind_ok.mp h
  obtain ⟨⟨result1, models, s1⟩, hdatafiles, h⟩ := Outcome.bind_ok.mp h
  obtain ⟨⟨result2, s2⟩, hfootprints, hsymbols⟩ := Outcome.bind_ok.mp h
  have hfiles := importDatafiles_keeps hplan hs hdatafiles
  have hrows : t.datafiles = s1.datafiles :=
    ((importSymbols_frame hsymbols).2 .datafile (by decide)).trans
      ((importFootprints_frame hfootprints).2 .datafile (by decide))
  intro row hrow
  rw [hrows] at hrow
  exact hfiles row hrow

end Imports

end StockManager.Eda
